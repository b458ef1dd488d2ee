import Dispatch.Store.Leases

/-!
# Phase reports

A worker reports that its attempt is starting, running or finalizing. A
report moves the attempt forward and sets the deadline of the phase entered;
it renews nothing. A second report of a phase already recorded keeps its
deadline, and is accepted only with the same runtime evidence.
-/

namespace Dispatch

open Txn

variable {s s' seen : Store} {now : Time} {id : WorkerIdentity} {r : PhaseReport}

/-- A report that an attempt has entered a phase. -/
structure PhaseReport where
  eventID : Uuid
  claims : PhaseClaims
  deriving DecidableEq, Repr

/-- The runtime evidence a phase must carry. -/
def validPhaseEvidence (c : PhaseClaims) : Bool :=
  match c.phase with
  | .starting => decide (c.containerID = "") && c.exitCode.isNone
  | .running => hashPattern c.containerID && c.exitCode.isNone
  | .finalizing =>
    hashPattern c.containerID &&
      match c.exitCode with
      | some e => decide (0 ≤ e) && decide (e ≤ 255)
      | none => false
  | _ => false

/-- The report is well formed and of this worker. -/
def PhaseReport.validate (r : PhaseReport) (worker : Uuid) : Except StoreError Unit := do
  let a := r.claims.authority
  require (canonicalUUID r.eventID ∧ canonicalUUID a.jobID ∧ canonicalUUID a.attemptID ∧
    canonicalUUID a.sessionID ∧ a.workerID = worker ∧ 1 ≤ a.generation) .invalid
  require (validPhaseEvidence r.claims) .invalid

/-- Seconds of a document's timeouts as a duration. -/
def seconds (n : ℤ) : Time := n.toNat * second

/-- **The deadline of the phase a report enters.** -/
def nextPhaseDeadline (c : PhaseClaims) (a : AttemptRow) (job : Job) (now : Time) :
    Except StoreError Time := do
  require (∀ container ∈ a.containerID, c.containerID = container) .conflict
  if a.state = c.phase then
    require (a.exitCode = c.exitCode) .conflict
    pure a.phaseDeadline
  else
    match a.state, c.phase with
    -- Startup time begins at assignment; acknowledging it gives no new budget.
    | .assigned, .starting => pure a.phaseDeadline
    | .starting, .running => pure (now + seconds job.spec.timeouts.executionSeconds)
    | .starting, .finalizing => pure (now + seconds job.spec.timeouts.finalizationSeconds)
    | .running, .finalizing => pure (now + seconds job.spec.timeouts.finalizationSeconds)
    | _, _ => throw .conflict

/-- `UPDATE attempts SET state, container_id, exit_code, phase_deadline`. -/
def AttemptRow.enterPhase (a : AttemptRow) (c : PhaseClaims) (deadline : Time) : AttemptRow :=
  { a with
    state := c.phase
    containerID := a.containerID <|> (if c.containerID = "" then none else some c.containerID)
    exitCode := c.exitCode
    phaseDeadline := deadline }

/-- **The report of a phase.** Only an accepted first report changes the
store; every other path rolls its claim back. -/
def reportPhase (s seen : Store) (now : Time) (id : WorkerIdentity) (r : PhaseReport) :
    Except StoreError (Store × MutationResult) := do
  require (canonicalUUID id.workerID ∧ canonicalUUID id.credentialID) .unauthorized
  r.validate id.workerID
  let c := r.claims
  match ← ownedAttempt s seen id c.authority with
  | none => pure (s, ⟨.fenced, none⟩)
  | some a =>
    let j ← orThrow (s.jobs.lookup a.job) .database
    require j.spec.isValid .invalid
    let key := (id.workerID, c.authority.sessionID, r.eventID)
    let decision := leaseDecision c.authority j.lease (some (a.lease c.authority.attemptID)) now
    match s.phaseReports.lookup key with
    | some saved =>
      require (saved = c) .conflict
      pure (s, ⟨decision, some a.state⟩)
    | none =>
      if decision ≠ .accepted then pure (s, ⟨decision, some a.state⟩)
      else
        let deadline ← nextPhaseDeadline c a j.spec now
        let claimed := { s with phaseReports := AList.insert key c s.phaseReports }
        if a.state = c.phase then pure (claimed, ⟨.accepted, some c.phase⟩)
        else
          let entered := { claimed with
            attempts := s.attempts.modify c.authority.attemptID (·.enterPhase c deadline) }
          let logged ← entered.appendEvent now a.job (some c.authority.attemptID)
            (.phaseChanged a.state c.phase deadline c.containerID c.exitCode)
          pure (logged, ⟨.accepted, some c.phase⟩)

/-- **What an accepted first report has passed.** -/
structure PhaseAccepted (s : Store) (now : Time) (id : WorkerIdentity) (r : PhaseReport)
    (a : AttemptRow) (j : JobRow) (deadline : Time) : Prop where
  mine : r.claims.authority.workerID = id.workerID
  evidence : validPhaseEvidence r.claims = true
  attempt : s.attempts.lookup r.claims.authority.attemptID = some a
  authority : a.authority r.claims.authority.attemptID = r.claims.authority
  job : s.jobs.lookup a.job = some j
  first : s.phaseReports.lookup (id.workerID, r.claims.authority.sessionID, r.eventID) = none
  accepted : leaseDecision r.claims.authority j.lease
    (some (a.lease r.claims.authority.attemptID)) now = .accepted
  deadline : nextPhaseDeadline r.claims a j.spec now = .ok deadline

/-- The store with the report on file. -/
def Store.filePhase (s : Store) (id : WorkerIdentity) (r : PhaseReport) : Store :=
  { s with phaseReports :=
    AList.insert (id.workerID, r.claims.authority.sessionID, r.eventID) r.claims s.phaseReports }

/-- **What a report does**: it is turned away or repeats an earlier one and
changes nothing, or it is accepted; then it is filed, and if the attempt is not
in the phase yet it enters it. -/
theorem reportPhase_cases
    {result : MutationResult} (h : reportPhase s seen now id r = .ok (s', result)) :
    s' = s ∧ (result.decision ≠ .accepted ∨
        s.phaseReports.lookup (id.workerID, r.claims.authority.sessionID, r.eventID)
          = some r.claims ∧ Authorized s now r.claims.authority) ∨
      ∃ a j deadline, PhaseAccepted s now id r a j deadline ∧
        result = ⟨.accepted, some r.claims.phase⟩ ∧
        (a.state = r.claims.phase ∧ s' = s.filePhase id r ∨
          a.state ≠ r.claims.phase ∧ Store.appendEvent { s.filePhase id r with
            attempts := s.attempts.modify r.claims.authority.attemptID
              (·.enterPhase r.claims deadline) } now a.job (some r.claims.authority.attemptID)
            (.phaseChanged a.state r.claims.phase deadline r.claims.containerID r.claims.exitCode)
            = .ok s') := by
  simp only [reportPhase, bind_ok] at h
  obtain ⟨_, -, _, hvalid, owned, howned, h⟩ := h
  simp only [PhaseReport.validate, bind_ok, require_ok] at hvalid
  obtain ⟨_, ⟨-, -, -, -, hmine, -⟩, hevidence⟩ := hvalid
  cases owned with
  | none =>
    obtain ⟨rfl, rfl⟩ := pure_pair_ok.mp h
    exact .inl ⟨rfl, .inl (by simp)⟩
  | some a =>
    obtain ⟨ha, hauthority⟩ := ownedAttempt_eq_some howned
    simp only [bind_ok, orThrow_ok] at h
    obtain ⟨j, hj, _, -, h⟩ := h
    split at h
    · rename_i saved hsaved
      simp only [bind_ok, require_ok, pure_pair_ok] at h
      obtain ⟨_, rfl, rfl, rfl⟩ := h
      by_cases hdecision : leaseDecision r.claims.authority j.lease
          (some (a.lease r.claims.authority.attemptID)) now = .accepted
      · exact .inl ⟨rfl, .inr ⟨hsaved, a, j, ha, hj, hdecision⟩⟩
      · exact .inl ⟨rfl, .inl hdecision⟩
    · rename_i hfirst
      split at h
      · rename_i hdecision
        obtain ⟨rfl, rfl⟩ := pure_pair_ok.mp h
        exact .inl ⟨rfl, .inl hdecision⟩
      · rename_i hdecision
        simp only [bind_ok] at h
        obtain ⟨deadline, hdeadline, h⟩ := h
        refine .inr ⟨a, j, deadline, ⟨hmine, hevidence, ha, hauthority, hj, hfirst,
          not_not.mp hdecision, hdeadline⟩, ?_⟩
        split at h
        · rename_i hstate
          obtain ⟨rfl, rfl⟩ := pure_pair_ok.mp h
          exact ⟨rfl, .inl ⟨hstate, rfl⟩⟩
        · rename_i hstate
          simp only [bind_ok, pure_pair_ok] at h
          obtain ⟨logged, hlogged, rfl, rfl⟩ := h
          exact ⟨rfl, .inr ⟨hstate, hlogged⟩⟩

/-- **A first report is accepted** where all its checks pass, and enters a phase
the attempt is not in. -/
theorem reportPhase_enters
    {a : AttemptRow} {j : JobRow} {deadline : Time}
    (hids : canonicalUUID id.workerID = true ∧ canonicalUUID id.credentialID = true)
    (hvalid : r.validate id.workerID = .ok ())
    (howned : ownedAttempt s seen id r.claims.authority = .ok (some a))
    (hj : s.jobs.lookup a.job = some j) (hspec : j.spec.isValid = true)
    (hfirst : s.phaseReports.lookup (id.workerID, r.claims.authority.sessionID, r.eventID) = none)
    (haccepted : leaseDecision r.claims.authority j.lease
      (some (a.lease r.claims.authority.attemptID)) now = .accepted)
    (hdeadline : nextPhaseDeadline r.claims a j.spec now = .ok deadline)
    (hstate : a.state ≠ r.claims.phase)
    (hlogged : Store.appendEvent { s.filePhase id r with
      attempts := s.attempts.modify r.claims.authority.attemptID (·.enterPhase r.claims deadline) }
      now a.job (some r.claims.authority.attemptID)
      (.phaseChanged a.state r.claims.phase deadline r.claims.containerID r.claims.exitCode)
      = .ok s') :
    reportPhase s seen now id r = .ok (s', ⟨.accepted, some r.claims.phase⟩) := by
  have haccept : ¬ leaseDecision r.claims.authority j.lease
      (some (a.lease r.claims.authority.attemptID)) now ≠ .accepted := not_not.mpr haccepted
  simp only [reportPhase, require_of hids, hvalid, ok_bind, howned, hj, orThrow_some,
    require_of hspec, hfirst, if_neg haccept, hdeadline, if_neg hstate]
  exact bind_ok.mpr ⟨s', hlogged, rfl⟩

/-- A report changes nothing and is turned away unless the gate is open. -/
theorem reportPhase_gated
    {result : MutationResult} (h : reportPhase s seen now id r = .ok (s', result)) :
    s' = s ∧ result.decision ≠ .accepted ∨ Authorized s now r.claims.authority := by
  obtain ⟨rfl, hdecision | ⟨-, hgate⟩⟩ | ⟨a, j, deadline, haccepted, -⟩ := reportPhase_cases h
  · exact .inl ⟨rfl, hdecision⟩
  · exact .inr hgate
  · exact .inr ⟨a, j, haccepted.attempt, haccepted.job, haccepted.accepted⟩

end Dispatch
