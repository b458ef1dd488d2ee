import Dispatch.Lib.Ownership
import Dispatch.Store.Runs

/-!
# The store as leased ownership

Jobs are tasks, attempts are grants, reservations are claims and the current
session of a worker is who its place is run by. `Store.ownership` reads the
store that way: a completion row is the evidence that a worker settled its
attempt itself, a used takeover the evidence that an operator answered for a
session. This module says what the statements shared by many transactions do
to that reading: most leave it alone (`Framed`), and a fence, with the stop of
a failed sweep that may follow it, is a `finish` and a `cancel`.

The evidence is an argument of `Store.view`, since a transaction may write it
after the rows it justifies; in the abstract run the evidence comes first.
-/

namespace Dispatch

open Txn

variable {s s' s'' : Store} {now : Time} {job : Uuid} {fj : JobRow → JobRow}
  {fa : AttemptRow → AttemptRow} {body : EventBody} {j : JobRow}

variable {attempt : Uuid} {sha : Uuid → ℕ}

/-! ## The reading -/

/-- The phase of a task that a state of a job stands for. -/
def JobState.phase : JobState → Ownership.Phase
  | queued | retryWait => .waiting
  | active => .owned
  | cancelling => .stopping
  | succeeded | failed | cancelled => .done

/-- A job as a task. -/
def JobRow.task (j : JobRow) : Ownership.Task Uuid Resources :=
  ⟨j.state.phase, j.currentAttempt, j.attemptCounter, j.resources⟩

/-- An attempt as a grant. -/
def AttemptRow.grant (a : AttemptRow) : Ownership.Grant Uuid Uuid Uuid Time :=
  ⟨a.job, a.worker, a.session, a.number, a.generation, a.state.isActive, a.leaseExpiresAt⟩

/-- A reservation as a claim, held while it is active. -/
def ReservationRow.claim (r : ReservationRow) : Ownership.Claim Uuid Resources :=
  ⟨r.worker, r.resources, decide (r.state = .active)⟩

/-- The current session of a worker. -/
def Store.seat (s : Store) (worker : Uuid) : Option Uuid :=
  (s.workers.lookup worker).bind WorkerRow.currentSession

/-- The attempt has an accepted completion. -/
def Store.settled (s : Store) (attempt : Uuid) : Prop :=
  (s.completions.lookup attempt).isSome = true

/-- An operator-approved takeover of the session has been used. -/
def Store.replaced (s : Store) (worker session : Uuid) : Prop :=
  ∃ t, s.takeovers.lookup (worker, session) = some t ∧ t.usedAt.isSome = true

/-- States of the ownership machine over the store's identifiers. -/
abbrev OwnershipState : Type := Ownership.State Uuid Uuid Uuid Uuid Resources Time

/-- The rows as an ownership state, under given evidence. -/
def Store.view (s : Store) (settled : Uuid → Prop) (replaced : Uuid → Uuid → Prop) :
    OwnershipState where
  task j := (s.jobs.lookup j).map JobRow.task
  grant a := (s.attempts.lookup a).map AttemptRow.grant
  claim a := (s.reservations.lookup a).map ReservationRow.claim
  seat := s.seat
  settled := settled
  replaced := replaced

/-- **The store as an ownership state.** -/
def Store.ownership (s : Store) : OwnershipState := s.view s.settled s.replaced

/-- What the machine does not see but its simulation needs: the current session
of a worker is its own and not fenced, a job's columns repeat its document, and
no lease lasts longer than one granted now. -/
structure Coherent (s : Store) (now : Time) : Prop where
  current : ∀ worker session, s.seat worker = some session →
    ∃ row, s.sessions.lookup session = some row ∧ row.worker = worker ∧ row.fencedAt = none
  resources : ∀ job row, s.jobs.lookup job = some row → row.resources = row.spec.spec.resources
  leases : ∀ attempt row, s.attempts.lookup attempt = some row →
    row.leaseExpiresAt ≤ now + initialLease

theorem Coherent.later {later : Time} (h : Coherent s now) (hle : now ≤ later) : Coherent s later :=
  ⟨h.current, h.resources, fun attempt row hrow =>
    (h.leases attempt row hrow).trans (Nat.add_le_add_right hle _)⟩

/-! ## Frames -/

/-- The tables that record what workers settled and what they logged. -/
def Store.evidence (s : Store) : Table Uuid CompletionRow × Table Uuid LogSegmentRow :=
  (s.completions, s.logSegments)

/-- What of them belongs to one attempt. -/
def Store.evidenceOf (s : Store) (attempt : Uuid) :
    Option CompletionRow × (Uuid → Option LogSegmentRow) :=
  (s.completions.lookup attempt, fun segment => (s.logSegments.lookup segment).filter
    (fun l => decide (l.claims.authority.attemptID = attempt)))

theorem Store.evidenceOf_eq (h : s'.evidence = s.evidence) (attempt : Uuid) :
    s'.evidenceOf attempt = s.evidenceOf attempt := by
  have hcompletions : s'.completions = s.completions := congrArg Prod.fst h
  have hsegments : s'.logSegments = s.logSegments := congrArg Prod.snd h
  rw [Store.evidenceOf, Store.evidenceOf, hcompletions, hsegments]

theorem Store.settled_eq (h : s'.evidence = s.evidence) : s'.settled = s.settled := by
  have hcompletions : s'.completions = s.completions := congrArg Prod.fst h
  funext a
  rw [Store.settled, Store.settled, hcompletions]

/-- The columns of a job that the reading and its simulation depend on. -/
def JobRow.owned (j : JobRow) : Ownership.Task Uuid Resources × Resources :=
  (j.task, j.spec.spec.resources)

/-- **A change that ownership does not notice.** -/
structure Framed (s s' : Store) : Prop where
  jobs : ∀ j, (s'.jobs.lookup j).map JobRow.owned = (s.jobs.lookup j).map JobRow.owned
  attempts : ∀ a, (s'.attempts.lookup a).map AttemptRow.grant =
    (s.attempts.lookup a).map AttemptRow.grant
  reservations : ∀ a, (s'.reservations.lookup a).map ReservationRow.claim =
    (s.reservations.lookup a).map ReservationRow.claim
  seats : ∀ w, s'.seat w = s.seat w
  sessions : ∀ id, (s'.sessions.lookup id).map (fun r => (r.worker, r.fencedAt)) =
    (s.sessions.lookup id).map (fun r => (r.worker, r.fencedAt))
  evidence : s'.evidence = s.evidence
  takeovers : ∀ k, (s'.takeovers.lookup k).bind TakeoverRow.usedAt =
    (s.takeovers.lookup k).bind TakeoverRow.usedAt

theorem Framed.refl (s : Store) : Framed s s :=
  ⟨fun _ => rfl, fun _ => rfl, fun _ => rfl, fun _ => rfl, fun _ => rfl, rfl, fun _ => rfl⟩

theorem Framed.trans (h : Framed s s') (h' : Framed s' s'') :
    Framed s s'' where
  jobs j := (h'.jobs j).trans (h.jobs j)
  attempts a := (h'.attempts a).trans (h.attempts a)
  reservations a := (h'.reservations a).trans (h.reservations a)
  seats w := (h'.seats w).trans (h.seats w)
  sessions id := (h'.sessions id).trans (h.sessions id)
  evidence := h'.evidence.trans h.evidence
  takeovers k := (h'.takeovers k).trans (h.takeovers k)

/-- Composition in the order a proof reads a transaction, the last change
first. -/
theorem Framed.after (h' : Framed s' s'') (h : Framed s s') : Framed s s''
    :=
  h.trans h'

/-- The tables ownership is read from. -/
def Store.ledger (s : Store) : Table Uuid JobRow × Table Uuid AttemptRow ×
    Table Uuid ReservationRow × Table Uuid WorkerRow × Table Uuid SessionRow ×
    Table (Uuid × Uuid) TakeoverRow :=
  (s.jobs, s.attempts, s.reservations, s.workers, s.sessions, s.takeovers)

/-- A change of other tables. -/
theorem Framed.of_tables (hledger : s'.ledger = s.ledger) (hevidence : s'.evidence = s.evidence) :
    Framed s s' := by
  simp only [Store.ledger, Prod.mk.injEq] at hledger
  obtain ⟨hjobs, hattempts, hreservations, hworkers, hsessions, htakeovers⟩ := hledger
  refine ⟨?_, ?_, ?_, ?_, ?_, hevidence, ?_⟩ <;> intro x
  · rw [hjobs]
  · rw [hattempts]
  · rw [hreservations]
  · rw [Store.seat, Store.seat, hworkers]
  · rw [hsessions]
  · rw [htakeovers]

/-- The tasks are part of what a frame keeps. -/
theorem Framed.task (h : Framed s s') (j : Uuid) :
    (s'.jobs.lookup j).map JobRow.task = (s.jobs.lookup j).map JobRow.task := by
  have := congrArg (Option.map Prod.fst) (h.jobs j)
  rw [Option.map_map, Option.map_map] at this
  exact this

theorem Framed.view_eq (h : Framed s s') (settled : Uuid → Prop)
    (replaced : Uuid → Uuid → Prop) : s'.view settled replaced = s.view settled replaced := by
  refine Ownership.State.ext ?_ ?_ ?_ ?_ rfl rfl <;> funext x
  · exact h.task x
  · exact h.attempts x
  · exact h.reservations x
  · exact h.seats x

theorem Store.replaced_iff (s : Store) (worker session : Uuid) :
    s.replaced worker session ↔
      ((s.takeovers.lookup (worker, session)).bind TakeoverRow.usedAt).isSome = true := by
  unfold Store.replaced
  cases s.takeovers.lookup (worker, session) <;> simp

theorem Framed.replaced_eq (h : Framed s s') : s'.replaced = s.replaced := by
  funext w id
  rw [eq_iff_iff, Store.replaced_iff, Store.replaced_iff, h.takeovers]

/-- **Ownership does not notice a framed change.** -/
theorem Framed.ownership_eq (h : Framed s s') : s'.ownership = s.ownership := by
  rw [Store.ownership, Store.settled_eq h.evidence, h.replaced_eq, h.view_eq]
  rfl

theorem Framed.coherent (h : Framed s s') (hs : Coherent s now) :
    Coherent s' now where
  current worker session hseat := by
    rw [h.seats] at hseat
    obtain ⟨row, hrow, hworker, hfenced⟩ := hs.current worker session hseat
    have hmap := h.sessions session
    rw [hrow, Option.map_some, Option.map_eq_some_iff] at hmap
    obtain ⟨row', hrow', heq⟩ := hmap
    obtain ⟨hworker', hfenced'⟩ := Prod.mk.inj heq
    exact ⟨row', hrow', hworker'.trans hworker, hfenced'.trans hfenced⟩
  resources job row hrow := by
    have hmap := h.jobs job
    rw [hrow, Option.map_some, eq_comm, Option.map_eq_some_iff] at hmap
    obtain ⟨row', hrow', heq⟩ := hmap
    obtain ⟨htask, hres⟩ := Prod.mk.inj heq
    have hneed : row'.resources = row.resources := congrArg Ownership.Task.need htask
    rw [← hneed, ← hres]
    exact hs.resources job row' hrow'
  leases attempt row hrow := by
    have hmap := h.attempts attempt
    rw [hrow, Option.map_some, eq_comm, Option.map_eq_some_iff] at hmap
    obtain ⟨row', hrow', heq⟩ := hmap
    have hlease : row'.leaseExpiresAt = row.leaseExpiresAt := congrArg Ownership.Grant.lease heq
    rw [← hlease]
    exact hs.leases attempt row' hrow'

/-- An event is not noticed. -/
theorem Framed.appendEvent {attempt : Option Uuid}
    (h : s.appendEvent now job attempt body = .ok s') : Framed s s' := by
  obtain ⟨j, events, -, -, rfl⟩ := Store.appendEvent_eq_ok h
  refine ⟨fun j' => ?_, fun _ => rfl, fun _ => rfl, fun _ => rfl, fun _ => rfl, rfl,
    fun _ => rfl⟩
  rw [Table.lookup_modify]
  split_ifs
  · rw [Option.map_map]
    rfl
  · rfl

/-! ## The stop of a failed sweep -/

/-- What a transaction leaves alone while it moves jobs along: who runs what,
the evidence, the documents and the leases. -/
structure KeepsHolders (s s' : Store) : Prop where
  workers : s'.workers = s.workers
  sessions : s'.sessions = s.sessions
  evidence : s'.evidence = s.evidence
  takeovers : s'.takeovers = s.takeovers
  documents : ∀ j, (s'.jobs.lookup j).map (fun r => (r.resources, r.spec)) =
    (s.jobs.lookup j).map (fun r => (r.resources, r.spec))
  leases : ∀ a, (s'.attempts.lookup a).map AttemptRow.leaseExpiresAt =
    (s.attempts.lookup a).map AttemptRow.leaseExpiresAt

theorem KeepsHolders.refl (s : Store) : KeepsHolders s s :=
  ⟨rfl, rfl, rfl, rfl, fun _ => rfl, fun _ => rfl⟩

theorem KeepsHolders.trans (h : KeepsHolders s s') (h' : KeepsHolders s' s'') :
    KeepsHolders s s'' where
  workers := h'.workers.trans h.workers
  sessions := h'.sessions.trans h.sessions
  evidence := h'.evidence.trans h.evidence
  takeovers := h'.takeovers.trans h.takeovers
  documents j := (h'.documents j).trans (h.documents j)
  leases a := (h'.leases a).trans (h.leases a)

theorem KeepsHolders.coherent (h : KeepsHolders s s') (hs : Coherent s now) :
    Coherent s' now where
  current worker session hseat := by
    rw [Store.seat, h.workers] at hseat
    rw [h.sessions]
    exact hs.current worker session hseat
  resources job row hrow := by
    have hmap := h.documents job
    rw [hrow, Option.map_some, eq_comm, Option.map_eq_some_iff] at hmap
    obtain ⟨row', hrow', heq⟩ := hmap
    obtain ⟨hres, hspec⟩ := Prod.mk.inj heq
    rw [← hres, ← hspec]
    exact hs.resources job row' hrow'
  leases attempt row hrow := by
    have hmap := h.leases attempt
    rw [hrow, Option.map_some, eq_comm, Option.map_eq_some_iff] at hmap
    obtain ⟨row', hrow', hlease⟩ := hmap
    rw [← hlease]
    exact hs.leases attempt row' hrow'

/-- The evidence is kept with the tables that hold it. -/
theorem KeepsHolders.ownership_eq (h : KeepsHolders s s') :
    s'.ownership = s'.view s.settled s.replaced := by
  have hreplaced : s'.replaced = s.replaced := by
    funext w id
    rw [Store.replaced, Store.replaced, h.takeovers]
  rw [Store.ownership, Store.settled_eq h.evidence, hreplaced]

/-- An event keeps the holders. -/
theorem KeepsHolders.appendEvent {attempt : Option Uuid}
    (h : s.appendEvent now job attempt body = .ok s') : KeepsHolders s s' := by
  obtain ⟨j, events, -, -, rfl⟩ := Store.appendEvent_eq_ok h
  refine ⟨rfl, rfl, rfl, rfl, fun j' => ?_, fun _ => rfl⟩
  rw [Table.lookup_modify]
  split_ifs
  · rw [Option.map_map]
    rfl
  · rfl

/-- A sibling's stop is the stop of its task. -/
theorem JobRow.stop_task {failed sweep id : Uuid} {cancelRunning : Bool}
    (h : failFastCandidate failed sweep cancelRunning id j = true) : j.stop.task = j.task.stop := by
  simp only [failFastCandidate, Bool.and_eq_true, Bool.or_eq_true, decide_eq_true_eq] at h
  obtain ⟨-, hstate⟩ := h
  cases hj : j.state <;>
    simp_all [JobRow.stop, JobRow.task, Ownership.Task.stop, JobState.phase, JobState.isQueued]

/-- What the stop of a sweep leaves alone. -/
theorem applySweepFailFast_keeps {failed : Uuid} (h : applySweepFailFast s now failed = .ok s') :
    KeepsHolders s s' ∧ s'.attempts = s.attempts ∧ s'.reservations = s.reservations := by
  unfold applySweepFailFast at h
  split at h
  · obtain rfl : s = s' := by simpa using h
    exact ⟨.refl s, rfl, rfl⟩
  · simp only [bind_ok, pure_ok] at h
    obtain ⟨events, -, rfl⟩ := h
    refine ⟨⟨rfl, rfl, rfl, rfl, fun j => ?_, fun _ => rfl⟩, rfl, rfl⟩
    rw [Table.lookup_update, Option.map_map]
    refine congrArg (Option.map · _) (funext fun r => ?_)
    simp only [Function.comp]
    split_ifs <;> rfl

/-- **The stop of a sweep is a request to stop some tasks.** -/
theorem applySweepFailFast_steps {failed : Uuid} (h : applySweepFailFast s now failed = .ok s')
    (settled : Uuid → Prop) (replaced : Uuid → Uuid → Prop) :
    Ownership.Steps now (s.view settled replaced) (s'.view settled replaced) := by
  unfold applySweepFailFast at h
  split at h
  · obtain rfl : s = s' := by simpa using h
    exact .refl
  · rename_i sweep cancelRunning _
    simp only [bind_ok, pure_ok] at h
    obtain ⟨events, -, rfl⟩ := h
    -- The machine asks by identifier, the statement by row.
    let p : Uuid → Bool := fun id => ((s.jobs.lookup id).map
      (failFastCandidate failed sweep cancelRunning id)).getD false
    refine .single ?_
    convert Ownership.Step.cancel (s.view settled replaced) p using 1
    refine Ownership.State.ext (funext fun j => ?_) rfl rfl rfl rfl rfl
    simp only [Store.view, Table.lookup_update]
    cases hj : s.jobs.lookup j with
    | none => rfl
    | some row =>
      simp only [Option.map_some, p, hj, Option.getD_some]
      split_ifs with hc
      · rw [JobRow.stop_task hc]
      · rfl

/-- The last statement of a fence and of a completion: the sweep stops, or
nothing more happens. -/
theorem failFast_cases {next : JobState}
    (h : (if next = .failed then applySweepFailFast s now job else pure s) = .ok s') :
    applySweepFailFast s now job = .ok s' ∨ s' = s := by
  split_ifs at h
  · exact .inl h
  · exact .inr (pure_ok.mp h).symm

/-! ## The fence of an attempt -/

/-- The reservation update of a fence or a completion. -/
theorem settleReservation_eq_ok {state : ReservationState} {e : StoreError}
    (h : settleReservation s attempt state e = .ok s') :
    ∃ r, s.reservations.lookup attempt = some r ∧ r.state = .active ∧
      s' = { s with reservations := s.reservations.modify attempt ({ · with state := state }) }
    := by
  simp only [settleReservation, bind_ok, orThrow_ok, require_ok, pure_ok] at h
  obtain ⟨r, hr, -, hactive, rfl⟩ := h
  exact ⟨r, hr, hactive, rfl⟩

/-- The rows the end of an attempt writes. -/
def Store.endAttempt (s : Store) (job attempt : Uuid) (fj : JobRow → JobRow)
    (fa : AttemptRow → AttemptRow) (fr : ReservationRow → ReservationRow) : Store :=
  { s with
    jobs := s.jobs.modify job fj
    attempts := s.attempts.modify attempt fa
    reservations := s.reservations.modify attempt fr }

/-- The end of an attempt keeps the holders if it keeps the job's document and
the attempt's lease. -/
theorem KeepsHolders.endAttempt (s : Store) (job attempt : Uuid)
    (fr : ReservationRow → ReservationRow)
    (hfj : ∀ j, ((fj j).resources, (fj j).spec) = (j.resources, j.spec))
    (hfa : ∀ a, (fa a).leaseExpiresAt = a.leaseExpiresAt) :
    KeepsHolders s (s.endAttempt job attempt fj fa fr) := by
  refine ⟨rfl, rfl, rfl, rfl, fun j' => ?_, fun a' => ?_⟩ <;>
    simp only [Store.endAttempt, Table.lookup_modify] <;> split_ifs
  · rw [Option.map_map]
    exact congrArg (Option.map · _) (funext hfj)
  · rfl
  · rw [Option.map_map]
    exact congrArg (Option.map · _) (funext hfa)
  · rfl

/-- **The rows of an attempt's end are the close of its grant**: the attempt
no longer active, its reservation no longer held, its job without a current
attempt. -/
theorem view_endAttempt {a : AttemptRow} {r : ReservationRow}
    (hj : s.jobs.lookup job = some j) (ha : s.attempts.lookup attempt = some a)
    (hr : s.reservations.lookup attempt = some r) {fr : ReservationRow → ReservationRow}
    {next : Ownership.Phase} (hfj : (fj j).task = { j.task with phase := next, current := none })
    (hfa : (fa a).grant = { a.grant with live := false })
    (hfr : (fr r).claim = { r.claim with held := false }) (settled : Uuid → Prop)
    (replaced : Uuid → Uuid → Prop) :
    (s.endAttempt job attempt fj fa fr).view settled replaced =
      (s.view settled replaced).close job attempt j.task a.grant r.claim next := by
  refine Ownership.State.ext (funext fun x => ?_) (funext fun x => ?_) (funext fun x => ?_)
    rfl rfl rfl
  · rw [Ownership.State.close_task]
    simp only [Store.view, Store.endAttempt, Table.lookup_modify]
    split_ifs with hx
    · rw [hx, hj, Option.map_some, Option.map_some, hfj]
    · rfl
  · rw [Ownership.State.close_grant]
    simp only [Store.view, Store.endAttempt, Table.lookup_modify]
    split_ifs with hx
    · rw [hx, ha, Option.map_some, Option.map_some, hfa]
    · rfl
  · rw [Ownership.State.close_claim]
    simp only [Store.view, Store.endAttempt, Table.lookup_modify]
    split_ifs with hx
    · rw [hx, hr, Option.map_some, Option.map_some, hfr]
    · rfl

/-- **The end of an attempt is a finish** of its grant, if a job that is to
wait again has lost nothing by it. -/
theorem endAttempt_step {a : AttemptRow} {r : ReservationRow}
    (hj : s.jobs.lookup job = some j) (hcurrent : j.currentAttempt = some attempt)
    (ha : s.attempts.lookup attempt = some a) (hr : s.reservations.lookup attempt = some r)
    {fr : ReservationRow → ReservationRow} {next : Ownership.Phase}
    (hfj : (fj j).task = { j.task with phase := next, current := none })
    (hfa : (fa a).grant = { a.grant with live := false })
    (hfr : (fr r).claim = { r.claim with held := false }) {settled : Uuid → Prop}
    {replaced : Uuid → Uuid → Prop} (hnext : next = .done ∨
      next = .waiting ∧ Ownership.Lapsed (s.view settled replaced) now attempt a.grant) :
    Ownership.Step now (s.view settled replaced)
      ((s.endAttempt job attempt fj fa fr).view settled replaced) := by
  rw [view_endAttempt hj ha hr hfj hfa hfr]
  exact .finish _ job attempt j.task a.grant r.claim next
    (congrArg (Option.map JobRow.task) hj) hcurrent (congrArg (Option.map AttemptRow.grant) ha)
    (congrArg (Option.map ReservationRow.claim) hr) hnext

/-- **A fence ends the attempt, and lets the job wait again only for a lost
worker.** A timeout fails the job and a cancellation cancels it. -/
theorem fenceOutcome_cases (sha : Uuid → ℕ) (j : JobRow) (a : AttemptRow) (attempt : Uuid)
    (now : Time) :
    (fenceOutcome sha j a attempt now).attemptState.isActive = false ∧
      ((fenceOutcome sha j a attempt now).jobState.phase = .done ∨
        (fenceOutcome sha j a attempt now).jobState.phase = .waiting ∧
          expiredPhaseReason a.state a.leaseExpiresAt a.phaseDeadline now = none) := by
  unfold fenceOutcome
  by_cases hcancel : j.cancelRequested = true
  · rw [if_pos hcancel]
    exact ⟨rfl, .inl rfl⟩
  · rw [if_neg hcancel]
    split
    · exact ⟨rfl, .inl rfl⟩
    · rename_i hphase
      split_ifs
      · exact ⟨rfl, .inr ⟨rfl, hphase⟩⟩
      · exact ⟨rfl, .inl rfl⟩

/-- The attempt row after a fence. -/
def AttemptRow.fence (out : FenceOutcome) (now : Time) (a : AttemptRow) : AttemptRow :=
  { a with
    state := out.attemptState
    reason := some out.reason
    cleanupPending := true
    finishedAt := some now }

/-- The job row after a fence, its event not yet counted. -/
def JobRow.fence (out : FenceOutcome) (j : JobRow) : JobRow :=
  { j with
    state := out.jobState
    currentAttempt := none
    nextEligibleAt := timestamptz out.nextEligible }

/-- The rows a fence closes. -/
def Store.fence (s : Store) (job attempt : Uuid) (out : FenceOutcome) (now : Time) : Store :=
  s.endAttempt job attempt (·.fence out) (·.fence out now) ({ · with state := .quarantined })

/-- **What a fence does**: the checks that passed, the rows it closes, and the
event and the sweep stop that follow. -/
theorem fenceLostAttempt_eq_ok
    (h : fenceLostAttempt sha s now job attempt = .ok s') :
    ∃ j a r logged, s.jobs.lookup job = some j ∧ j.currentAttempt = some attempt ∧
      s.attempts.lookup attempt = some a ∧ s.reservations.lookup attempt = some r ∧
      r.state = .active ∧
      (s.fence job attempt (fenceOutcome sha j a attempt now) now).appendEvent now job
        (some attempt) ((fenceOutcome sha j a attempt now).event
          (fenceOutcome sha j a attempt now).reason
          (fenceOutcome sha j a attempt now).jobState
          (fenceOutcome sha j a attempt now).nextEligible) = .ok logged ∧
      (if (fenceOutcome sha j a attempt now).jobState = .failed then
        applySweepFailFast logged now job else pure logged) = .ok s' := by
  simp only [fenceLostAttempt, bind_ok, orThrow_ok, require_ok] at h
  obtain ⟨j, hj, -, hcurrent, a, ha, -, -, quarantined, hq, logged, hlogged, hlast⟩ := h
  obtain ⟨r, hr, hheld, rfl⟩ := settleReservation_eq_ok hq
  exact ⟨j, a, r, logged, hj, hcurrent, ha, hr, hheld, hlogged, hlast⟩

/-- An event touches jobs and events only. -/
theorem appendEvent_attempts {attempt : Option Uuid}
    (h : s.appendEvent now job attempt body = .ok s') :
    s'.attempts = s.attempts ∧ s'.reservations = s.reservations := by
  obtain ⟨_, _, -, -, rfl⟩ := Store.appendEvent_eq_ok h
  exact ⟨rfl, rfl⟩

/-- A fence keeps workers, sessions, evidence and documents, and touches one
attempt. -/
theorem fenceLostAttempt_keeps
    (h : fenceLostAttempt sha s now job attempt = .ok s') :
    KeepsHolders s s' ∧ ∃ out : FenceOutcome, out.attemptState.isActive = false ∧
      s'.attempts = s.attempts.modify attempt (·.fence out now) := by
  obtain ⟨j, a, r, logged, -, -, -, -, -, hlogged, hlast⟩ := fenceLostAttempt_eq_ok h
  have hattempts := (appendEvent_attempts hlogged).1
  have hout := (fenceOutcome_cases sha j a attempt now).1
  have hclosed : KeepsHolders s
      (s.fence job attempt (fenceOutcome sha j a attempt now) now) :=
    KeepsHolders.endAttempt s job attempt _ (fun _ => rfl) (fun _ => rfl)
  have hkeeps : KeepsHolders s logged := hclosed.trans (.appendEvent hlogged)
  obtain hsweep | rfl := failFast_cases hlast
  · obtain ⟨hkeeps', hattempts', -⟩ := applySweepFailFast_keeps hsweep
    exact ⟨hkeeps.trans hkeeps', _, hout, hattempts'.trans hattempts⟩
  · exact ⟨hkeeps, _, hout, hattempts⟩

/-- **A fence is a finish, and a stop of the sweep.** The caller answers for
the lapse of a grant whose job is to wait again. -/
theorem fenceLostAttempt_steps
    (h : fenceLostAttempt sha s now job attempt = .ok s') (settled : Uuid → Prop)
    (replaced : Uuid → Uuid → Prop) (hlapsed : ∀ a, s.attempts.lookup attempt = some a →
      expiredPhaseReason a.state a.leaseExpiresAt a.phaseDeadline now = none →
      Ownership.Lapsed (s.view settled replaced) now attempt a.grant) :
    Ownership.Steps now (s.view settled replaced) (s'.view settled replaced) := by
  obtain ⟨j, a, r, logged, hj, hcurrent, ha, hr, -, hlogged, hlast⟩ :=
    fenceLostAttempt_eq_ok h
  obtain ⟨hended, hnext⟩ := fenceOutcome_cases sha j a attempt now
  have hfinish : Ownership.Step now (s.view settled replaced) (logged.view settled replaced) := by
    rw [(Framed.appendEvent hlogged).view_eq]
    refine endAttempt_step hj hcurrent ha hr rfl ?_ rfl
      (hnext.imp_right (fun hw => ⟨hw.1, hlapsed a ha hw.2⟩))
    simp only [AttemptRow.grant, AttemptRow.fence, hended]
  obtain hsweep | rfl := failFast_cases hlast
  · exact (Relation.ReflTransGen.single hfinish).trans
      (applySweepFailFast_steps hsweep settled replaced)
  · exact .single hfinish

end Dispatch
