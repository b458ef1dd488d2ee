import Dispatch.Store.Types

/-!
# Lease renewal

`leaseDecision` is the gate every mutation of an attempt passes: the
authority tuple must be the stored one, the attempt active, current and
unexpired, and its job neither cancelled nor past the phase deadline.
`renewLeases` applies it to a batch and, unless the batch is a replay, grants
each accepted member a fresh lease; a replay keeps the stricter of the
original and the current bounds.

A transaction is a function of the store it commits to, the database clock
sampled after its last lock, and its request. Rows it locks are read from that
store. The two reads of the worker's current session take no lock and may see
an older commit, so they are given the store `seen` they happened to see.
-/

namespace Dispatch

open Txn

variable {now : Time} {s s' seen : Store} {job : LeaseJob} {attempt : Option LeaseAttempt}
  {id : WorkerIdentity} {a : AttemptAuthority}

/-- The lease an acquisition or a renewal grants. -/
def initialLease : Time := 30 * second

/-- The largest number of attempts renewed together. -/
def maxLeaseRenewalBatch : ℕ := 64

/-- The authority tuple of a stored attempt. -/
def AttemptRow.authority (id : Uuid) (a : AttemptRow) : AttemptAuthority where
  jobID := a.job
  attemptID := id
  generation := a.generation
  workerID := a.worker
  sessionID := a.session

/-- `authorizeWorkerTx`: the credential is the worker's and not revoked. -/
def authorizeWorkerTx (s : Store) (id : WorkerIdentity) : Except StoreError Unit :=
  require (∃ c ∈ s.credentials.lookup id.credentialID,
    c.worker = id.workerID ∧ c.revoked = false) .unauthorized

/-- The session is the worker's current one and not fenced. -/
def isCurrentSession (s : Store) (worker session : Uuid) : Bool :=
  match s.workers.lookup worker, s.sessions.lookup session with
  | some w, some ss =>
    decide (w.currentSession = some session) && decide (ss.worker = worker) &&
      ss.fencedAt.isNone
  | _, _ => false

/-- The session must be current. -/
def requireCurrentWorkerSession (s : Store) (worker session : Uuid) : Except StoreError Unit :=
  require (isCurrentSession s worker session) .fenced

/-- What a decision about a lease reads of a job. -/
structure LeaseJob where
  current : Option Uuid
  cancelled : Bool
  deriving DecidableEq, Repr

/-- What a decision about a lease reads of an attempt. -/
structure LeaseAttempt where
  authority : AttemptAuthority
  state : AttemptState
  expires : Time
  phase : Time
  deriving DecidableEq, Repr

/-- The job of a lease. -/
def JobRow.lease (j : JobRow) : LeaseJob := ⟨j.currentAttempt, j.cancelRequested⟩

/-- The attempt of a lease. -/
def AttemptRow.lease (id : Uuid) (a : AttemptRow) : LeaseAttempt :=
  ⟨a.authority id, a.state, a.leaseExpiresAt, a.phaseDeadline⟩

/-- The job half of `lockLeaseBatch`; a job that does not exist reads as one
without a current attempt. -/
def lockedJob (s : Store) (job : Uuid) : LeaseJob :=
  match s.jobs.lookup job with
  | some j => j.lease
  | none => ⟨none, false⟩

/-- The attempt half: an attempt is found only under one of the jobs of the
batch. -/
def lockedAttempt (s : Store) (batch : List AttemptAuthority) (attempt : Uuid) :
    Option LeaseAttempt :=
  match s.attempts.lookup attempt with
  | some a => if a.job ∈ batch.map AttemptAuthority.jobID then some (a.lease attempt) else none
  | none => none

/-- **The gate.** -/
def leaseDecision (authority : AttemptAuthority) (job : LeaseJob) (attempt : Option LeaseAttempt)
    (now : Time) : Decision :=
  match attempt with
  | none => .fenced
  | some a =>
    if authority ≠ a.authority then .fenced
    else if !a.state.isActive then .alreadyTerminal
    else if job.current ≠ some authority.attemptID ∨ ¬ now < a.expires then .fenced
    else if job.cancelled ∨ ¬ now < a.phase then .stopRequested
    else .accepted

/-- **What acceptance means.** -/
theorem leaseDecision_eq_accepted {authority : AttemptAuthority} :
    leaseDecision authority job attempt now = .accepted ↔
      ∃ a, attempt = some a ∧ authority = a.authority ∧ a.state.isActive = true ∧
        job.current = some authority.attemptID ∧ now < a.expires ∧
        job.cancelled = false ∧ now < a.phase := by
  cases attempt with
  | none => simp [leaseDecision]
  | some a =>
    simp only [leaseDecision, Option.some.injEq, exists_eq_left']
    grind

/-- **The gate is open**: the attempt of the authority is stored and accepted
at the time. -/
def Authorized (s : Store) (now : Time) (authority : AttemptAuthority) : Prop :=
  ∃ a j, s.attempts.lookup authority.attemptID = some a ∧ s.jobs.lookup a.job = some j ∧
    leaseDecision authority j.lease (some (a.lease authority.attemptID)) now = .accepted

/-- An accepted member of a batch is a row of the store. -/
theorem lockedAttempt_eq_some {batch : List AttemptAuthority} {attempt : Uuid} {l : LeaseAttempt}
    (h : lockedAttempt s batch attempt = some l) :
    ∃ a, s.attempts.lookup attempt = some a ∧ l = a.lease attempt := by
  unfold lockedAttempt at h
  split at h
  · rename_i a ha
    split at h
    · exact ⟨a, ha, (Option.some.inj h).symm⟩
    · exact absurd h (by simp)
  · exact absurd h (by simp)

/-! ## What the single-attempt transactions share -/

/-- The prologue of every transaction that carries one authority tuple: the
credential, the session (read without a lock), and the locked attempt. The
answer for a tuple that is not the stored one is `FENCED`, given here by
`none`. -/
def ownedAttempt (s seen : Store) (id : WorkerIdentity) (authority : AttemptAuthority) :
    Except StoreError (Option AttemptRow) := do
  authorizeWorkerTx s id
  requireCurrentWorkerSession seen id.workerID authority.sessionID
  match s.attempts.lookup authority.attemptID with
  | some a =>
    if a.authority authority.attemptID = authority then pure (some a) else pure none
  | none => pure none

/-- An attempt the prologue returns is stored under the authority's own
tuple. -/
theorem ownedAttempt_eq_some {authority : AttemptAuthority} {a : AttemptRow}
    (h : ownedAttempt s seen id authority = .ok (some a)) :
    s.attempts.lookup authority.attemptID = some a ∧
      a.authority authority.attemptID = authority := by
  simp only [ownedAttempt, bind_ok] at h
  obtain ⟨_, _, _, _, h⟩ := h
  split at h
  · rename_i a' ha'
    split at h
    · rename_i heq
      obtain rfl : a' = a := by simpa using h
      exact ⟨ha', heq⟩
    · exact absurd h (by simp)
  · exact absurd h (by simp)

/-- Count one more event of a job and insert it under that number. -/
def Store.appendEvent (s : Store) (now : Time) (job : Uuid) (attempt : Option Uuid)
    (body : EventBody) : Except StoreError Store := do
  let j ← orThrow (s.jobs.lookup job) .database
  let events ← orThrow (s.events.insertNew (job, j.eventSequence + 1) ⟨attempt, body, now⟩)
    .database
  pure { s with
    jobs := s.jobs.modify job (fun j => { j with eventSequence := j.eventSequence + 1 })
    events := events }

/-- **What an event changes**: the counter of its job and the events. -/
theorem Store.appendEvent_eq_ok {job : Uuid} {attempt : Option Uuid} {body : EventBody}
    (h : s.appendEvent now job attempt body = .ok s') :
    ∃ j events, s.jobs.lookup job = some j ∧
      s.events.insertNew (job, j.eventSequence + 1) ⟨attempt, body, now⟩ = some events ∧
      s' = { s with
        jobs := s.jobs.modify job (fun j => { j with eventSequence := j.eventSequence + 1 })
        events := events } := by
  simp only [appendEvent, bind_ok, orThrow_ok, pure_ok] at h
  obtain ⟨j, hj, events, he, rfl⟩ := h
  exact ⟨j, events, hj, he, rfl⟩

theorem Store.appendEvent_total {job : Uuid} {attempt : Option Uuid} {body : EventBody} {j : JobRow}
    (hj : s.jobs.lookup job = some j) (hfree : s.events.lookup (job, j.eventSequence + 1) = none) :
    ∃ t, s.appendEvent now job attempt body = .ok t := by
  simp only [Store.appendEvent, hj, orThrow_some, ok_bind, Table.insertNew_of_free _ hfree]
  exact ⟨_, rfl⟩

/-- What a phase report, an upload or a log registration is answered. -/
structure MutationResult where
  decision : Decision
  state : Option AttemptState
  deriving DecidableEq, Repr

/-! ## Renewal -/

/-- A batch of attempts whose leases a session renews. -/
structure LeaseRenewal where
  sessionID : Uuid
  requestID : Uuid
  attempts : List AttemptAuthority
  deriving DecidableEq, Repr

/-- The members are well formed, of this worker and session, and distinct. -/
def validMembers (worker session : Uuid) (seen : List Uuid) : List AttemptAuthority → Bool
  | [] => true
  | a :: rest =>
    canonicalUUID a.jobID && canonicalUUID a.attemptID && decide (a.workerID = worker) &&
      decide (a.sessionID = session) && decide (1 ≤ a.generation) &&
      decide (a.attemptID ∉ seen) && validMembers worker session (a.attemptID :: seen) rest

theorem validMembers_worker {worker session : Uuid} {seen : List Uuid} {l : List AttemptAuthority}
    (h : validMembers worker session seen l = true) (ha : a ∈ l) : a.workerID = worker := by
  induction l generalizing seen with
  | nil => exact absurd ha List.not_mem_nil
  | cons b l ih =>
    simp only [validMembers, Bool.and_eq_true, decide_eq_true_eq] at h
    obtain rfl | ha := List.mem_cons.mp ha
    · exact h.1.1.1.1.2
    · exact ih h.2 ha

/-- The identity of a batch: its members as a set. -/
def LeaseRenewal.hash (r : LeaseRenewal) (worker : Uuid) :
    Except StoreError (List AttemptAuthority) := do
  require (canonicalUUID r.sessionID ∧ canonicalUUID r.requestID ∧ 1 ≤ r.attempts.length ∧
    r.attempts.length ≤ maxLeaseRenewalBatch) .invalid
  require (validMembers worker r.sessionID [] r.attempts) .invalid
  pure (r.attempts.insertionSort (fun a b => a.attemptID ≤ b.attemptID))

/-- A saved grant is internally consistent. -/
def validGrant (g : LeaseGrant) : Bool :=
  decide (g.serverTime ≠ 0) &&
    if g.decision = .accepted then
      decide (g.serverTime < g.leaseExpiresAt) &&
        decide (g.leaseExpiresAt - g.serverTime ≤ initialLease) &&
        decide (g.serverTime < g.phaseDeadline)
    else decide (g.leaseExpiresAt = 0) && decide (g.phaseDeadline = 0)

/-- The grants saved for a batch, checked against its members. -/
def decodeLeaseReplay (grants : List LeaseGrant) (authorities : List AttemptAuthority) :
    Except StoreError (List LeaseGrant) := do
  require (grants.length = authorities.length ∧
    (grants.map (fun g => g.authority.attemptID)).Nodup ∧ ∀ g ∈ grants, validGrant g) .invalid
  require (∀ a ∈ authorities, ∃ g ∈ grants, g.authority = a) .invalid
  pure grants

/-- A member that is not accepted carries no bounds. -/
def LeaseGrant.normalize (g : LeaseGrant) : LeaseGrant :=
  if g.decision = .accepted then g else { g with leaseExpiresAt := 0, phaseDeadline := 0 }

/-- The grant of a member of a first-time batch. -/
def freshGrant (now : Time) (job : LeaseJob) (attempt : Option LeaseAttempt)
    (a : AttemptAuthority) : LeaseGrant :=
  LeaseGrant.normalize
    { authority := a
      decision := leaseDecision a job attempt now
      leaseExpiresAt := now + initialLease
      phaseDeadline := (attempt.map LeaseAttempt.phase).getD 0
      serverTime := now }

/-- The grant of a member of a replayed batch: never more than the original
grant, never more than what the attempt still has. -/
def replayGrant (now : Time) (saved : List LeaseGrant) (job : LeaseJob)
    (attempt : Option LeaseAttempt) (a : AttemptAuthority) : LeaseGrant :=
  let old := saved.find? (fun g => g.authority.attemptID = a.attemptID)
  let current := leaseDecision a job attempt now
  let decision := match old with
    | some g => if g.decision = .accepted then current else g.decision
    | none => current
  let lease := min ((old.map LeaseGrant.leaseExpiresAt).getD 0)
    ((attempt.map LeaseAttempt.expires).getD 0)
  let phase := min ((old.map LeaseGrant.phaseDeadline).getD 0)
    ((attempt.map LeaseAttempt.phase).getD 0)
  LeaseGrant.normalize
    { authority := a
      decision :=
        if decision = .accepted then
          if ¬ now < lease then .fenced
          else if ¬ now < phase then .stopRequested
          else .accepted
        else decision
      leaseExpiresAt := lease
      phaseDeadline := phase
      serverTime := now }

/-- `UPDATE attempts SET lease_expires_at` for an accepted grant. -/
def Store.applyGrant (s : Store) (g : LeaseGrant) : Store :=
  if g.decision = .accepted then
    { s with
      attempts := s.attempts.modify g.authority.attemptID
        (fun a => { a with leaseExpiresAt := g.leaseExpiresAt }) }
  else s

/-- **Renewal of a batch of leases.** -/
def renewLeases (s seen : Store) (now : Time) (id : WorkerIdentity) (r : LeaseRenewal) :
    Except StoreError (Store × List LeaseGrant) := do
  require (canonicalUUID id.workerID ∧ canonicalUUID id.credentialID) .unauthorized
  let hash ← r.hash id.workerID
  authorizeWorkerTx s id
  requireCurrentWorkerSession seen id.workerID r.sessionID
  let key := (id.workerID, r.sessionID, r.requestID)
  match s.leaseRequests.lookup key with
  | some row =>
    require (row.requestHash = hash) .conflict
    let saved ← decodeLeaseReplay row.results r.attempts
    pure (s, r.attempts.map (fun a =>
      replayGrant now saved (lockedJob s a.jobID) (lockedAttempt s r.attempts a.attemptID) a))
  | none =>
    let grants := r.attempts.map (fun a =>
      freshGrant now (lockedJob s a.jobID) (lockedAttempt s r.attempts a.attemptID) a)
    let renewed := grants.foldl Store.applyGrant s
    pure ({ renewed with leaseRequests := AList.insert key ⟨hash, grants⟩ s.leaseRequests }, grants)

theorem freshGrant_accepted (h : (freshGrant now job attempt a).decision = .accepted) :
    leaseDecision a job attempt now = .accepted ∧
      (freshGrant now job attempt a).leaseExpiresAt = now + initialLease := by
  unfold freshGrant LeaseGrant.normalize at h ⊢
  split_ifs at h ⊢ with haccepted
  · exact ⟨haccepted, rfl⟩
  · exact absurd h haccepted

@[simp] theorem freshGrant_authority (now : Time) (job : LeaseJob) (attempt : Option LeaseAttempt)
    (a : AttemptAuthority) : (freshGrant now job attempt a).authority = a := by
  unfold freshGrant LeaseGrant.normalize
  split_ifs <;> rfl

/-- A replayed grant is accepted only if the attempt would be accepted now, and
for no longer than the attempt still has. -/
theorem replayGrant_accepted {saved : List LeaseGrant}
    (h : (replayGrant now saved job attempt a).decision = .accepted) :
    leaseDecision a job attempt now = .accepted ∧
      (replayGrant now saved job attempt a).leaseExpiresAt ≤
        (attempt.map LeaseAttempt.expires).getD 0 := by
  unfold replayGrant LeaseGrant.normalize at h ⊢
  simp only at h ⊢
  split_ifs at h ⊢ with hfinal hdecision <;> grind

@[simp] theorem replayGrant_authority (now : Time) (saved : List LeaseGrant) (job : LeaseJob)
    (attempt : Option LeaseAttempt) (a : AttemptAuthority) :
    (replayGrant now saved job attempt a).authority = a := by
  unfold replayGrant LeaseGrant.normalize
  simp only
  split_ifs <;> rfl

@[simp] theorem freshGrant_serverTime (now : Time) (job : LeaseJob) (attempt : Option LeaseAttempt)
    (a : AttemptAuthority) : (freshGrant now job attempt a).serverTime = now := by
  unfold freshGrant LeaseGrant.normalize
  split_ifs <;> rfl

@[simp] theorem replayGrant_serverTime (now : Time) (saved : List LeaseGrant) (job : LeaseJob)
    (attempt : Option LeaseAttempt) (a : AttemptAuthority) :
    (replayGrant now saved job attempt a).serverTime = now := by
  unfold replayGrant LeaseGrant.normalize
  simp only
  split_ifs <;> rfl

/-- **What a renewal does**: it repeats a batch without a change, or grants a
first one. -/
theorem renewLeases_eq_ok {r : LeaseRenewal} {grants : List LeaseGrant}
    (h : renewLeases s seen now id r = .ok (s', grants)) :
    validMembers id.workerID r.sessionID [] r.attempts = true ∧
      ((∃ saved, s' = s ∧ grants = r.attempts.map (fun a => replayGrant now saved
          (lockedJob s a.jobID) (lockedAttempt s r.attempts a.attemptID) a)) ∨
        (grants = r.attempts.map (fun a => freshGrant now (lockedJob s a.jobID)
          (lockedAttempt s r.attempts a.attemptID) a) ∧
          ∃ requests, s' = { grants.foldl Store.applyGrant s with leaseRequests := requests }))
    := by
  simp only [renewLeases, bind_ok] at h
  obtain ⟨_, -, hash, hhash, _, -, _, -, h⟩ := h
  simp only [LeaseRenewal.hash, bind_ok, require_ok] at hhash
  obtain ⟨_, -, _, hvalid, -⟩ := hhash
  refine ⟨hvalid, ?_⟩
  split at h
  · simp only [bind_ok, pure_pair_ok] at h
    obtain ⟨_, -, saved, -, rfl, rfl⟩ := h
    exact .inl ⟨saved, rfl, rfl⟩
  · obtain ⟨rfl, rfl⟩ := pure_pair_ok.mp h
    exact .inr ⟨rfl, _, rfl⟩

/-- **An accepted member would be accepted now.** -/
theorem renewLeases_accepted {r : LeaseRenewal} {grants : List LeaseGrant}
    (h : renewLeases s seen now id r = .ok (s', grants)) {g : LeaseGrant} (hg : g ∈ grants)
    (haccepted : g.decision = .accepted) :
    leaseDecision g.authority (lockedJob s g.authority.jobID)
      (lockedAttempt s r.attempts g.authority.attemptID) now = .accepted := by
  obtain ⟨-, ⟨saved, -, rfl⟩ | ⟨rfl, -⟩⟩ := renewLeases_eq_ok h
  · obtain ⟨a, -, rfl⟩ := List.mem_map.mp hg
    rw [replayGrant_authority]
    exact (replayGrant_accepted haccepted).1
  · obtain ⟨a, -, rfl⟩ := List.mem_map.mp hg
    rw [freshGrant_authority]
    exact (freshGrant_accepted haccepted).1

end Dispatch
