import Dispatch.Store.Phases

/-!
# Fencing: sweep failure, the reaper and session recovery

An attempt whose worker can no longer be trusted to hold it is fenced:
`fenceLostAttempt` ends the attempt, quarantines its reservation and decides
what becomes of the job, and a job that fails for good stops its sweep if the
sweep asks for it. The reaper fences one expired attempt at a time; recovery
fences every active attempt of a worker when a new session replaces the old
one.

`sha` is the jitter source of the retry delay, the first eight bytes of the
SHA-256 of the attempt id.
-/

namespace Dispatch

open Txn

/-- How long a session must be silent before another may replace it unasked. -/
def sessionInactivity : Time := 30 * second

/-! ## Fail-fast sweeps -/

/-- A sibling that the failure of `failed` stops. -/
def failFastCandidate (failed sweep : Uuid) (cancelRunning : Bool) (id : Uuid) (j : JobRow) :
    Bool :=
  decide (id ≠ failed) && decide (j.sweep.map Prod.fst = some sweep) &&
    (j.state.isQueued || (decide (j.state = .active) && cancelRunning))

theorem failFastCandidate_iff {failed sweep id : Uuid} {cancelRunning : Bool} {j : JobRow} :
    failFastCandidate failed sweep cancelRunning id j = true ↔ id ≠ failed ∧
      j.sweep.map Prod.fst = some sweep ∧
      (j.state.isQueued = true ∨ j.state = .active ∧ cancelRunning = true) := by
  simp only [failFastCandidate, Bool.and_eq_true, Bool.or_eq_true, decide_eq_true_eq, and_assoc]

/-- The stop of a sibling: a running one is asked to cancel, a waiting one is
cancelled. -/
def JobRow.stop (j : JobRow) : JobRow :=
  { j with
    state := if j.state = .active then .cancelling else .cancelled
    cancelRequested := true
    eventSequence := j.eventSequence + 1 }

/-- The events of the siblings stopped, one each. -/
def insertStopEvents (now : Time) (sweep failed : Uuid) (events : Table (Uuid × ℕ) EventRow)
    (stopped : List (Uuid × JobRow)) : Except StoreError (Table (Uuid × ℕ) EventRow) :=
  stopped.foldlM (fun events (id, j) =>
    orThrow (events.insertNew (id, j.eventSequence + 1)
      ⟨none, .sweepFailFast sweep failed j.state j.stop.state, now⟩) .database) events

/-- The sweep that must stop because `failed` failed, and whether its running
children stop too. -/
def failFastPolicy (s : Store) (failed : Uuid) : Option (Uuid × Bool) :=
  match s.jobs.lookup failed with
  | some f =>
    if f.state = .failed then
      match f.sweep with
      | some (sweep, _) =>
        match s.sweeps.lookup sweep with
        | some row => if row.failFast then some (sweep, row.cancelRunningOnFailure) else none
        | none => none
      | none => none
    else none
  | none => none

theorem failFastPolicy_eq_some {s : Store} {failed sweep : Uuid} {cancelRunning : Bool}
    (h : failFastPolicy s failed = some (sweep, cancelRunning)) :
    ∃ f place row, s.jobs.lookup failed = some f ∧ f.state = .failed ∧
      f.sweep = some (sweep, place) ∧ s.sweeps.lookup sweep = some row ∧ row.failFast = true ∧
      row.cancelRunningOnFailure = cancelRunning := by
  unfold failFastPolicy at h
  split at h
  · rename_i f hf
    split_ifs at h with hfailed
    · split at h
      · rename_i sweep' place hsweep
        split at h
        · rename_i row hrow
          split_ifs at h with hfast
          · obtain ⟨rfl, rfl⟩ := Prod.mk.inj (Option.some.inj h)
            exact ⟨f, place, row, hf, hfailed, hsweep, hrow, hfast, rfl⟩
        · exact absurd h (by simp)
      · exact absurd h (by simp)
  · exact absurd h (by simp)

/-- **The stop of a failed child's siblings.** -/
def applySweepFailFast (s : Store) (now : Time) (failed : Uuid) : Except StoreError Store :=
  match failFastPolicy s failed with
  | none => pure s
  | some (sweep, cancelRunning) => do
    let events ← insertStopEvents now sweep failed s.events
      (s.jobs.select (failFastCandidate failed sweep cancelRunning))
    pure { s with
      jobs := s.jobs.update (fun id j =>
        if failFastCandidate failed sweep cancelRunning id j then j.stop else j)
      events := events }

/-! ## Fencing one attempt -/

/-- The deadline that ended authority first, when it was the phase's. -/
def expiredPhaseReason (state : AttemptState) (lease phase now : Time) : Option Reason :=
  if now < phase ∨ lease < phase then none
  else match state with
    | .assigned | .starting => some .startupTimeout
    | .running => some .executionTimeout
    | .finalizing => some .finalizationTimeout
    | _ => none

/-- The backoff before an attempt: doubled once per earlier attempt, capped. -/
def backoff (initial maximum : Time) : ℕ → Time
  | 0 => initial
  | n + 1 =>
    let base := backoff initial maximum n
    if base < maximum then min (base * 2) maximum else base

/-- **The retry delay**: half of the backoff, and a jitter of at most the
other half. -/
def retryDelay (sha : Uuid → ℕ) (policy : Retry) (attemptNumber : ℕ) (attempt : Uuid) : Time :=
  let base := backoff (seconds policy.initialBackoffSeconds) (seconds policy.maxBackoffSeconds)
    (attemptNumber - 1)
  base / 2 + sha attempt % (base - base / 2 + 1)

/-- What becomes of a fenced attempt and its job. -/
structure FenceOutcome where
  jobState : JobState
  attemptState : AttemptState
  reason : Reason
  event : Reason → JobState → Time → EventBody
  nextEligible : Time

/-- **The classification of a fence.** A cancelled job is cancelled; a phase
that expired no later than the lease is a timeout, which is never retried;
anything else is a lost worker. -/
def fenceOutcome (sha : Uuid → ℕ) (j : JobRow) (a : AttemptRow) (attempt : Uuid) (now : Time) :
    FenceOutcome :=
  if j.cancelRequested then
    ⟨.cancelled, .cancelled, .userCancelled, .attemptCancelled, now⟩
  else match expiredPhaseReason a.state a.leaseExpiresAt a.phaseDeadline now with
    | some timeout => ⟨.failed, .failed, timeout, .attemptTimedOut, now⟩
    | none =>
      if (j.attemptCounter : ℤ) < j.spec.spec.retry.maxAttempts ∧
          Reason.workerLost ∈ j.spec.spec.retry.on then
        ⟨.retryWait, .lost, .workerLost, .attemptLost,
          now + retryDelay sha j.spec.spec.retry j.attemptCounter attempt⟩
      else ⟨.failed, .lost, .workerLost, .attemptLost, now⟩

/-- `UPDATE reservations SET state WHERE attempt_id AND state='active'`, which
must change exactly one row. -/
def settleReservation (s : Store) (attempt : Uuid) (state : ReservationState) (e : StoreError) :
    Except StoreError Store := do
  let r ← orThrow (s.reservations.lookup attempt) e
  require (r.state = .active) e
  pure { s with reservations := s.reservations.modify attempt ({ · with state := state }) }

/-- **The fence of one attempt.** -/
def fenceLostAttempt (sha : Uuid → ℕ) (s : Store) (now : Time) (job attempt : Uuid) :
    Except StoreError Store := do
  let j ← orThrow (s.jobs.lookup job) .database
  require (j.currentAttempt = some attempt) .database
  let a ← orThrow (s.attempts.lookup attempt) .database
  require j.spec.isValid .invalid
  let out := fenceOutcome sha j a attempt now
  let ended := { s with
    attempts := s.attempts.modify attempt (fun a => { a with
      state := out.attemptState
      reason := some out.reason
      cleanupPending := true
      finishedAt := some now }) }
  let quarantined ← settleReservation ended attempt .quarantined .database
  let closed := { quarantined with
    jobs := s.jobs.modify job (fun j => { j with
      state := out.jobState
      currentAttempt := none
      nextEligibleAt := timestamptz out.nextEligible }) }
  let logged ← closed.appendEvent now job (some attempt)
    (out.event out.reason out.jobState out.nextEligible)
  if out.jobState = .failed then applySweepFailFast logged now job else pure logged

/-! ## The reaper -/

/-- The earlier of the two deadlines of an attempt. -/
def AttemptRow.deadline (a : AttemptRow) : Time := min a.leaseExpiresAt a.phaseDeadline

/-- The candidate of a reaper pass: the expired current attempt with the
earliest deadline. -/
def reapCandidate (s : Store) (now : Time) : Option (Uuid × AttemptRow) :=
  ((s.attempts.select (fun id a => a.state.isActive && decide (a.deadline ≤ now) &&
      match s.jobs.lookup a.job with
      | some j => decide (j.currentAttempt = some id)
      | none => false)).insertionSort (fun x y =>
        x.2.deadline < y.2.deadline ∨ x.2.deadline = y.2.deadline ∧ x.1 ≤ y.1)).head?

/-- **One reaper transaction.** The candidate was chosen before the locks were
taken, from an older commit, so everything is checked again under them. -/
def reapOneExpiredAttempt (sha : Uuid → ℕ) (s seen : Store) (observed now : Time) :
    Except StoreError (Store × Bool × Bool) :=
  match reapCandidate seen observed with
  | none => pure (s, false, false)
  | some (attempt, candidate) => do
    let j ← orThrow (s.jobs.lookup candidate.job) .database
    let a ← orThrow (s.attempts.lookup attempt) .database
    if j.currentAttempt ≠ some attempt ∨ !a.state.isActive ∨
        (now < a.leaseExpiresAt ∧ now < a.phaseDeadline) then
      pure (s, true, false)
    else
      let fenced ← fenceLostAttempt sha s now candidate.job attempt
      -- Expiry does not prove a physical stop: the host stays ineligible.
      pure ({ fenced with
        workers := fenced.workers.modify a.worker (fun w => { w with
          state := .registering
          reconciliationComplete := false }) }, true, true)

/-! ## Takeover approval and session recovery -/

/-- An operator approves one replacement of one session. -/
def approveSessionTakeover (s : Store) (worker fromSession toSession : Uuid) :
    Except StoreError Store := do
  require (canonicalUUID worker ∧ canonicalUUID fromSession ∧ canonicalUUID toSession ∧
    fromSession ≠ toSession) .invalid
  match s.takeovers.lookup (worker, fromSession) with
  | some t =>
    require (t.toSession = toSession) .conflict
    pure s
  | none =>
    let w ← orThrow (s.workers.lookup worker) .notFound
    require (w.currentSession = some fromSession) .fenced
    require (s.sessions.lookup toSession).isNone .conflict
    -- `UNIQUE(worker_id,to_session_id)`
    require (∀ e ∈ s.takeovers.entries, e.1.1 = worker → e.2.toSession ≠ toSession) .database
    pure { s with takeovers := AList.insert (worker, fromSession) ⟨toSession, none⟩ s.takeovers }

/-- The active attempts of a worker, in lock order. -/
def workerAttempts (s : Store) (worker : Uuid) : List (Uuid × AttemptRow) :=
  (s.attempts.select (fun _ a => decide (a.worker = worker) && a.state.isActive)).insertionSort
    (fun x y => x.2.job < y.2.job ∨ x.2.job = y.2.job ∧ x.1 ≤ y.1)

/-- The approval that lets `toSession` replace `fromSession` is there and unused. -/
def takeoverApproved (s : Store) (worker fromSession toSession : Uuid) : Bool :=
  match s.takeovers.lookup (worker, fromSession) with
  | some t => decide (t.toSession = toSession) && t.usedAt.isNone
  | none => false

/-- **The replacement of a session.** Without an approval the old session must
have been silent and every lease of the worker must have expired. -/
def recoverSession (sha : Uuid → ℕ) (s : Store) (now : Time) (worker fromSession toSession : Uuid) :
    Except StoreError Store := do
  let w ← orThrow (s.workers.lookup worker) .database
  let session ← orThrow (s.sessions.lookup fromSession) .database
  require (w.currentSession = some fromSession ∧ session.worker = worker) .database
  let attempts := workerAttempts s worker
  let approved := takeoverApproved s worker fromSession toSession
  if ¬ approved ∧ session.fencedAt = none then
    require (w.lastHeartbeat.getD session.createdAt + sessionInactivity ≤ now) .sessionActive
    require (∀ a ∈ attempts, a.2.leaseExpiresAt ≤ now) .sessionActive
  let fenced ← attempts.foldlM
    (fun s (id, a) => fenceLostAttempt sha s now a.job id) s
  pure { fenced with
    sessions := fenced.sessions.update (fun _ ss =>
      if ss.worker = worker ∧ ss.fencedAt = none then { ss with fencedAt := some now } else ss)
    takeovers :=
      if approved then
        fenced.takeovers.modify (worker, fromSession) (fun t => { t with usedAt := some now })
      else fenced.takeovers }

end Dispatch
