import Dispatch.Outcome.Siblings

/-!
# When an attempt is fenced

The reaper runs when it runs, and a session is replaced when its successor
shows up. What an attempt ended with must not depend on it. `fenceOutcome`
compares three moments, the end of the lease, the deadline of the phase and the
time of the fence; from the earlier of the two deadlines on, the third drops
out: a phase that was over no later than the lease is a timeout, and a lease
that was over first is a lost worker.

In a reachable store the fence of a current attempt always succeeds
(`Reachable.fences`), so that the verdict is one of the system and not only of
the comparison.
-/

namespace Dispatch

open Txn

variable {j : JobRow} {a : AttemptRow} {job attempt : Uuid}

variable {sha : Uuid → ℕ} {s s' : Store} {now : Time}

/-! ## A fence succeeds -/

/-- Beyond its count a job has no event. -/
def Store.Unwritten (s : Store) : Prop :=
  ∀ id j n, s.jobs.lookup id = some j → j.eventSequence < n → s.events.lookup (id, n) = none

theorem Reachable.unwritten {w : World} (h : Reachable sha w) : w.store.Unwritten :=
  fun _ _ _ hj hn => h.chronicled.unwritten hj hn

theorem Store.Unwritten.same (h : s.Unwritten) (hevents : s'.events = s.events)
    (hjobs : ∀ id j', s'.jobs.lookup id = some j' →
      ∃ j, s.jobs.lookup id = some j ∧ j.eventSequence = j'.eventSequence) : s'.Unwritten := by
  intro id j' n hj' hn
  obtain ⟨j, hj, hsequence⟩ := hjobs id j' hj'
  rw [hevents]
  exact h id j n hj (hsequence ▸ hn)

theorem Store.Unwritten.appendEvent (h : s.Unwritten) {author : Option Uuid} {body : EventBody}
    (happend : s.appendEvent now job author body = .ok s') : s'.Unwritten := by
  obtain ⟨j, events, hj, hinsert, rfl⟩ := Store.appendEvent_eq_ok happend
  obtain ⟨-, rfl⟩ := Table.insertNew_eq_some hinsert
  intro id k n hk hn
  rw [Table.lookup_modify] at hk
  rw [Table.lookup_insert_ite]
  split_ifs at hk with hid
  · subst hid
    rw [hj, Option.map_some, Option.some.injEq] at hk
    subst hk
    have hne : (id, n) ≠ (id, j.eventSequence + 1) := fun heq => hn.ne' (Prod.mk.inj heq).2
    rw [if_neg hne]
    exact h id j n hj (Nat.lt_of_succ_lt hn)
  · have hne : (id, n) ≠ (job, j.eventSequence + 1) := fun heq => hid (Prod.mk.inj heq).1
    rw [if_neg hne]
    exact h id k n hk hn

theorem Store.Unwritten.fence (h : s.Unwritten) (job attempt : Uuid) (out : FenceOutcome)
    (now : Time) : (s.fence job attempt out now).Unwritten := by
  refine h.same rfl fun id k hk => ?_
  rw [Store.fence, Store.endAttempt, Table.lookup_modify] at hk
  split_ifs at hk with hid
  · obtain ⟨j', hj', rfl⟩ := Option.map_eq_some_iff.mp hk
    exact ⟨j', hj', rfl⟩
  · exact ⟨k, hk, rfl⟩

/-- What was decided about a fenced attempt and its job. -/
structure Verdict where
  job : JobState
  attempt : AttemptState
  reason : Reason
  deriving DecidableEq, Repr

/-- The verdict of an outcome. -/
def FenceOutcome.verdict (out : FenceOutcome) : Verdict :=
  ⟨out.jobState, out.attemptState, out.reason⟩

/-- **The fence of an attempt succeeds with a verdict.** -/
def Fences (sha : Uuid → ℕ) (s : Store) (now : Time) (job attempt : Uuid) (v : Verdict) : Prop :=
  ∃ s' j a, fenceLostAttempt sha s now job attempt = .ok s' ∧ s'.jobs.lookup job = some j ∧
    s'.attempts.lookup attempt = some a ∧ j.state = v.job ∧ a.state = v.attempt ∧
    a.reason = some v.reason

/-- The rows of a fenced attempt and of its job. -/
theorem fenceLostAttempt_rows (h : fenceLostAttempt sha s now job attempt = .ok s')
    (hj : s.jobs.lookup job = some j) (ha : s.attempts.lookup attempt = some a) :
    (∃ n, s'.jobs.lookup job
      = some { j.fence (fenceOutcome sha j a attempt now) with eventSequence := n }) ∧
      s'.attempts.lookup attempt = some (a.fence (fenceOutcome sha j a attempt now) now) := by
  obtain ⟨j', a', r, logged, hj', -, ha', -, -, hlogged, hlast⟩ := fenceLostAttempt_eq_ok h
  obtain rfl := Option.mem_unique hj hj'
  obtain rfl := Option.mem_unique ha ha'
  have hattempt : logged.attempts.lookup attempt
      = some (a.fence (fenceOutcome sha j a attempt now) now) := by
    rw [(appendEvent_attempts hlogged).1, Store.fence, Store.endAttempt, Table.lookup_modify,
      if_pos rfl, ha]
    rfl
  have hjob : logged.jobs.lookup job = some { j.fence (fenceOutcome sha j a attempt now) with
      eventSequence := j.eventSequence + 1 } := by
    obtain ⟨row, events, -, -, rfl⟩ := Store.appendEvent_eq_ok hlogged
    rw [Table.lookup_modify, if_pos rfl, Store.fence, Store.endAttempt, Table.lookup_modify,
      if_pos rfl, hj]
    rfl
  split_ifs at hlast with hfailed
  · -- The job that failed is not one of its own siblings.
    obtain ⟨hsame, -⟩ | ⟨sweep, cancelRunning, -, hcandidate, -⟩ :=
      applySweepFailFast_job hlast hjob
    · rw [applySweepFailFast_rest hlast]
      exact ⟨⟨_, hsame⟩, hattempt⟩
    · exact absurd rfl (failFastCandidate_iff.mp hcandidate).1
  · rw [← pure_ok.mp hlast]
    exact ⟨⟨_, hjob⟩, hattempt⟩

/-- **A fence succeeds** once the attempt holds its job and its reservation. -/
theorem fenceLostAttempt_total (hunwritten : s.Unwritten) (now : Time) {r : ReservationRow}
    (hj : s.jobs.lookup job = some j) (hcurrent : j.currentAttempt = some attempt)
    (ha : s.attempts.lookup attempt = some a) (hvalid : j.spec.isValid = true)
    (hr : s.reservations.lookup attempt = some r) (hheld : r.state = .active) :
    ∃ s', fenceLostAttempt sha s now job attempt = .ok s' := by
  set out := fenceOutcome sha j a attempt now with hout
  have hended := hunwritten.fence job attempt out now
  have hjob : (s.fence job attempt out now).jobs.lookup job = some (j.fence out) := by
    rw [Store.fence, Store.endAttempt, Table.lookup_modify, if_pos rfl, hj]
    rfl
  have hevent : ∃ logged, (s.fence job attempt out now).appendEvent now job (some attempt)
      (out.event out.reason out.jobState out.nextEligible) = .ok logged :=
    Store.appendEvent_total hjob (hended job _ _ hjob (Nat.lt_succ_self _))
  obtain ⟨logged, hlogged⟩ := hevent
  have hlast : ∃ s', (if out.jobState = .failed then applySweepFailFast logged now job
      else pure logged) = .ok s' := by
    split_ifs
    · exact applySweepFailFast_total (fun id k hk => hended.appendEvent hlogged id k _ hk
        (Nat.lt_succ_self _)) now job
    · exact ⟨logged, rfl⟩
  obtain ⟨s', hs'⟩ := hlast
  refine ⟨s', ?_⟩
  simp only [fenceLostAttempt, bind_ok, orThrow_ok, require_ok]
  have hsettled : settleReservation
      { s with attempts := s.attempts.modify attempt (·.fence out now) }
      attempt .quarantined .database = .ok { s with
        attempts := s.attempts.modify attempt (·.fence out now)
        reservations := s.reservations.modify attempt ({ · with state := .quarantined }) } := by
    simp only [settleReservation, hr, orThrow_some, ok_bind, require_of hheld]
    rfl
  exact ⟨j, hj, (), hcurrent, a, ha, (), hvalid, _, hsettled, logged, hlogged, hs'⟩

/-- **The current attempt of a reachable store can be fenced at any time.** -/
theorem Reachable.fences {w : World} (h : Reachable sha w) (now : Time)
    (hj : w.store.jobs.lookup job = some j) (hcurrent : j.currentAttempt = some attempt)
    (ha : w.store.attempts.lookup attempt = some a) :
    Fences sha w.store now job attempt (fenceOutcome sha j a attempt now).verdict := by
  obtain ⟨a', ha', -, -, -, -, -, r, ⟨hr, hheld, -⟩, -⟩ :=
    (reachable_jobOwnership h job j hj).current attempt hcurrent
  have hvalid := (h.ledger_sound.furnished.documents job _ (Store.toLedger_job hj)).valid
  obtain ⟨s', hs'⟩ := fenceLostAttempt_total h.unwritten now hj hcurrent ha hvalid hr hheld
  obtain ⟨⟨n, hjob⟩, hattempt⟩ := fenceLostAttempt_rows hs' hj ha
  exact ⟨s', _, _, hs', hjob, hattempt, rfl, rfl, rfl⟩

/-! ## The verdict -/

/-- The timeout of a phase. -/
def AttemptState.timeout : AttemptState → Reason
  | .running => .executionTimeout
  | .finalizing => .finalizationTimeout
  | _ => .startupTimeout

/-- A lost attempt is retried. -/
def JobRow.Retries (j : JobRow) : Prop :=
  (j.attemptCounter : ℤ) < j.spec.spec.retry.maxAttempts ∧ Reason.workerLost ∈ j.spec.spec.retry.on

instance (j : JobRow) : Decidable j.Retries := inferInstanceAs (Decidable (_ ∧ _))

theorem fenceOutcome_cancelled (a : AttemptRow) (attempt : Uuid) (now : Time)
    (hcancelled : j.cancelRequested = true) : (fenceOutcome sha j a attempt now).verdict
      = ⟨.cancelled, .cancelled, .userCancelled⟩ := by
  rw [fenceOutcome, if_pos hcancelled]
  rfl

/-- A phase that is over no later than the lease. -/
theorem fenceOutcome_timeout (attempt : Uuid) (hcancelled : j.cancelRequested = false)
    (hactive : a.state.isActive = true) (hfirst : a.phaseDeadline ≤ a.leaseExpiresAt)
    (hover : a.phaseDeadline ≤ now) :
    (fenceOutcome sha j a attempt now).verdict = ⟨.failed, .failed, a.state.timeout⟩ := by
  have hreason : expiredPhaseReason a.state a.leaseExpiresAt a.phaseDeadline now
      = some a.state.timeout := by
    unfold expiredPhaseReason
    rw [if_neg (not_or.mpr ⟨not_lt.mpr hover, not_lt.mpr hfirst⟩)]
    cases hstate : a.state <;> first | rfl | simp [hstate, AttemptState.isActive] at hactive
  rw [fenceOutcome, hcancelled, hreason]
  rfl

/-- A lease that is over first. -/
theorem fenceOutcome_lost (attempt : Uuid) (now : Time) (hcancelled : j.cancelRequested = false)
    (hfirst : a.leaseExpiresAt < a.phaseDeadline) :
    (fenceOutcome sha j a attempt now).verdict
      = ⟨if j.Retries then .retryWait else .failed, .lost, .workerLost⟩ := by
  have hreason : expiredPhaseReason a.state a.leaseExpiresAt a.phaseDeadline now = none := by
    unfold expiredPhaseReason
    rw [if_pos (.inr hfirst)]
  rw [fenceOutcome, hcancelled, hreason]
  by_cases hretries : j.Retries
  · rw [if_pos hretries]
    exact congrArg FenceOutcome.verdict (if_pos hretries)
  · rw [if_neg hretries]
    exact congrArg FenceOutcome.verdict (if_neg hretries)

/-- **The classification of a fence does not depend on its time.** Take an
attempt at two moments of a run between which it was not renewed, did not enter
another phase and was not cancelled. From the earlier of its deadlines on, a
fence succeeds at either moment, whenever it comes, and with one verdict. A
phase that was over no later than the lease is its timeout, and the job has
failed for good; a lease that was over first is a lost worker, retried if the
document says so and attempts remain. A cancelled job is cancelled by any
fence. -/
theorem fence_classification {w w' : World} (h : Reachable sha w)
    (hlater : World.Later sha w w') {job attempt : Uuid} {j j' : JobRow} {a a' : AttemptRow}
    (hj : w.store.jobs.lookup job = some j) (hcurrent : j.currentAttempt = some attempt)
    (ha : w.store.attempts.lookup attempt = some a)
    (hj' : w'.store.jobs.lookup job = some j') (hcurrent' : j'.currentAttempt = some attempt)
    (ha' : w'.store.attempts.lookup attempt = some a')
    (hrenewed : a'.leaseExpiresAt = a.leaseExpiresAt)
    (hphase : a'.state = a.state ∧ a'.phaseDeadline = a.phaseDeadline)
    (hcancelled : j'.cancelRequested = j.cancelRequested) :
    (∀ t t', min a.leaseExpiresAt a.phaseDeadline ≤ t → min a.leaseExpiresAt a.phaseDeadline ≤ t' →
      ∃ v, Fences sha w.store t job attempt v ∧ Fences sha w'.store t' job attempt v ∧
        (j.cancelRequested = false → a.phaseDeadline ≤ a.leaseExpiresAt →
          v = ⟨.failed, .failed, a.state.timeout⟩) ∧
        (j.cancelRequested = false → a.leaseExpiresAt < a.phaseDeadline →
          v = ⟨if j.Retries then .retryWait else .failed, .lost, .workerLost⟩)) ∧
    (j.cancelRequested = true →
      ∀ t, Fences sha w.store t job attempt ⟨.cancelled, .cancelled, .userCancelled⟩) := by
  have hreached := h.later hlater
  obtain ⟨_, hrow, -, hactive, -, hnumber, -⟩ :=
    (reachable_jobOwnership h job j hj).current attempt hcurrent
  obtain rfl := Option.mem_unique ha hrow
  obtain ⟨_, hrow', -, hactive', -, hnumber', -⟩ :=
    (reachable_jobOwnership hreached job j' hj').current attempt hcurrent'
  obtain rfl := Option.mem_unique ha' hrow'
  -- The attempt is still the last one, so that as many attempts remain.
  have hretries : j'.Retries ↔ j.Retries := by
    obtain ⟨k, hk, hkept⟩ := h.later_job hlater hj
    obtain rfl := Option.mem_unique hj' hk
    obtain ⟨b, hb, hstays⟩ := (h.later_ledger hlater).attempts attempt a ha
    obtain rfl := Option.mem_unique ha' hb
    have hspec : j'.spec = j.spec := hkept.spec
    rw [JobRow.Retries, JobRow.Retries, hspec, ← hnumber, ← hnumber', hstays.number]
  refine ⟨fun t t' ht ht' => ?_, fun hset t => ?_⟩
  · have hfences := h.fences t hj hcurrent ha
    have hfences' := hreached.fences t' hj' hcurrent' ha'
    cases hset : j.cancelRequested with
    | true =>
      rw [fenceOutcome_cancelled _ _ _ hset] at hfences
      rw [fenceOutcome_cancelled _ _ _ (hcancelled.trans hset)] at hfences'
      exact ⟨_, hfences, hfences', nofun, nofun⟩
    | false =>
      have hset' := hcancelled.trans hset
      rcases le_or_gt a.phaseDeadline a.leaseExpiresAt with hfirst | hfirst
      · rw [min_eq_right hfirst] at ht ht'
        rw [fenceOutcome_timeout _ hset hactive hfirst ht] at hfences
        rw [fenceOutcome_timeout _ hset' hactive' (by rw [hphase.2, hrenewed]; exact hfirst)
          (by rw [hphase.2]; exact ht'), hphase.1] at hfences'
        exact ⟨_, hfences, hfences', fun _ _ => rfl, fun _ hlt => absurd hfirst (not_le.mpr hlt)⟩
      · rw [fenceOutcome_lost _ _ hset hfirst] at hfences
        rw [fenceOutcome_lost _ _ hset' (by rw [hphase.2, hrenewed]; exact hfirst)] at hfences'
        simp only [hretries] at hfences'
        exact ⟨_, hfences, hfences', fun _ hle => absurd hle (not_le.mpr hfirst), fun _ _ => rfl⟩
  · rw [← fenceOutcome_cancelled a attempt t hset]
    exact h.fences t hj hcurrent ha

/-- Attempt 1 is fenced an hour later as it would have been at once. -/
theorem sample_fence_classification : ∃ v,
    Fences Sample.sha Sample.assignedWorld.store (31 * second) 1 1 v ∧
      Fences Sample.sha Sample.assignedWorld.store (3631 * second) 1 1 v := by
  have hj : Sample.assignedWorld.store.jobs.lookup 1 = some _ := rfl
  have ha : Sample.assignedWorld.store.attempts.lookup 1 = some _ := rfl
  have hclassified := fence_classification Sample.assigned_reachable .refl hj rfl ha hj rfl ha rfl
    ⟨rfl, rfl⟩ rfl
  obtain ⟨v, hfences, hfences', -⟩ :=
    hclassified.1 (31 * second) (3631 * second) (by decide) (by decide)
  exact ⟨v, hfences, hfences'⟩

/-- **A job can be cancelled at any time.** The request does not fail: a waiting
job is cancelled, a running one is asked to stop, any other is left alone, and so
are reservations. -/
theorem cancellation_possible {w : World} (h : Reachable sha w)
    (hj : w.store.jobs.lookup job = some j) (now : Time) :
    ∃ s' j', requestCancellation w.store now j.project job = .ok s' ∧
      s'.jobs.lookup job = some j' ∧ j'.state = (if j.state.isQueued then .cancelled
        else if j.state = .active then .cancelling else j.state) ∧
      s'.reservations = w.store.reservations := by
  obtain ⟨hjob, hproject⟩ := h.ledger_sound.named.jobs job _ (Store.toLedger_job hj)
  have hids : canonicalUUID j.project ∧ canonicalUUID job :=
    ⟨decide_eq_true hproject, decide_eq_true hjob⟩
  have hfree := h.unwritten job j _ hj (Nat.lt_succ_self _)
  simp only [requestCancellation, require_of hids, hj, orThrow_some, ok_bind, require_of trivial]
  by_cases hopen : j.state.isQueued = true ∨ j.state = .active
  · simp only [if_pos hopen, Store.appendEvent, Table.lookup_modify, if_true, hj, Option.map_some,
      orThrow_some, ok_bind, Table.insertNew_of_free _ hfree]
    refine ⟨_, _, rfl, (Table.lookup_modify ..).trans (by simp [hj]; rfl), ?_, rfl⟩
    show (if j.state = .active then JobState.cancelling else .cancelled) = _
    cases hs : j.state <;> simp_all [JobState.isQueued]
  · obtain ⟨hqueued, hactive⟩ := not_or.mp hopen
    rw [if_neg hopen]
    exact ⟨_, j, rfl, hj, by rw [if_neg hqueued, if_neg hactive], rfl⟩

theorem sample_cancellation_possible :
    ∃ s', requestCancellation Sample.seen second 1 1 = .ok s' := by
  obtain ⟨s', _, hs', -⟩ := cancellation_possible Sample.assigned_reachable
    (show Sample.seen.jobs.lookup 1 = some _ from rfl) second
  exact ⟨s', hs'⟩

end Dispatch
