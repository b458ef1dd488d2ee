import Dispatch.Outcome.Chronicle
import Dispatch.Outcome.FailFast

/-!
# The siblings of a failed child

A child of a fail-fast sweep that fails for good stops its siblings, in the
transaction that fails it. `applySweepFailFast` is one statement, and says
itself which rows it changes; the locks were taken by another one, before any
attempt was locked, from the jobs the transaction set out to close
(`lockFailureJobs`). Three transactions do so, and `Within` is what carries
over from one fence to the next: outside the locks no job changes, and a job
stays in its sweep, so that the locks taken at the start serve to the end.
-/

namespace Dispatch

open Txn

variable {id job sweep failed attempt : Uuid} {j : JobRow} {row : SweepRow}

variable {sha : Uuid → ℕ} {s s' : Store} {now : Time}

/-! ## Row locks -/

/-- The sweep of a job has to stop when the job fails. -/
def Store.stopsFor (s : Store) (id sweep : Uuid) : Bool :=
  match s.jobs.lookup id, s.sweeps.lookup sweep with
  | some j, some row => decide (j.sweep.map Prod.fst = some sweep) && row.failFast
  | _, _ => false

/-- **The locks of a failure**: the jobs that may fail, and the siblings that
would be stopped. -/
def lockFailureJobs (s : Store) (jobIDs : List Uuid) : List Uuid :=
  (s.jobs.select (fun id j => decide (id ∈ jobIDs) || (j.sweep.map Prod.fst).any (fun sweep =>
    jobIDs.any (fun seed => s.stopsFor seed sweep)))).map Prod.fst

/-- The jobs of which a worker has an attempt that is active, or whose
reservation is in quarantine. -/
def workerSeeds (s : Store) (worker : Uuid) : List Uuid :=
  (s.jobs.select (fun id _ => s.attempts.entries.any (fun x => decide (x.2.job = id) &&
    decide (x.2.worker = worker) && (s.reservations.lookup x.1).any (fun r =>
      x.2.state.isActive || decide (r.state = .quarantined))))).map Prod.fst

/-- **The locks of a recovery.** -/
def lockWorkerAttempts (s : Store) (worker : Uuid) : List Uuid :=
  lockFailureJobs s (workerSeeds s worker)

theorem Store.stopsFor_iff : s.stopsFor id sweep = true ↔
    ∃ x row, (s.jobs.lookup id).map JobRow.sweep = some (some x) ∧ x.1 = sweep ∧
      s.sweeps.lookup sweep = some row ∧ row.failFast = true := by
  unfold Store.stopsFor
  cases hj : s.jobs.lookup id with
  | none => simp
  | some j =>
    cases hrow : s.sweeps.lookup sweep with
    | none => simp
    | some row => simp [Option.map_eq_some_iff]

theorem mem_lockFailureJobs {jobIDs : List Uuid} : id ∈ lockFailureJobs s jobIDs ↔
    ∃ sweep, (s.jobs.lookup id).map JobRow.sweep = some sweep ∧
      (id ∈ jobIDs ∨ ∃ x ∈ sweep, ∃ seed ∈ jobIDs, s.stopsFor seed x.1 = true) := by
  rw [lockFailureJobs, List.mem_map]
  constructor
  · rintro ⟨⟨_, j⟩, hmem, rfl⟩
    obtain ⟨hj, hlocked⟩ := (Table.mem_select ..).mp hmem
    refine ⟨j.sweep, by rw [hj]; rfl, ?_⟩
    rw [Bool.or_eq_true, decide_eq_true_eq] at hlocked
    refine hlocked.imp_right fun hsibling => ?_
    rw [Option.any_eq_true] at hsibling
    obtain ⟨_, hx, hseed⟩ := hsibling
    obtain ⟨x, hsweep, rfl⟩ := Option.map_eq_some_iff.mp hx
    exact ⟨x, hsweep, List.any_eq_true.mp hseed⟩
  · rintro ⟨sweep, hsweep, hlocked⟩
    obtain ⟨j, hj, rfl⟩ := Option.map_eq_some_iff.mp hsweep
    refine ⟨(id, j), (Table.mem_select ..).mpr ⟨hj, ?_⟩, rfl⟩
    rw [Bool.or_eq_true, decide_eq_true_eq]
    refine hlocked.imp_right fun ⟨x, hx, hseed⟩ => ?_
    rw [Option.any_eq_true]
    exact ⟨x.1, Option.map_eq_some_iff.mpr ⟨x, hx, rfl⟩, List.any_eq_true.mpr hseed⟩

/-- **No job outside the locks changes**, and none changes its sweep. -/
structure Within (s : Store) (jobIDs : List Uuid) (s' : Store) : Prop where
  jobs : ∀ id, id ∉ lockFailureJobs s jobIDs → s'.jobs.lookup id = s.jobs.lookup id
  members : ∀ id, (s'.jobs.lookup id).map JobRow.sweep = (s.jobs.lookup id).map JobRow.sweep
  sweeps : s'.sweeps = s.sweeps

variable {jobIDs : List Uuid}

theorem Within.same (hjobs : s'.jobs = s.jobs) (hsweeps : s'.sweeps = s.sweeps) :
    Within s jobIDs s' :=
  ⟨fun _ _ => by rw [hjobs], fun _ => by rw [hjobs], hsweeps⟩

/-- The locks taken earlier serve later. -/
theorem Within.locks (h : Within s jobIDs s') (id : Uuid) :
    id ∈ lockFailureJobs s' jobIDs ↔ id ∈ lockFailureJobs s jobIDs := by
  have hstops : ∀ seed sweep, s'.stopsFor seed sweep = s.stopsFor seed sweep := fun seed sweep => by
    rw [Bool.eq_iff_iff, Store.stopsFor_iff, Store.stopsFor_iff, h.members, h.sweeps]
  rw [mem_lockFailureJobs, mem_lockFailureJobs, h.members]
  simp only [hstops]

theorem Within.trans {s'' : Store} (h : Within s jobIDs s') (h' : Within s' jobIDs s'') :
    Within s jobIDs s'' where
  jobs id hid := (h'.jobs id fun hmem => hid ((h.locks id).mp hmem)).trans (h.jobs id hid)
  members id := (h'.members id).trans (h.members id)
  sweeps := h'.sweeps.trans h.sweeps

/-! ## One failure -/

theorem applySweepFailFast_rest (h : applySweepFailFast s now failed = .ok s') :
    s' = { s with jobs := s'.jobs, events := s'.events } := by
  unfold applySweepFailFast at h
  split at h
  · obtain rfl := pure_ok.mp h
    rfl
  · simp only [bind_ok, pure_ok] at h
    obtain ⟨events, -, rfl⟩ := h
    rfl

/-- **The siblings that are stopped are locked.** -/
theorem applySweepFailFast_within (h : applySweepFailFast s now failed = .ok s')
    (hseed : failed ∈ jobIDs) : Within s jobIDs s' := by
  have hsweeps : s'.sweeps = s.sweeps := by rw [applySweepFailFast_rest h]
  suffices hjob : ∀ id, (id ∉ lockFailureJobs s jobIDs → s'.jobs.lookup id = s.jobs.lookup id) ∧
      (s'.jobs.lookup id).map JobRow.sweep = (s.jobs.lookup id).map JobRow.sweep from
    ⟨fun id => (hjob id).1, fun id => (hjob id).2, hsweeps⟩
  intro id
  cases hj : s.jobs.lookup id with
  | none =>
    have hnone := (applySweepFailFast_none h hj).1
    rw [hnone]
    exact ⟨fun _ => rfl, rfl⟩
  | some j =>
    obtain ⟨hsame, -⟩ | ⟨sweep, cancelRunning, hpolicy, hcandidate, hstopped, -⟩ :=
      applySweepFailFast_job h hj
    · rw [hsame]
      exact ⟨fun _ => rfl, rfl⟩
    · obtain ⟨f, place, row, hf, -, hsweep, hrow, hfast, -⟩ := failFastPolicy_eq_some hpolicy
      obtain ⟨x, hx, rfl⟩ := Option.map_eq_some_iff.mp (failFastCandidate_iff.mp hcandidate).2.1
      have hlocked : id ∈ lockFailureJobs s jobIDs := by
        refine mem_lockFailureJobs.mpr ⟨j.sweep, by rw [hj]; rfl, .inr ⟨x, hx, failed, hseed, ?_⟩⟩
        refine Store.stopsFor_iff.mpr ⟨(x.1, place), row, ?_, rfl, hrow, hfast⟩
        rw [hf, Option.map_some, hsweep]
      rw [hstopped]
      exact ⟨fun hnot => absurd hlocked hnot, rfl⟩

/-- The row of a job is changed, in its sweep. -/
theorem Within.modify {f : JobRow → JobRow} (hjobs : s'.jobs = s.jobs.modify job f)
    (hsweeps : s'.sweeps = s.sweeps) (hf : ∀ j, (f j).sweep = j.sweep) (hseed : job ∈ jobIDs) :
    Within s jobIDs s' := by
  have hlookup : ∀ id, s'.jobs.lookup id
      = if id = job then (s.jobs.lookup id).map f else s.jobs.lookup id := fun id => by
    rw [hjobs, Table.lookup_modify]
  refine ⟨fun id hid => ?_, fun id => ?_, hsweeps⟩
  · rw [hlookup]
    split_ifs with heq
    · subst heq
      cases hj : s.jobs.lookup id with
      | none => rfl
      | some j => exact absurd (mem_lockFailureJobs.mpr ⟨j.sweep, by rw [hj]; rfl, .inl hseed⟩) hid
    · rfl
  · rw [hlookup]
    split_ifs with heq
    · rw [Option.map_map]
      exact congrArg (Option.map · _) (funext hf)
    · rfl

/-- **The end of an attempt stays within the locks of its job.** -/
theorem endAttempt_within {logged : Store} {own : JobRow → JobRow} {ended : AttemptRow → AttemptRow}
    {held : ReservationRow → ReservationRow} {author : Option Uuid} {body : EventBody}
    {failed : Prop} [Decidable failed]
    (hlogged : (s.endAttempt job attempt own ended held).appendEvent now job author body
      = .ok logged)
    (hlast : (if failed then applySweepFailFast logged now job else pure logged) = .ok s')
    (hown : ∀ j, (own j).sweep = j.sweep) (hseed : job ∈ jobIDs) : Within s jobIDs s' := by
  have hended : Within s jobIDs (s.endAttempt job attempt own ended held) :=
    .modify rfl rfl hown hseed
  have hnoted : Within s jobIDs logged := by
    refine hended.trans ?_
    obtain ⟨j, events, -, -, rfl⟩ := Store.appendEvent_eq_ok hlogged
    exact .modify (f := fun j => { j with eventSequence := j.eventSequence + 1 }) rfl rfl
      (fun _ => rfl) hseed
  split_ifs at hlast with hfailed
  · exact hnoted.trans (applySweepFailFast_within hlast hseed)
  · exact pure_ok.mp hlast ▸ hnoted

theorem fenceLostAttempt_within (h : fenceLostAttempt sha s now job attempt = .ok s')
    (hseed : job ∈ jobIDs) : Within s jobIDs s' := by
  obtain ⟨j, a, r, logged, -, -, -, -, -, hlogged, hlast⟩ := fenceLostAttempt_eq_ok h
  exact endAttempt_within hlogged hlast (fun _ => rfl) hseed

/-! ## The transactions -/

theorem reapOneExpiredAttempt_within {seen : Store} {observed : Time} {x : Bool × Bool}
    {candidate : AttemptRow} (hcandidate : reapCandidate seen observed = some (attempt, candidate))
    (h : reapOneExpiredAttempt sha s seen observed now = .ok (s', x)) :
    Within s [candidate.job] s' := by
  rw [reapOneExpiredAttempt, hcandidate] at h
  simp only [bind_ok, orThrow_ok] at h
  obtain ⟨j, -, a, -, h⟩ := h
  split at h
  · obtain ⟨rfl, -⟩ := pure_pair_ok.mp h
    exact .same rfl rfl
  · simp only [bind_ok, pure_pair_ok] at h
    obtain ⟨fenced, hfenced, rfl, -⟩ := h
    exact (fenceLostAttempt_within hfenced (List.mem_singleton.mpr rfl)).trans (.same rfl rfl)

theorem completeAttempt_within {completed : Time} {id : WorkerIdentity} {r : CompletionRequest}
    {result : CompletionResult} (h : completeAttempt sha s completed now id r = .ok (s', result)) :
    Within s [r.authority.jobID] s' := by
  obtain ⟨p, a, j, m, hcommits, -⟩ | ⟨rfl, -⟩ | ⟨rfl, -⟩ := completeAttempt_cases h
  · obtain ⟨recorded, hrecorded, hfinished⟩ := hcommits.finished
    obtain ⟨res, logged, -, -, hlogged, hlast⟩ := finishAttempt_eq_ok hfinished
    have hrest : recorded.jobs = s.jobs ∧ recorded.sweeps = s.sweeps := by
      simp only [recordCompletion, bind_ok, pure_ok] at hrecorded
      obtain ⟨rows, -, references, -, rfl⟩ := hrecorded
      exact ⟨rfl, rfl⟩
    exact (Within.same hrest.1 hrest.2).trans
      (endAttempt_within hlogged hlast (fun _ => rfl) (List.mem_singleton.mpr rfl))
  · exact .same rfl rfl
  · exact .same rfl rfl

/-- A fence keeps every reservation. -/
theorem fenceLostAttempt_reservations (h : fenceLostAttempt sha s now job attempt = .ok s')
    (id : Uuid) : (s'.reservations.lookup id).isSome = (s.reservations.lookup id).isSome := by
  obtain ⟨j, a, r, logged, -, -, -, -, -, hlogged, hlast⟩ := fenceLostAttempt_eq_ok h
  have hreservations : s'.reservations = logged.reservations := by
    split_ifs at hlast
    · rw [applySweepFailFast_rest hlast]
    · rw [pure_ok.mp hlast]
  rw [hreservations, (appendEvent_attempts hlogged).2, Store.fence, Store.endAttempt,
    Table.lookup_modify]
  split_ifs
  · rw [Option.isSome_map]
  · rfl

theorem mem_workerSeeds {worker : Uuid} {a : AttemptRow} {r : ReservationRow}
    (hj : s.jobs.lookup id = some j) (ha : s.attempts.lookup attempt = some a) (hjob : a.job = id)
    (hworker : a.worker = worker) (hactive : a.state.isActive = true)
    (hr : s.reservations.lookup attempt = some r) : id ∈ workerSeeds s worker := by
  refine List.mem_map.mpr ⟨(id, j), (Table.mem_select ..).mpr ⟨hj, ?_⟩, rfl⟩
  rw [List.any_eq_true]
  refine ⟨⟨attempt, a⟩, AList.mem_lookup_iff.mp ha, ?_⟩
  simp [hjob, hworker, hr, hactive]

theorem recoverSession_within {worker fromSession toSession : Uuid}
    (h : recoverSession sha s now worker fromSession toSession = .ok s') :
    Within s (workerSeeds s worker) s' := by
  obtain ⟨w, session, fenced, -, -, -, -, hfenced, rfl⟩ := recoverSession_eq_ok h
  -- Every job that is fenced was found by the query of the locks.
  have hwithin : Within s (workerSeeds s worker) fenced ∧
      ∀ id, (fenced.reservations.lookup id).isSome = (s.reservations.lookup id).isSome := by
    refine foldlM_invariant (fun u => Within s (workerSeeds s worker) u ∧
      ∀ id, (u.reservations.lookup id).isSome = (s.reservations.lookup id).isSome)
      ⟨.same rfl rfl, fun _ => rfl⟩ (fun u x u' hx hu hfence => ?_) hfenced
    obtain ⟨j, a, r, -, hj, -, -, hr, -⟩ := fenceLostAttempt_eq_ok hfence
    obtain ⟨ha, hworker, hactive⟩ := mem_workerAttempts.mp hx
    obtain ⟨r₀, hr₀⟩ := Option.isSome_iff_exists.mp ((hu.2 x.1).symm.trans (by rw [hr]; rfl))
    obtain ⟨j₀, hj₀, -⟩ :=
      Option.map_eq_some_iff.mp ((hu.1.members x.2.job).symm.trans (by rw [hj]; rfl))
    have hseed := mem_workerSeeds hj₀ ha rfl hworker hactive hr₀
    exact ⟨hu.1.trans (fenceLostAttempt_within hfence hseed),
      fun id => (fenceLostAttempt_reservations hfence id).trans (hu.2 id)⟩
  exact hwithin.1.trans (.same rfl rfl)

/-! ## The step itself -/

/-- The events of the siblings are new. -/
theorem insertStopEvents_fresh {events events' : Table (Uuid × ℕ) EventRow}
    {stopped : List (Uuid × JobRow)}
    (h : insertStopEvents now sweep failed events stopped = .ok events') :
    ∀ x ∈ stopped, events.lookup (x.1, x.2.eventSequence + 1) = none := by
  induction stopped generalizing events with
  | nil => exact fun x hx => absurd hx List.not_mem_nil
  | cons y stopped ih =>
    rw [insertStopEvents, List.foldlM_cons, bind_ok] at h
    obtain ⟨t, hturn, hrest⟩ := h
    obtain ⟨hfree, rfl⟩ := Table.insertNew_eq_some (orThrow_ok.mp hturn)
    intro x hx
    obtain rfl | hx := List.mem_cons.mp hx
    · exact hfree
    · have hlater := ih hrest x hx
      rw [Table.lookup_insert_ite] at hlater
      split_ifs at hlater with heq
      exact hlater

theorem insertStopEvents_total {events : Table (Uuid × ℕ) EventRow} {stopped : List (Uuid × JobRow)}
    (hnodup : (stopped.map Prod.fst).Nodup)
    (hfree : ∀ x ∈ stopped, events.lookup (x.1, x.2.eventSequence + 1) = none) :
    ∃ events', insertStopEvents now sweep failed events stopped = .ok events' := by
  induction stopped generalizing events with
  | nil => exact ⟨events, rfl⟩
  | cons y stopped ih =>
    rw [List.map_cons, List.nodup_cons] at hnodup
    have hturn : orThrow (events.insertNew (y.1, y.2.eventSequence + 1)
        (stopEvent now sweep failed y.2))
        StoreError.database = .ok (AList.insert (y.1, y.2.eventSequence + 1)
          (stopEvent now sweep failed y.2) events) := by
      rw [Table.insertNew_of_free _ (hfree y List.mem_cons_self), orThrow_some]
    suffices hrest : ∃ events', insertStopEvents now sweep failed (AList.insert
        (y.1, y.2.eventSequence + 1) (stopEvent now sweep failed y.2) events) stopped
        = .ok events' by
      obtain ⟨events', hevents⟩ := hrest
      exact ⟨events', bind_ok.mpr ⟨_, hturn, hevents⟩⟩
    refine ih hnodup.2 fun x hx => ?_
    have hne : (x.1, x.2.eventSequence + 1) ≠ (y.1, y.2.eventSequence + 1) := fun heq =>
      hnodup.1 (List.mem_map.mpr ⟨x, hx, (Prod.mk.inj heq).1⟩)
    rw [Table.lookup_insert_ite, if_neg hne]
    exact hfree x (List.mem_cons_of_mem _ hx)

theorem applySweepFailFast_total
    (hfree : ∀ id j, s.jobs.lookup id = some j → s.events.lookup (id, j.eventSequence + 1) = none)
    (now : Time) (failed : Uuid) : ∃ s', applySweepFailFast s now failed = .ok s' := by
  unfold applySweepFailFast
  split
  · exact ⟨s, rfl⟩
  · rename_i sweep cancelRunning _
    have htotal : ∃ events, insertStopEvents now sweep failed s.events
        (s.jobs.select (failFastCandidate failed sweep cancelRunning)) = .ok events :=
      insertStopEvents_total (Table.nodup_select_keys s.jobs _) fun x hx =>
        hfree x.1 x.2 ((Table.mem_select ..).mp hx).1
    obtain ⟨events, hevents⟩ := htotal
    exact ⟨_, by rw [hevents]; rfl⟩

/-- The siblings that the failure of `failed` stops. -/
def Halts (failed sweep : Uuid) (row : SweepRow) (id : Uuid) (j : JobRow) : Prop :=
  id ≠ failed ∧ j.sweep.map Prod.fst = some sweep ∧ (j.state = .queued ∨ j.state = .retryWait ∨
    j.state = .active ∧ row.cancelRunningOnFailure = true)

theorem failFastCandidate_iff_halts :
    failFastCandidate failed sweep row.cancelRunningOnFailure id j = true ↔
      Halts failed sweep row id j := by
  rw [failFastCandidate_iff, Halts]
  cases j.state <;> simp [JobState.isQueued]

theorem failFastPolicy_of {place : ℕ} {f : JobRow} (hf : s.jobs.lookup failed = some f)
    (hfailed : f.state = .failed) (hsweep : f.sweep = some (sweep, place))
    (hrow : s.sweeps.lookup sweep = some row) :
    failFastPolicy s failed
      = if row.failFast then some (sweep, row.cancelRunningOnFailure) else none := by
  simp only [failFastPolicy, hf, hfailed, hsweep, hrow, if_true]

/-- A sibling that is stopped. -/
theorem applySweepFailFast_halts (h : applySweepFailFast s now failed = .ok s')
    (hpolicy : failFastPolicy s failed = some (sweep, row.cancelRunningOnFailure))
    (hj : s.jobs.lookup id = some j) (hhalts : Halts failed sweep row id j) :
    s'.jobs.lookup id = some j.stop ∧ s.events.lookup (id, j.eventSequence + 1) = none ∧
      ∀ n, s'.events.lookup (id, n) = if n = j.eventSequence + 1 then
        some (stopEvent now sweep failed j) else s.events.lookup (id, n) := by
  have hcandidate := failFastCandidate_iff_halts.mpr hhalts
  rw [applySweepFailFast, hpolicy] at h
  simp only [bind_ok, pure_ok] at h
  obtain ⟨events, hevents, rfl⟩ := h
  have hmem := (Table.mem_select s.jobs
    (failFastCandidate failed sweep row.cancelRunningOnFailure) id j).mpr ⟨hj, hcandidate⟩
  refine ⟨by simp [hj, hcandidate], insertStopEvents_fresh hevents _ hmem, fun n => ?_⟩
  split_ifs with hn
  · subst hn
    exact insertStopEvents_own hevents hmem
  · refine insertStopEvents_other hevents fun k hk => ?_
    obtain rfl := Option.some.inj (hj.symm.trans ((Table.mem_select ..).mp hk).1)
    exact hn

/-- **The fail-fast step is exact.** When a child of a sweep has failed, a sweep
that is not fail-fast stays as it is. In one that is, each sibling that waits is
cancelled, each that runs is asked to stop if the sweep says so, each of these
has one more event, under its next number, with the state it was in and the
state it is in now, and no other row of the database changes. The step succeeds
on every store whose events are numbered without gaps. The jobs that change in
the three transactions that make this step are among those that were locked at
their start. -/
theorem fail_fast_exact (sha : Uuid → ℕ) {s : Store} (now : Time) {failed sweep : Uuid} {place : ℕ}
    {f : JobRow} {row : SweepRow} (hf : s.jobs.lookup failed = some f) (hfailed : f.state = .failed)
    (hsweep : f.sweep = some (sweep, place)) (hrow : s.sweeps.lookup sweep = some row) :
    (Chronicled s → ∃ s', applySweepFailFast s now failed = .ok s') ∧
    (∀ s', applySweepFailFast s now failed = .ok s' →
      (row.failFast = false → s' = s) ∧
      (row.failFast = true →
        s' = { s with jobs := s'.jobs, events := s'.events } ∧
        (∀ id j, s.jobs.lookup id = some j → Halts failed sweep row id j →
          s'.jobs.lookup id = some { j with
            state := if j.state = .active then .cancelling else .cancelled
            cancelRequested := true
            eventSequence := j.eventSequence + 1 } ∧
          s.events.lookup (id, j.eventSequence + 1) = none ∧
          ∀ n, s'.events.lookup (id, n) = if n = j.eventSequence + 1 then
            some ⟨none, .sweepFailFast sweep failed j.state
              (if j.state = .active then .cancelling else .cancelled), now⟩
            else s.events.lookup (id, n)) ∧
        ∀ id, (∀ j, s.jobs.lookup id = some j → ¬ Halts failed sweep row id j) →
          s'.jobs.lookup id = s.jobs.lookup id ∧
            ∀ n, s'.events.lookup (id, n) = s.events.lookup (id, n))) ∧
    (∀ s' seen observed found attempt candidate,
      reapCandidate seen observed = some (attempt, candidate) →
      reapOneExpiredAttempt sha s seen observed now = .ok (s', found) →
      ∀ id, s'.jobs.lookup id ≠ s.jobs.lookup id → id ∈ lockFailureJobs s [candidate.job]) ∧
    (∀ s' completed identity r result,
      completeAttempt sha s completed now identity r = .ok (s', result) →
      ∀ id, s'.jobs.lookup id ≠ s.jobs.lookup id → id ∈ lockFailureJobs s [r.authority.jobID]) ∧
    ∀ s' worker fromSession toSession,
      recoverSession sha s now worker fromSession toSession = .ok s' →
      ∀ id, s'.jobs.lookup id ≠ s.jobs.lookup id → id ∈ lockWorkerAttempts s worker := by
  have hpolicy := failFastPolicy_of hf hfailed hsweep hrow
  have hlocked : ∀ {s' jobIDs}, Within s jobIDs s' → ∀ id, s'.jobs.lookup id ≠ s.jobs.lookup id →
      id ∈ lockFailureJobs s jobIDs := fun hwithin id hne => by
    by_contra hnot
    exact hne (hwithin.jobs id hnot)
  refine ⟨fun h => applySweepFailFast_total
      (fun _ _ hj => h.unwritten hj (Nat.lt_succ_self _)) now failed,
    fun s' h => ⟨fun hslow => ?_, fun hfast => ?_⟩,
    fun s' seen observed found attempt candidate hcandidate h =>
      hlocked (reapOneExpiredAttempt_within hcandidate h),
    fun s' completed identity r result h => hlocked (completeAttempt_within h),
    fun s' worker fromSession toSession h => hlocked (recoverSession_within h)⟩
  · rw [applySweepFailFast, hpolicy, hslow] at h
    exact (pure_ok.mp h).symm
  have hstops : failFastPolicy s failed = some (sweep, row.cancelRunningOnFailure) := by
    rw [hpolicy, hfast]
    rfl
  refine ⟨applySweepFailFast_rest h, fun id j hj hhalts => ?_, fun id hspared => ?_⟩
  · exact applySweepFailFast_halts h hstops hj hhalts
  · cases hj : s.jobs.lookup id with
    | none => exact applySweepFailFast_none h hj
    | some j =>
      obtain hsame | ⟨sweep', cancelRunning, hpolicy', hcandidate, -⟩ := applySweepFailFast_job h hj
      · exact hsame
      · obtain ⟨rfl, rfl⟩ := Prod.mk.inj (Option.some.inj (hstops.symm.trans hpolicy'))
        exact absurd (failFastCandidate_iff_halts.mp hcandidate) (hspared j hj)

namespace Sample

/-- Three children, of which the host has room for two. -/
def trio : List (Time × Op) :=
  seated 1 second ++
    [(second, .submitSweep 1 (· + 1) "k" (String.ofList (List.replicate 64 '0'))
        { Sample.sweep true with
          matrix := AList.insert "SEED" ["1", "2", "3"] ∅
          maxConcurrent := 3 } []),
      (second, .acquire second second identity ⟨1, 1⟩ ⟨false⟩ 1),
      (second, .acquire second second identity ⟨1, 2⟩ ⟨false⟩ 2)]

/-- The store when the first child has just failed. -/
def failing (s : Store) : Store :=
  { s with jobs := s.jobs.modify 1 (fun j => { j with state := .failed }) }

end Sample

/-- Job 1 has failed, job 2 runs and job 3 waits: job 2 is asked to stop, job 3 is
cancelled, and both are told. -/
theorem sample_fail_fast_exact : ∃ (s s' : Store) (f j k : JobRow),
    s.jobs.lookup 1 = some f ∧ f.state = .failed ∧ s.jobs.lookup 2 = some j ∧ j.state = .active ∧
    s.jobs.lookup 3 = some k ∧ k.state = .queued ∧ applySweepFailFast s (2 * second) 1 = .ok s' ∧
    s'.jobs.lookup 2 = some { j with
      state := .cancelling, cancelRequested := true, eventSequence := j.eventSequence + 1 } ∧
    s'.jobs.lookup 3 = some { k with
      state := .cancelled, cancelRequested := true, eventSequence := k.eventSequence + 1 } ∧
    s'.events.lookup (3, k.eventSequence + 1)
      = some ⟨none, .sweepFailFast 1 1 .queued .cancelled, 2 * second⟩ := by
  obtain ⟨w, -, hp⟩ := Sample.reaches Sample.seated_reachable (Sample.trio.drop 2) (fun w =>
    ((Sample.failing w.store).jobs.lookup 1).any (fun f : JobRow =>
      decide (f.state = .failed ∧ f.sweep = some (1, 0))) &&
    ((Sample.failing w.store).jobs.lookup 2).any (fun j : JobRow =>
      decide (j.state = .active ∧ j.sweep.map Prod.fst = some 1)) &&
    ((Sample.failing w.store).jobs.lookup 3).any (fun k : JobRow =>
      decide (k.state = .queued ∧ k.sweep.map Prod.fst = some 1)) &&
    ((Sample.failing w.store).sweeps.lookup 1).any (fun row : SweepRow =>
      row.failFast && row.cancelRunningOnFailure) &&
    (applySweepFailFast (Sample.failing w.store) (2 * second) 1).toOption.isSome)
    (by decide +kernel)
  simp only [Bool.and_eq_true, Option.any_eq_true, Option.isSome_iff_exists,
    decide_eq_true_eq] at hp
  obtain ⟨⟨⟨⟨⟨f, hf, hfailed, hsweep⟩, j, hj, hactive, hj'⟩, k, hk, hqueued, hk'⟩, row, hrow, hfast,
    hstops⟩, s', hs'⟩ := hp
  have hs' := toOption_eq_some.mp hs'
  obtain ⟨-, hexact, -⟩ := fail_fast_exact Sample.sha (2 * second) hf hfailed hsweep hrow
  obtain ⟨-, hhalts, -⟩ := (hexact s' hs').2 hfast
  obtain ⟨hasked, -⟩ := hhalts 2 j hj ⟨by decide, hj', .inr (.inr ⟨hactive, hstops⟩)⟩
  obtain ⟨hcancelled, -, htold⟩ := hhalts 3 k hk ⟨by decide, hk', .inl hqueued⟩
  rw [if_pos hactive] at hasked
  rw [hqueued] at hcancelled
  have htold := htold (k.eventSequence + 1)
  rw [if_pos rfl, hqueued] at htold
  exact ⟨_, s', f, j, k, hf, hfailed, hj, hactive, hk, hqueued, hs', hasked, hcancelled, htold⟩

end Dispatch
