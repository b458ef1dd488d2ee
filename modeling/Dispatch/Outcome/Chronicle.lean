import Dispatch.Ledger.Transactions
import Dispatch.Lib.Chronicle
import Dispatch.Store.Footprint

/-!
# The history of a job

Every transaction that moves a job writes an event, and so do the reports of
its attempts. The count of events is a column of the job; the event goes under
the next number. Thirteen transactions do this, one of them for many jobs in one
statement, so the promise that histories have no gaps is a promise about each of
them: the counter and the event move together, and the event names the state the
job is left in.

`Store.Records` is what all of them have in common. A job is left alone, or it
has one more event, which was made for the state the job was in and tells the
state it is in now. A job that is not there yet has no events and counts as
queued, so that an admission is a record like any other.
-/

namespace Dispatch

open Txn

variable {id job sweep failed attempt : Uuid} {j : JobRow} {body : EventBody} {key : String}

variable {sha : Uuid → ℕ} {op : Op} {now : Time} {s s' t : Store}

/-! ## Records -/

/-- The events of a job by number. -/
def Store.history (s : Store) (job : Uuid) (n : ℕ) : Option EventBody :=
  (s.events.lookup (job, n)).map EventRow.body

/-- The number of events of a job, and its state. -/
def Store.tally (s : Store) (job : Uuid) : ℕ × JobState :=
  match s.jobs.lookup job with
  | some j => (j.eventSequence, j.state)
  | none => (0, .queued)

theorem Store.tally_some (h : s.jobs.lookup job = some j) : s.tally job = (j.eventSequence, j.state)
    := by
  rw [Store.tally, h]

theorem Store.tally_none (h : s.jobs.lookup job = none) : s.tally job = (0, .queued) := by
  rw [Store.tally, h]

/-- **Every history is true**: gapless, and it ends in the state of the job. -/
def Chronicled (s : Store) : Prop :=
  ∀ job, Chronicle.Tells EventBody.next .queued (s.history job) (s.tally job).1 (s.tally job).2

/-- Beyond its count a job has no event. -/
theorem Chronicled.unwritten (h : Chronicled s) (hj : s.jobs.lookup job = some j) {n : ℕ}
    (hn : j.eventSequence < n) : s.events.lookup (job, n) = none := by
  by_contra hne
  have hsome : s.history job n ≠ none := fun hnone => hne (Option.map_eq_none_iff.mp hnone)
  have hle := (((h job).numbers n).mp hsome).2
  rw [Store.tally_some hj] at hle
  exact absurd hn (not_lt.mpr hle)

/-- One more event of a job, which tells what became of it. -/
def Store.RecordsOne (s s' : Store) (job : Uuid) : Prop :=
  ∃ body, body.next (s.tally job).2 = some (s'.tally job).2 ∧
    (s'.tally job).1 = (s.tally job).1 + 1 ∧
    ∀ n, s'.history job n = if n = (s.tally job).1 + 1 then some body else s.history job n

/-- **Every job is left alone or has one more event.** -/
def Store.Records (s s' : Store) : Prop :=
  ∀ job, (s'.tally job = s.tally job ∧ ∀ n, s'.history job n = s.history job n) ∨
    s.RecordsOne s' job

/-- **Records keep histories true.** -/
theorem Chronicled.records (h : Chronicled s) (hrecords : s.Records s') : Chronicled s' := by
  intro job
  obtain ⟨htally, hhistory⟩ | ⟨body, hnext, hcount, hhistory⟩ := hrecords job
  · rw [htally, funext hhistory]
    exact h job
  · rw [hcount]
    exact (h job).record hnext hhistory

/-- Neither jobs nor events change. -/
theorem Chronicled.same (h : Chronicled s) (hjobs : s'.jobs = s.jobs)
    (hevents : s'.events = s.events) : Chronicled s' := by
  intro job
  have htally : s'.tally job = s.tally job := by rw [Store.tally, Store.tally, hjobs]
  have hhistory : s'.history job = s.history job := by
    funext n
    rw [Store.history, Store.history, hevents]
  rw [htally, hhistory]
  exact h job

/-- **The event of a change**: the job was moved first, and its event follows. -/
theorem appendEvent_records {attempt : Option Uuid} {k : JobRow}
    (h : t.appendEvent now job attempt body = .ok s') (hevents : t.events = s.events)
    (hothers : ∀ id, id ≠ job → t.jobs.lookup id = s.jobs.lookup id)
    (hj : s.jobs.lookup job = some j) (hk : t.jobs.lookup job = some k)
    (hcount : k.eventSequence = j.eventSequence) (hnext : body.next j.state = some k.state) :
    s.Records s' := by
  obtain ⟨row, events, hrow, hinsert, rfl⟩ := Store.appendEvent_eq_ok h
  obtain rfl := Option.mem_unique hk hrow
  obtain ⟨-, rfl⟩ := Table.insertNew_eq_some hinsert
  intro id
  by_cases hid : id = job
  · subst hid
    refine .inr ⟨body, ?_, ?_, fun n => ?_⟩
    · rw [Store.tally_some hj, Store.tally_some (j := { k with
        eventSequence := k.eventSequence + 1 }) (by simp [hk])]
      exact hnext
    · rw [Store.tally_some hj, Store.tally_some (j := { k with
        eventSequence := k.eventSequence + 1 }) (by simp [hk]), hcount]
    · rw [Store.history, Store.history, Store.tally_some hj, Table.lookup_insert_ite, hcount,
        hevents]
      by_cases hn : n = j.eventSequence + 1
      · rw [if_pos hn, if_pos (by rw [hn])]
        rfl
      · rw [if_neg hn, if_neg fun hkey => hn (Prod.mk.inj hkey).2]
  · refine .inl ⟨?_, fun n => ?_⟩
    · rw [Store.tally, Store.tally, Table.lookup_modify, if_neg hid, hothers id hid]
    · rw [Store.history, Store.history, Table.lookup_insert_ite,
        if_neg fun hkey => hid (Prod.mk.inj hkey).1, hevents]

/-- An event that moves no job. -/
theorem appendEvent_quiet {attempt : Option Uuid} (h : s.appendEvent now job attempt body = .ok s')
    (hquiet : ∀ state, body.next state = some state) : s.Records s' := by
  obtain ⟨j, -, hj, -, -⟩ := Store.appendEvent_eq_ok h
  exact appendEvent_records h rfl (fun _ _ => rfl) hj hj rfl (hquiet j.state)

/-- **An admission is the first record of its job.** -/
theorem insertJob_records {row : JobRow} {parent : Option (Uuid × Uuid)}
    (h : s.insertJob now id row parent = .ok s') (hstate : row.state = .queued)
    (hcount : row.eventSequence = 1) : s.Records s' := by
  simp only [Store.insertJob, bind_ok, require_ok, orThrow_ok, pure_ok] at h
  obtain ⟨-, -, jobs, hjobs, events, hevents, rfl⟩ := h
  obtain ⟨hfree, rfl⟩ := Table.insertNew_eq_some hjobs
  obtain ⟨-, rfl⟩ := Table.insertNew_eq_some hevents
  intro job
  by_cases hid : job = id
  · subst hid
    have htally : Store.tally { s with
        jobs := AList.insert job row s.jobs
        events := AList.insert (job, 1) ⟨none, .submitted row.specHash parent, now⟩ s.events } job
        = (1, .queued) := by
      rw [Store.tally_some (j := row) (by simp), hstate, hcount]
    refine .inr ⟨.submitted row.specHash parent, ?_, ?_, fun n => ?_⟩
    · rw [htally, Store.tally_none hfree]
      rfl
    · rw [htally, Store.tally_none hfree]
    · rw [Store.history, Store.history, Store.tally_none hfree, Table.lookup_insert_ite]
      by_cases hn : n = 1
      · rw [if_pos hn, if_pos (by rw [hn])]
        rfl
      · rw [if_neg hn, if_neg fun hkey => hn (Prod.mk.inj hkey).2]
  · refine .inl ⟨?_, fun n => ?_⟩
    · rw [Store.tally, Store.tally, Table.lookup_insert_ite, if_neg hid]
    · rw [Store.history, Store.history, Table.lookup_insert_ite,
        if_neg fun hkey => hid (Prod.mk.inj hkey).1]

/-! ## The stop of a sweep -/

/-- The event of a sibling that is stopped. -/
def stopEvent (now : Time) (sweep failed : Uuid) (j : JobRow) : EventRow :=
  ⟨none, .sweepFailFast sweep failed j.state j.stop.state, now⟩

/-- Every sibling stopped has its event, under the number after its last. -/
theorem insertStopEvents_own {events events' : Table (Uuid × ℕ) EventRow}
    {stopped : List (Uuid × JobRow)}
    (h : insertStopEvents now sweep failed events stopped = .ok events')
    (hmem : (id, j) ∈ stopped) :
    events'.lookup (id, j.eventSequence + 1) = some (stopEvent now sweep failed j) := by
  refine foldlM_forall (fun x (t : Table (Uuid × ℕ) EventRow) =>
    t.lookup (x.1, x.2.eventSequence + 1) = some (stopEvent now sweep failed x.2))
    (fun t x t' hturn => ?_) (fun t x t' hturn y hy => ?_) h (id, j) hmem
  · obtain ⟨-, rfl⟩ := Table.insertNew_eq_some (orThrow_ok.mp hturn)
    exact AList.lookup_insert _
  · obtain ⟨hfree, rfl⟩ := Table.insertNew_eq_some (orThrow_ok.mp hturn)
    exact Table.Extends.insert _ hfree _ _ hy

/-- No other event is written. -/
theorem insertStopEvents_other {events events' : Table (Uuid × ℕ) EventRow}
    {stopped : List (Uuid × JobRow)}
    (h : insertStopEvents now sweep failed events stopped = .ok events') {n : ℕ}
    (hnot : ∀ j, (id, j) ∈ stopped → n ≠ j.eventSequence + 1) :
    events'.lookup (id, n) = events.lookup (id, n) := by
  refine foldlM_invariant (fun t : Table (Uuid × ℕ) EventRow =>
    t.lookup (id, n) = events.lookup (id, n)) rfl (fun t x t' hx ht hturn => ?_) h
  obtain ⟨-, rfl⟩ := Table.insertNew_eq_some (orThrow_ok.mp hturn)
  rw [Table.lookup_insert_ite, if_neg, ht]
  intro hkey
  obtain ⟨hid, hn⟩ := Prod.mk.inj hkey
  exact hnot x.2 (by rw [hid]; exact hx) hn

/-- **What the stop of a sweep does to a job**: nothing, or it stops it and says
so in one event. -/
theorem applySweepFailFast_job (h : applySweepFailFast s now failed = .ok s')
    (hj : s.jobs.lookup job = some j) :
    (s'.jobs.lookup job = some j ∧ ∀ n, s'.events.lookup (job, n) = s.events.lookup (job, n)) ∨
      ∃ sweep cancelRunning, failFastPolicy s failed = some (sweep, cancelRunning) ∧
        failFastCandidate failed sweep cancelRunning job j = true ∧
        s'.jobs.lookup job = some j.stop ∧
        ∀ n, s'.events.lookup (job, n) = if n = j.eventSequence + 1 then
          some (stopEvent now sweep failed j) else s.events.lookup (job, n) := by
  unfold applySweepFailFast at h
  split at h
  · obtain rfl := pure_ok.mp h
    exact .inl ⟨hj, fun _ => rfl⟩
  rename_i sweep cancelRunning hpolicy
  simp only [bind_ok, pure_ok] at h
  obtain ⟨events, hevents, rfl⟩ := h
  have honly : ∀ k, (job, k) ∈ s.jobs.select (failFastCandidate failed sweep cancelRunning) →
      k = j ∧ failFastCandidate failed sweep cancelRunning job j = true := by
    intro k hmem
    obtain ⟨hk, hcandidate⟩ := (Table.mem_select ..).mp hmem
    obtain rfl := Option.mem_unique hj hk
    exact ⟨rfl, hcandidate⟩
  by_cases hcandidate : failFastCandidate failed sweep cancelRunning job j = true
  · refine .inr ⟨sweep, cancelRunning, hpolicy, hcandidate, by simp [hj, hcandidate], fun n => ?_⟩
    split_ifs with hn
    · subst hn
      exact insertStopEvents_own hevents ((Table.mem_select ..).mpr ⟨hj, hcandidate⟩)
    · refine insertStopEvents_other hevents fun k hmem => ?_
      rwa [(honly k hmem).1]
  · refine .inl ⟨by simp [hj, hcandidate], fun n => ?_⟩
    exact insertStopEvents_other hevents fun k hmem => absurd (honly k hmem).2 hcandidate

/-- A job that is not there is not stopped. -/
theorem applySweepFailFast_none (h : applySweepFailFast s now failed = .ok s')
    (hj : s.jobs.lookup job = none) :
    s'.jobs.lookup job = none ∧ ∀ n, s'.events.lookup (job, n) = s.events.lookup (job, n) := by
  unfold applySweepFailFast at h
  split at h
  · obtain rfl := pure_ok.mp h
    exact ⟨hj, fun _ => rfl⟩
  simp only [bind_ok, pure_ok] at h
  obtain ⟨events, hevents, rfl⟩ := h
  refine ⟨by simp [hj], fun n => insertStopEvents_other hevents fun j hmem => ?_⟩
  exact absurd (hj.symm.trans ((Table.mem_select ..).mp hmem).1) (by simp)

/-- **The stop of a sweep is one record for each sibling it stops.** -/
theorem applySweepFailFast_records (h : applySweepFailFast s now failed = .ok s') : s.Records s'
    := by
  intro job
  cases hj : s.jobs.lookup job with
  | none =>
    obtain ⟨hnone, hevents⟩ := applySweepFailFast_none h hj
    exact .inl ⟨by rw [Store.tally_none hnone, Store.tally_none hj],
      fun n => congrArg _ (hevents n)⟩
  | some j =>
    obtain ⟨hsame, hevents⟩ | ⟨sweep, cancelRunning, -, -, hstopped, hevents⟩ :=
      applySweepFailFast_job h hj
    · exact .inl ⟨by rw [Store.tally_some hsame, Store.tally_some hj],
        fun n => congrArg _ (hevents n)⟩
    · rw [Store.RecordsOne, Store.tally_some hj, Store.tally_some hstopped]
      refine .inr ⟨.sweepFailFast sweep failed j.state j.stop.state, by simp [EventBody.next], rfl,
        fun n => ?_⟩
      rw [Store.history, hevents]
      split_ifs <;> rfl

/-! ## The transactions -/

/-- The end of an attempt: the event of its job, and the stop of the sweep. -/
theorem endAttempt_chronicled {logged : Store} {own : JobRow → JobRow}
    {ended : AttemptRow → AttemptRow} {settled : ReservationRow → ReservationRow} {next : JobState}
    (h : Chronicled s) (hj : s.jobs.lookup job = some j)
    (hlogged : (s.endAttempt job attempt own ended settled).appendEvent now job (some attempt) body
      = .ok logged) (hcount : (own j).eventSequence = j.eventSequence)
    (hnext : body.next j.state = some (own j).state)
    (hlast : (if next = .failed then applySweepFailFast logged now job else pure logged) = .ok s') :
    Chronicled s' := by
  have hend : Chronicled logged := by
    refine h.records (appendEvent_records hlogged rfl (fun id hid => ?_) hj (k := own j) ?_ hcount
      hnext)
    · simp [Store.endAttempt, hid]
    · simp [Store.endAttempt, hj]
  obtain hstop | rfl := failFast_cases hlast
  · exact hend.records (applySweepFailFast_records hstop)
  · exact hend

/-- The event of a fence tells what becomes of the job. -/
theorem fenceOutcome_event (sha : Uuid → ℕ) (j : JobRow) (a : AttemptRow) (attempt : Uuid)
    (now : Time) (reason : Reason) (after state : JobState) (eligible : Time) :
    ((fenceOutcome sha j a attempt now).event reason after eligible).next state = some after := by
  unfold fenceOutcome
  by_cases hcancel : j.cancelRequested = true
  · rw [if_pos hcancel]
    rfl
  · rw [if_neg hcancel]
    split
    · rfl
    · split_ifs <;> rfl

theorem fenceLostAttempt_chronicled (h : Chronicled s)
    (hfence : fenceLostAttempt sha s now job attempt = .ok s') : Chronicled s' := by
  obtain ⟨j, a, r, logged, hj, -, -, -, -, hlogged, hlast⟩ := fenceLostAttempt_eq_ok hfence
  exact endAttempt_chronicled h hj hlogged rfl (fenceOutcome_event ..) hlast

theorem finishAttempt_chronicled {completed : Time} {r : CompletionRequest} {p : CompletionPayload}
    {out : CompletionOutcome} {m : ResultManifest} (h : Chronicled s)
    (hj : s.jobs.lookup r.authority.jobID = some j)
    (hfinish : finishAttempt s completed now r p out m = .ok s') : Chronicled s' := by
  obtain ⟨res, logged, -, -, hlogged, hlast⟩ := finishAttempt_eq_ok hfinish
  exact endAttempt_chronicled h hj hlogged rfl rfl hlast

/-- A change that writes neither jobs nor events. -/
theorem Chronicled.writes {ts : List TableName} (h : Chronicled s) (hwrites : Writes ts s s')
    (hjobs : TableName.jobs ∉ ts) (hevents : TableName.events ∉ ts) : Chronicled s' :=
  h.same (hwrites .jobs hjobs) (hwrites .events hevents)

theorem Filings.chronicled (hfilings : Filings s s')
    (h : Chronicled s) : Chronicled s' := by
  induction hfilings with
  | refl => exact h
  | tail _ hentry ih =>
    cases hentry with
    | note hledger hevents _ _ => exact ih.same (congrArg (fun x => x.1) hledger) hevents
    | event hlogged hquiet => exact ih.records (appendEvent_quiet hlogged hquiet)
    | upload _ => exact ih.same rfl rfl
    | artifact _ => exact ih.same rfl rfl

theorem Enrolments.chronicled (h : Enrolments t now s s') (hs : Chronicled s) :
    Chronicled s' := by
  induction h with
  | refl => exact hs
  | tail _ hone ih =>
    cases hone with
    | key _ _ => exact ih.same rfl rfl
    | job h _ => exact ih.records (insertJob_records h rfl rfl)
    | input _ => exact ih.same rfl rfl

theorem requestCancellation_chronicled {project : Uuid} (h : Chronicled s)
    (hcancel : requestCancellation s now project job = .ok s') : Chronicled s' := by
  simp only [requestCancellation, bind_ok, orThrow_ok] at hcancel
  obtain ⟨-, -, j, hj, -, -, hcancel⟩ := hcancel
  split at hcancel
  · refine h.records (appendEvent_records hcancel rfl (fun id hid => ?_) hj (k := { j with
      state := if j.state = .active then .cancelling else .cancelled
      cancelRequested := true }) ?_ rfl ?_)
    · simp [hid]
    · simp [hj]
    · simp [EventBody.next]
  · obtain rfl := pure_ok.mp hcancel
    exact h

theorem acquireWork_chronicled {observed queueNow : Time} {id : WorkerIdentity}
    {request : AcquisitionRequest} {policy : AcquisitionPolicy} {x : AcquisitionResult}
    (h : Chronicled s)
    (hacquire : acquireWork s observed queueNow now id request policy attempt = .ok (s', x)) :
    Chronicled s' := by
  cases acquireWork_acquired hacquire with
  | replayed => exact h
  | repeated => exact h
  | refused blockers sequence reason hkey hnotes =>
    exact h.same rfl rfl
  | assigned blockers sequence assigned job j host p inputs hkey hnotes hassignable hinputs
        hassigned =>
    simp only [assignJob, bind_ok] at hassigned
    obtain ⟨attempts, -, reservations, -, hlogged⟩ := hassigned
    have hfound : s.jobs.lookup job = some j := hassignable.found
    have hassigned : Chronicled assigned := by
      refine h.records (appendEvent_records hlogged rfl (fun id hid => ?_) hfound
        (k := { j with
          state := .active
          currentAttempt := some attempt
          attemptCounter := j.attemptCounter + 1 }) ?_ rfl ?_)
      · simp [Store.observing, hid]
      · simp [Store.observing, hfound]
      · simp [EventBody.next, hassignable.queued]
    exact hassigned.same rfl rfl

theorem reportPhase_chronicled {seen : Store} {id : WorkerIdentity} {r : PhaseReport}
    {x : MutationResult} (h : Chronicled s) (hreport : reportPhase s seen now id r = .ok (s', x)) :
    Chronicled s' := by
  obtain ⟨rfl, -⟩ | ⟨a, j, deadline, -, -, ⟨-, rfl⟩ | ⟨-, hlogged⟩⟩ := reportPhase_cases hreport
  · exact h
  · exact h.same rfl rfl
  · refine Chronicled.records ?_ (appendEvent_quiet hlogged fun _ => rfl)
    exact h.same rfl rfl

theorem completeAttempt_chronicled {completed : Time} {id : WorkerIdentity} {r : CompletionRequest}
    {x : CompletionResult} (h : Chronicled s)
    (hcomplete : completeAttempt sha s completed now id r = .ok (s', x)) : Chronicled s' := by
  obtain ⟨p, a, j, m, hcommits, -⟩ | ⟨rfl, -⟩ | ⟨rfl, -⟩ := completeAttempt_cases hcomplete
  · obtain ⟨recorded, hrecorded, hfinished⟩ := hcommits.finished
    have hjob : a.job = r.authority.jobID := congrArg AttemptAuthority.jobID hcommits.authority
    simp only [recordCompletion, bind_ok, pure_ok] at hrecorded
    obtain ⟨rows, -, references, -, rfl⟩ := hrecorded
    refine finishAttempt_chronicled ?_ (hjob ▸ hcommits.job) hfinished
    exact h.same rfl rfl
  · exact h
  · exact h

theorem registerSession_chronicled {id : WorkerIdentity} {r : Registration} {x : Session}
    (h : Chronicled s) (hregister : registerSession sha s now id r = .ok (s', x)) :
    Chronicled s' := by
  have hrecord : ∀ (t : Store) hash, Chronicled t →
      Chronicled (t.recordRegistration id.workerID r.requestID hash) := by
    intro t hash ht
    unfold Store.recordRegistration
    split_ifs
    · exact ht
    · exact ht.same rfl rfl
  have hinstalled : ∀ (t : Store) hash, Chronicled t →
      installSession t now id.workerID r.requestID hash = .ok (s', x) → Chronicled s' := by
    intro t hash ht hinstall
    simp only [installSession, bind_ok, pure_pair_ok] at hinstall
    obtain ⟨sessions, -, rfl, -⟩ := hinstall
    refine hrecord _ _ ?_
    exact ht.same rfl rfl
  simp only [registerSession, bind_ok] at hregister
  obtain ⟨hash, -, -, -, -, -, w, -, -, -, -, -, hregister⟩ := hregister
  split at hregister
  · split_ifs at hregister
    · simp only [bind_ok, pure_pair_ok] at hregister
      obtain ⟨-, -, -, -, rfl, -⟩ := hregister
      exact hrecord s hash h
  · split at hregister
    · simp only [bind_ok] at hregister
      obtain ⟨recovered, hrecovered, hinstall⟩ := hregister
      obtain ⟨_, _, fenced, -, -, -, -, hfenced, rfl⟩ := recoverSession_eq_ok hrecovered
      have hkept : Chronicled fenced := foldlM_invariant Chronicled h
        (fun t x t' _ ht hturn => fenceLostAttempt_chronicled ht hturn) hfenced
      refine hinstalled _ hash ?_ hinstall
      exact hkept.same rfl rfl
    · exact hinstalled s hash h hregister

/-- **Every transaction keeps histories true.** -/
theorem Op.exec_chronicled {reply : Reply} (h : Chronicled s)
    (hexec : op.exec sha s now = .ok (s', reply)) : Chronicled s' := by
  have hwrites := op.exec_writes hexec
  have hran := hexec
  cases op
  all_goals simp only [Op.exec, bind_ok, orThrow_ok, pure_pair_ok] at hexec
  case submitJob =>
    obtain ⟨⟨t, _⟩, ht, rfl, -⟩ := hexec
    exact (submitJobResolved_enrolments ht).chronicled h
  case submitSweep =>
    obtain ⟨⟨t, _⟩, ht, rfl, -⟩ := hexec
    exact (submitSweepResolved_enrolments ht).chronicled h
  case retrySweep =>
    obtain ⟨⟨t, _⟩, ht, rfl, -⟩ := hexec
    exact (retrySweep_enrolments ht).chronicled h
  case cancel =>
    obtain ⟨t, ht, rfl, -⟩ := hexec
    exact requestCancellation_chronicled h ht
  case acquire =>
    obtain ⟨⟨t, _⟩, ht, rfl, -⟩ := hexec
    exact acquireWork_chronicled h ht
  case phase =>
    obtain ⟨⟨t, _⟩, ht, rfl, -⟩ := hexec
    exact reportPhase_chronicled h ht
  case createUpload | bindMultipart | completeMultipart | finalizeUpload =>
    exact (Op.exec_filings hran rfl (by simp only [Op.footprint]; decide)).chronicled h
  case complete =>
    obtain ⟨⟨t, _⟩, ht, rfl, -⟩ := hexec
    exact completeAttempt_chronicled h ht
  case reap =>
    obtain ⟨⟨t, _⟩, ht, rfl, -⟩ := hexec
    obtain rfl | ⟨job, attempt, a, fenced, -, hfenced, rfl⟩ := reapOneExpiredAttempt_cases ht
    · exact h
    · exact (fenceLostAttempt_chronicled h hfenced).same rfl rfl
  case register =>
    obtain ⟨⟨t, _⟩, ht, rfl, -⟩ := hexec
    exact registerSession_chronicled h ht
  -- The others write neither jobs nor events.
  all_goals refine h.writes hwrites ?_ ?_ <;> simp only [Op.footprint] <;> decide

/-- **Every history is true in every run.** -/
theorem Reachable.chronicled {w : World} (h : Reachable sha w) : Chronicled w.store := by
  induction h with
  | start projects workers credentials workerProjects clock =>
    exact fun job => .empty fun _ => rfl
  | step _ hstep ih =>
    obtain ⟨-, op, reply, hexec⟩ := hstep
    exact op.exec_chronicled ih hexec

/-- **Job history is gapless.** In every state a run reaches, the events of a job
are numbered from one to its `event_sequence`, each number once, and the state
changes they record, read in order from `QUEUED`, end in the job's state. A
transaction that fails is rolled back and leaves neither. -/
theorem reachable_history {w : World} (h : Reachable sha w) {job : Uuid} {j : JobRow}
    (hj : w.store.jobs.lookup job = some j) :
    (∀ n, w.store.events.lookup (job, n) ≠ none ↔ 1 ≤ n ∧ n ≤ j.eventSequence) ∧
      Chronicle.replay EventBody.next .queued (w.store.history job) j.eventSequence
        = some j.state := by
  have htells := h.chronicled job
  rw [Store.tally_some hj] at htells
  refine ⟨fun n => ?_, htells.replayed⟩
  rw [← htells.numbers n, Store.history, ne_eq, ne_eq, Option.map_eq_none_iff]

/-- A job that was submitted and assigned has two events. -/
theorem sample_history : ∃ w j, Reachable Sample.sha w ∧ w.store.jobs.lookup 1 = some j ∧
    j.eventSequence = 2 ∧ j.state = .active ∧
    (∀ n, w.store.events.lookup (1, n) ≠ none ↔ 1 ≤ n ∧ n ≤ j.eventSequence) ∧
    Chronicle.replay EventBody.next .queued (w.store.history 1) j.eventSequence = some j.state := by
  obtain ⟨w, hw, hp⟩ := Sample.reaches Sample.assigned_reachable []
    (fun w => (w.store.jobs.lookup 1).any (fun j : JobRow =>
      decide (j.eventSequence = 2) && decide (j.state = .active))) (by decide +kernel)
  simp only [Option.any_eq_true, Bool.and_eq_true, decide_eq_true_eq] at hp
  obtain ⟨j, hj, hp⟩ := hp
  exact ⟨w, j, hw, hj, hp.1, hp.2, reachable_history hw hj⟩

end Dispatch
