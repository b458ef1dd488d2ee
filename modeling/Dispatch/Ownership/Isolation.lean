import Dispatch.Files.Steps
import Dispatch.Ledger.Invariants
import Dispatch.Outcome.Chronicle

/-!
# What a worker can do to others

A worker may send any request it likes: with attempts, sessions and uploads of
other workers in it, or with ids that were never issued. `Isolated` says what
its requests leave alone: every row of another worker, and every job that
another worker runs. The one exception is meant: when a job of the worker
fails, the sweep of that job may ask its running siblings to stop.

`Isolated` composes, so it is shown once for each kind of write (an event, the
end of an attempt, an assignment, a session, a report, an entry in the files)
and holds of any sequence of requests. That a job has ended is final for these
requests, which is why a failure that stopped a sibling can still be seen at the
end of a sequence.
-/

namespace Dispatch

open Txn

variable {id job upload attempt : Uuid} {j : JobRow} {authority : AttemptAuthority} {seen : Store}
  {f f' : Files} {ts : List TableName} {identity : WorkerIdentity} {reply : Reply} {a : AttemptRow}

variable {sha : Uuid → ℕ} {op : Op} {now : Time} {worker : Uuid} {s t s' s'' : Store}

/-! ## Files -/

/-- The entries of an upload are the same. -/
structure Files.SameEntries (f f' : Files) (upload : Uuid) : Prop where
  multipart : f'.multipart.lookup upload = f.multipart.lookup upload
  uploadParts : ∀ n, f'.uploadParts.lookup (upload, n) = f.uploadParts.lookup (upload, n)
  multipartCompletions :
    f'.multipartCompletions.lookup upload = f.multipartCompletions.lookup upload
  finalizations : f.finalizations.SameOn (fun _ x => x.upload = upload) f'.finalizations
  artifacts : f.artifacts.SameOn (fun _ a => a.upload = upload) f'.artifacts

/-- **What other workers have on file is the same.** -/
structure Files.Spares (worker : Uuid) (f f' : Files) : Prop where
  uploads : f.uploads.SameOn (fun _ u => u.claims.authority.workerID ≠ worker) f'.uploads
  entries : ∀ upload u, f.uploads.lookup upload = some u → u.claims.authority.workerID ≠ worker →
    f.SameEntries f' upload
  logSegments : f.logSegments.SameOn (fun _ l => l.claims.authority.workerID ≠ worker)
    f'.logSegments

theorem Files.SameEntries.refl (f : Files) (upload : Uuid) : f.SameEntries f upload :=
  ⟨rfl, fun _ => rfl, rfl, .refl _, .refl _⟩

theorem Files.Spares.refl (f : Files) : f.Spares worker f :=
  ⟨.refl _, fun upload _ _ _ => .refl f upload, .refl _⟩

theorem Files.Spares.trans {f'' : Files} (h : f.Spares worker f') (h' : f'.Spares worker f'') :
    f.Spares worker f'' where
  uploads := h.uploads.trans h'.uploads
  entries upload u hu hother := by
    have hold := h.entries upload u hu hother
    have hnew := h'.entries upload u ((h.uploads upload u hother).mpr hu) hother
    exact ⟨hnew.multipart.trans hold.multipart,
      fun n => (hnew.uploadParts n).trans (hold.uploadParts n),
      hnew.multipartCompletions.trans hold.multipartCompletions,
      hold.finalizations.trans hnew.finalizations, hold.artifacts.trans hnew.artifacts⟩
  logSegments := h.logSegments.trans h'.logSegments

/-- The upload of an authority is not that of another worker. -/
theorem Files.Owns.ne {own : Uuid} {u : UploadRow} (howns : f.Owns authority own)
    (hmine : authority.workerID = worker) (hu : f.uploads.lookup upload = some u)
    (hother : u.claims.authority.workerID ≠ worker) : upload ≠ own := by
  rintro rfl
  obtain ⟨u', hu', rfl⟩ := howns
  obtain rfl := Option.mem_unique hu hu'
  exact hother hmine

/-- **An entry spares the files of others.** -/
theorem Files.Step.spares (h : Files.Step op authority f f')
    (hworker : authority.workerID = worker) : f.Spares worker f' := by
  have hrefl : f.Spares worker f := .refl f
  cases h with
  | declare upload u hfree hmine =>
    exact ⟨.insert hfree fun hother => hother (hmine ▸ hworker),
      fun _ _ _ _ => ⟨rfl, fun _ => rfl, rfl, .refl _, .refl _⟩, .refl _⟩
  | identify own initialization hmine hfree =>
    refine { hrefl with entries := fun upload u hu hother => ?_ }
    exact { Files.SameEntries.refl f upload with
      multipart := by simp [hmine.ne hworker hu hother] }
  | bind own m backend hmine hm =>
    refine { hrefl with entries := fun upload u hu hother => ?_ }
    exact { Files.SameEntries.refl f upload with
      multipart := by simp [hmine.ne hworker hu hother] }
  | part own number sha256 hmine =>
    refine { hrefl with entries := fun upload u hu hother => ?_ }
    exact { Files.SameEntries.refl f upload with
      uploadParts := fun n => by simp [hmine.ne hworker hu hother] }
  | intend own row hmine hfree =>
    refine { hrefl with entries := fun upload u hu hother => ?_ }
    exact { Files.SameEntries.refl f upload with
      multipartCompletions := by simp [hmine.ne hworker hu hother] }
  | store own row version hmine hrow =>
    refine { hrefl with entries := fun upload u hu hother => ?_ }
    exact { Files.SameEntries.refl f upload with
      multipartCompletions := by simp [hmine.ne hworker hu hother] }
  | claim id row hmine hfree =>
    refine { hrefl with entries := fun upload u hu hother => ?_ }
    exact { Files.SameEntries.refl f upload with
      finalizations := .insert hfree (hmine.ne hworker hu hother).symm }
  | verify artifact row own hown hmine hfree =>
    refine { hrefl with entries := fun upload u hu hother => ?_ }
    have howns : f.Owns authority row.upload := ⟨own, hown, hmine⟩
    exact { Files.SameEntries.refl f upload with
      artifacts := .insert hfree (howns.ne hworker hu hother).symm }
  | register id l hfree h =>
    exact ⟨.refl _, fun _ _ _ _ => ⟨rfl, fun _ => rfl, rfl, .refl _, .refl _⟩,
      .insert hfree fun hother => hother (h.mine ▸ hworker)⟩

theorem Files.Steps.spares (h : Files.Steps op authority f f')
    (hworker : authority.workerID = worker) : f.Spares worker f' := by
  induction h with
  | refl => exact .refl f
  | tail _ hstep ih => exact ih.trans (hstep.spares hworker)

/-! ## Jobs -/

/-- The job and its history are the same. -/
def Store.SameJob (s s' : Store) (job : Uuid) : Prop :=
  s'.jobs.lookup job = s.jobs.lookup job ∧ ∀ n, s'.events.lookup (job, n) = s.events.lookup (job, n)

theorem Store.SameJob.refl (s : Store) (job : Uuid) : s.SameJob s job := ⟨rfl, fun _ => rfl⟩

theorem Store.SameJob.trans (h : s.SameJob s' job) (h' : s'.SameJob s'' job) : s.SameJob s'' job :=
  ⟨h'.1.trans h.1, fun n => (h'.2 n).trans (h.2 n)⟩

/-- **A job that another worker runs.** -/
structure Store.RunElsewhere (s : Store) (worker job : Uuid) (j : JobRow) : Prop where
  job : s.jobs.lookup job = some j
  other : ∃ attempt a, j.currentAttempt = some attempt ∧ s.attempts.lookup attempt = some a ∧
    a.worker ≠ worker

/-- **A failure of the worker**: a job that had not ended has failed, its last
attempt was one of the worker, and its sweep stops what is running. -/
structure FailedBy (worker : Uuid) (s s' : Store) (failed sweep : Uuid) : Prop where
  before : ∃ j, s.jobs.lookup failed = some j ∧ j.state.isTerminal = false
  after : ∃ j place attempt a, s'.jobs.lookup failed = some j ∧ j.state = .failed ∧
    j.sweep = some (sweep, place) ∧ s'.attempts.lookup attempt = some a ∧ a.worker = worker ∧
    a.job = failed ∧ a.generation = j.attemptCounter
  policy : ∃ row, s'.sweeps.lookup sweep = some row ∧ row.failFast = true ∧
    row.cancelRunningOnFailure = true

/-- **A running job was asked to stop** because a sibling of its sweep failed at
the worker. -/
def Store.AskedToStop (s s' : Store) (worker job : Uuid) (j : JobRow) : Prop :=
  ∃ failed sweep time, FailedBy worker s s' failed sweep ∧ j.state = .active ∧
    j.sweep.map Prod.fst = some sweep ∧ s'.jobs.lookup job = some j.stop ∧
    ∀ n, s'.events.lookup (job, n) = if n = j.eventSequence + 1 then
      some (stopEvent time sweep failed j) else s.events.lookup (job, n)

/-! ## Isolation -/

/-- The rows of other workers are the same, and attempts stay those of their
jobs. -/
structure Spared (worker : Uuid) (s s' : Store) : Prop where
  workers : s.workers.SameOn (fun id _ => id ≠ worker) s'.workers
  sessions : s.sessions.SameOn (fun _ ss => ss.worker ≠ worker) s'.sessions
  attempts : s.attempts.SameOn (fun _ a => a.worker ≠ worker) s'.attempts
  reservations : s.reservations.SameOn (fun _ r => r.worker ≠ worker) s'.reservations
  files : s.files.Spares worker s'.files
  sweeps : s'.sweeps = s.sweeps
  identities : ∀ id a, s.attempts.lookup id = some a →
    ∃ a', s'.attempts.lookup id = some a' ∧ a'.identity = a.identity

/-- **What the requests of a worker leave alone**: the rows of other workers,
jobs that have ended and, a stop of their sweep apart, the jobs that others run.
No request makes a job. -/
structure Isolated (worker : Uuid) (s s' : Store) : Prop extends Spared worker s s' where
  known : ∀ job, s.jobs.lookup job = none → s'.jobs.lookup job = none
  ended : ∀ job j, s.jobs.lookup job = some j → j.state.isTerminal = true → s.SameJob s' job
  elsewhere : ∀ job j, s.RunElsewhere worker job j →
    s.SameJob s' job ∨ s.AskedToStop s' worker job j

theorem Spared.refl (s : Store) : Spared worker s s where
  workers := .refl _
  sessions := .refl _
  attempts := .refl _
  reservations := .refl _
  files := .refl _
  sweeps := rfl
  identities _ a ha := ⟨a, ha, rfl⟩

theorem Spared.trans (h : Spared worker s s') (h' : Spared worker s' s'') :
    Spared worker s s'' where
  workers := h.workers.trans h'.workers
  sessions := h.sessions.trans h'.sessions
  attempts := h.attempts.trans h'.attempts
  reservations := h.reservations.trans h'.reservations
  files := h.files.trans h'.files
  sweeps := h'.sweeps.trans h.sweeps
  identities id a ha := by
    obtain ⟨a', ha', hidentity⟩ := h.identities id a ha
    obtain ⟨a'', ha'', hidentity'⟩ := h'.identities id a' ha'
    exact ⟨a'', ha'', hidentity'.trans hidentity⟩

theorem Isolated.refl (s : Store) : Isolated worker s s :=
  ⟨.refl s, fun _ h => h, fun job _ _ _ => .refl s job, fun job _ _ => .inl (.refl s job)⟩

/-- A job that was open later was open before. -/
theorem Isolated.open (h : Isolated worker s s') (hj : s'.jobs.lookup job = some j)
    (hopen : j.state.isTerminal = false) :
    ∃ j, s.jobs.lookup job = some j ∧ j.state.isTerminal = false := by
  cases hbefore : s.jobs.lookup job with
  | none => exact absurd (hj.symm.trans (h.known job hbefore)) (by simp)
  | some k =>
    refine ⟨k, rfl, ?_⟩
    by_contra hended
    rw [Bool.not_eq_false] at hended
    have hsame := (h.ended job k hbefore hended).1
    obtain rfl := Option.some.inj ((hj.symm.trans hsame).trans hbefore)
    exact absurd (hopen.symm.trans hended) (by simp)

/-- What ran elsewhere and was left alone still runs elsewhere. -/
theorem Store.RunElsewhere.later {j' : JobRow} (helse : s.RunElsewhere worker job j)
    (h : Isolated worker s s') (hj' : s'.jobs.lookup job = some j')
    (hcurrent : j'.currentAttempt = j.currentAttempt) : s'.RunElsewhere worker job j' := by
  obtain ⟨attempt, a, hattempt, ha, hother⟩ := helse.other
  exact ⟨hj', attempt, a, hcurrent.trans hattempt, (h.attempts attempt a hother).mpr ha, hother⟩

/-- A failure can be seen from an earlier store. -/
theorem FailedBy.earlier {failed sweep : Uuid} (h : FailedBy worker s' s'' failed sweep)
    (hbefore : Isolated worker s s') : FailedBy worker s s'' failed sweep := by
  obtain ⟨j, hj, hopen⟩ := h.before
  exact ⟨hbefore.open hj hopen, h.after, h.policy⟩

/-- A failure can still be seen later. -/
theorem FailedBy.later {failed sweep : Uuid} (h : FailedBy worker s s' failed sweep)
    (hafter : Isolated worker s' s'') : FailedBy worker s s'' failed sweep where
  before := h.before
  after := by
    obtain ⟨j, place, attempt, a, hj, hfailed, hsweep, ha, hworker, hjob, hlast⟩ := h.after
    obtain ⟨a', ha', hidentity⟩ := hafter.identities attempt a ha
    simp only [AttemptRow.identity, Prod.mk.injEq] at hidentity
    obtain ⟨hjob', -, hworker', -, hgeneration'⟩ := hidentity
    refine ⟨j, place, attempt, a', ?_, hfailed, hsweep, ha', hworker'.trans hworker,
      hjob'.trans hjob, hgeneration'.trans hlast⟩
    exact (hafter.ended failed j hj (by rw [hfailed]; rfl)).1.trans hj
  policy := hafter.sweeps ▸ h.policy

/-- **Isolation composes.** -/
theorem Isolated.trans (h : Isolated worker s s') (h' : Isolated worker s' s'') :
    Isolated worker s s'' where
  toSpared := h.toSpared.trans h'.toSpared
  known job hnone := h'.known job (h.known job hnone)
  ended job j hj hended := by
    have hsame := h.ended job j hj hended
    exact hsame.trans (h'.ended job j (hsame.1.trans hj) hended)
  elsewhere job j helse := by
    obtain hsame | ⟨failed, sweep, time, hfailed, hactive, hsweep, hstopped, hevents⟩ :=
      h.elsewhere job j helse
    · have hstill := helse.later h (hsame.1.trans helse.job) rfl
      obtain hsame' | ⟨failed, sweep, time, hfailed, hactive, hsweep, hstopped, hevents⟩ :=
        h'.elsewhere job j hstill
      · exact .inl (hsame.trans hsame')
      · refine .inr ⟨failed, sweep, time, hfailed.earlier h, hactive, hsweep, hstopped,
          fun n => ?_⟩
        rw [hevents, hsame.2]
    · -- A job that was asked to stop is not running any more and is not asked again.
      have hstill := helse.later h hstopped rfl
      obtain hsame' | ⟨-, -, -, -, hactive', -⟩ := h'.elsewhere job j.stop hstill
      · exact .inr ⟨failed, sweep, time, hfailed.later h', hactive, hsweep,
          hsame'.1.trans hstopped, fun n => (hsame'.2 n).trans (hevents n)⟩
      · rw [JobRow.stop, if_pos hactive] at hactive'
        exact absurd hactive' (by simp)

/-- **A job the worker may work on**: it is open, and no other worker runs it. -/
def Store.OpenTo (s : Store) (worker job : Uuid) : Prop :=
  ∃ j, s.jobs.lookup job = some j ∧ j.state.isTerminal = false ∧
    ∀ attempt a, j.currentAttempt = some attempt → s.attempts.lookup attempt = some a →
      a.worker = worker

theorem Store.OpenTo.not_elsewhere (h : s.OpenTo worker job) (helse : s.RunElsewhere worker job j) :
    False := by
  obtain ⟨k, hk, -, hmine⟩ := h
  obtain ⟨attempt, a, hattempt, ha, hother⟩ := helse.other
  obtain rfl := Option.mem_unique hk helse.job
  exact hother (hmine attempt a hattempt ha)

theorem Store.OpenTo.not_ended (h : s.OpenTo worker job) (hj : s.jobs.lookup job = some j) :
    j.state.isTerminal = false := by
  obtain ⟨k, hk, hopen, -⟩ := h
  obtain rfl := Option.mem_unique hk hj
  exact hopen

/-- Work on jobs that are open to the worker. -/
theorem Spared.isolated (h : Spared worker s s')
    (hjobs : ∀ job, s.SameJob s' job ∨ s.OpenTo worker job) : Isolated worker s s' where
  toSpared := h
  known job hnone := by
    obtain hsame | ⟨j, hj, -⟩ := hjobs job
    · exact hsame.1.trans hnone
    · exact absurd (hnone.symm.trans hj) (by simp)
  ended job j hj hended := by
    refine (hjobs job).resolve_right fun hopen => ?_
    exact absurd ((hopen.not_ended hj).symm.trans hended) (by simp)
  elsewhere job j helse := .inl ((hjobs job).resolve_right fun hopen => hopen.not_elsewhere helse)

theorem Spared.of_writes (h : Writes ts s s')
    (hts : ∀ t ∈ [TableName.workers, .sessions, .attempts, .reservations, .sweeps], t ∉ ts)
    (hfiles : s.files.Spares worker s'.files) : Spared worker s s' := by
  have hsame : ∀ t ∈ [TableName.workers, .sessions, .attempts, .reservations, .sweeps],
      s'.contents t = s.contents t := fun t ht => h t (hts t ht)
  simp only [List.forall_mem_cons, Store.contents] at hsame
  obtain ⟨hworkers, hsessions, hattempts, hreservations, hsweeps, -⟩ := hsame
  refine ⟨?_, ?_, ?_, ?_, hfiles, hsweeps, fun id a ha => ⟨a, ?_, rfl⟩⟩
  · rw [hworkers]
    exact .refl _
  · rw [hsessions]
    exact .refl _
  · rw [hattempts]
    exact .refl _
  · rw [hreservations]
    exact .refl _
  · rw [hattempts]
    exact ha

/-- A transaction that writes neither jobs nor events. -/
theorem Store.SameJob.of_writes (h : Writes ts s s') (hjobs : TableName.jobs ∉ ts)
    (hevents : TableName.events ∉ ts) (job : Uuid) : s.SameJob s' job :=
  ⟨congrArg (AList.lookup job) (h .jobs hjobs),
    fun n => congrArg (AList.lookup (job, n)) (h .events hevents)⟩

/-- The tables that isolation is about. -/
def isolatedTables : List TableName :=
  [.workers, .sessions, .attempts, .reservations, .sweeps, .jobs, .events, .uploads, .multipart,
    .uploadParts, .multipartCompletions, .finalizations, .artifacts, .logSegments]

theorem Isolated.of_writes (h : Writes ts s s') (hts : ∀ t ∈ isolatedTables, t ∉ ts) :
    Isolated worker s s' := by
  have hfiles : s'.files = s.files := h.files fun t ht => hts t (by revert t; decide)
  refine Spared.isolated (.of_writes h (fun t ht => hts t (by revert t; decide))
    (hfiles ▸ .refl _)) fun job => .inl ?_
  exact .of_writes h (hts .jobs (by decide)) (hts .events (by decide)) job

/-- An event is one of its job. -/
theorem appendEvent_sameJob {attempt : Option Uuid} {body : EventBody}
    (h : t.appendEvent now job attempt body = .ok s') (hjobs : t.jobs.lookup id = s.jobs.lookup id)
    (hevents : t.events = s.events) (hid : id ≠ job) : s.SameJob s' id := by
  obtain ⟨j, events, -, hinsert, rfl⟩ := Store.appendEvent_eq_ok h
  obtain ⟨-, rfl⟩ := Table.insertNew_eq_some hinsert
  exact ⟨by simp [hid, hjobs], fun n => by simp [hid, hevents]⟩

/-! ## Entries in the files -/

/-- The events of a request that makes entries are those of its own job. -/
theorem Entries.sameJob (h : Entries ts op authority s s') (hid : id ≠ authority.jobID) :
    s.SameJob s' id := by
  induction h with
  | refl => exact .refl s id
  | @tail t t' _ hentry ih =>
    refine ih.trans ?_
    cases hentry with
    | file _ hs =>
      rw [hs]
      exact .refl t id
    | event h => exact appendEvent_sameJob h rfl rfl hid

/-! ## Attempts -/

variable {settled : Uuid → Prop} {replaced : Uuid → Uuid → Prop}

/-- The job of a current attempt has not ended. -/
theorem current_open (hown : Ownership.Owned (s.view settled replaced))
    (hj : s.jobs.lookup job = some j) (hcurrent : j.currentAttempt = some attempt) :
    j.state.isTerminal = false := by
  have howned := (owned_iff_current hown hj).mpr (by rw [hcurrent]; rfl)
  obtain hstate | hstate := howned <;> rw [hstate] <;> rfl

/-- The current attempt of a job is its last. -/
theorem current_identity (hown : Ownership.Owned (s.view settled replaced))
    (hj : s.jobs.lookup job = some j) (hcurrent : j.currentAttempt = some attempt)
    (ha : s.attempts.lookup attempt = some a) : a.job = job ∧ a.generation = j.attemptCounter := by
  obtain ⟨g, c, hg, hjob, -, -, hgeneration, -⟩ :=
    hown.owner job j.task attempt (congrArg (Option.map JobRow.task) hj) hcurrent
  obtain rfl := Option.some.inj ((congrArg (Option.map AttemptRow.grant) ha).symm.trans hg)
  exact ⟨hjob, hgeneration⟩

/-- The job of an attempt of the worker is open to it. -/
theorem Store.OpenTo.of_current (hown : Ownership.Owned (s.view settled replaced))
    (hj : s.jobs.lookup job = some j) (hcurrent : j.currentAttempt = some attempt)
    (ha : s.attempts.lookup attempt = some a) (hmine : a.worker = worker) : s.OpenTo worker job
    := by
  refine ⟨j, hj, current_open hown hj hcurrent, fun attempt' a' hattempt' ha' => ?_⟩
  obtain rfl := Option.mem_unique hcurrent hattempt'
  obtain rfl := Option.mem_unique ha ha'
  exact hmine

/-- The job of an open gate is open to the worker of its authority. -/
theorem Authorized.openTo (h : Authorized s now authority) (hworker : authority.workerID = worker)
    (hown : Ownership.Owned (s.view settled replaced)) : s.OpenTo worker authority.jobID := by
  obtain ⟨a, j, ha, hj, haccepted⟩ := h
  obtain ⟨l, hl, hauthority, -, hcurrent, -⟩ := leaseDecision_eq_accepted.mp haccepted
  obtain rfl := Option.some.inj hl
  have hjob : a.job = authority.jobID := (congrArg AttemptAuthority.jobID hauthority).symm
  have hmine : a.worker = worker :=
    (congrArg AttemptAuthority.workerID hauthority).symm.trans hworker
  exact .of_current hown (hjob ▸ hj) hcurrent ha hmine

/-- A change to an attempt of the worker. -/
theorem Spared.modify_attempt {f : AttemptRow → AttemptRow}
    (hmine : ∀ a, s.attempts.lookup attempt = some a → a.worker = worker)
    (hf : ∀ a, (f a).identity = a.identity) :
    Spared worker s { s with attempts := s.attempts.modify attempt f } := by
  have hworker : ∀ a, (f a).worker = a.worker := fun a => congrArg (fun x => x.2.2.1) (hf a)
  refine { Spared.refl s with
    attempts := .modify fun a ha => ?_
    identities := fun id a ha => ?_ }
  · rw [hworker, hmine a ha]
    exact ⟨fun hnot => hnot rfl, fun hnot => hnot rfl⟩
  · rw [Table.lookup_modify, ha]
    split_ifs
    · exact ⟨f a, rfl, hf a⟩
    · exact ⟨a, rfl, rfl⟩

/-- **The end of an attempt of the worker**, with the stop of its sweep. -/
theorem endAttempt_isolated {logged : Store} {own : JobRow → JobRow}
    {ended : AttemptRow → AttemptRow} {closed : ReservationRow → ReservationRow} {body : EventBody}
    {next : JobState} (hown : Ownership.Owned (s.view settled replaced))
    (hj : s.jobs.lookup job = some j) (hcurrent : j.currentAttempt = some attempt)
    (ha : s.attempts.lookup attempt = some a) (hmine : a.worker = worker)
    (hreserved : ∀ r, s.reservations.lookup attempt = some r → r.worker = worker)
    (hlogged : (s.endAttempt job attempt own ended closed).appendEvent now job (some attempt) body
      = .ok logged)
    (hlast : (if next = .failed then applySweepFailFast logged now job else pure logged) = .ok s')
    (hkept : (own j).attemptCounter = j.attemptCounter)
    (hidentity : ∀ a, (ended a).identity = a.identity)
    (hclosed : ∀ r, (closed r).worker = r.worker) : Isolated worker s s' := by
  have hopen : s.OpenTo worker job := .of_current hown hj hcurrent ha hmine
  have hend : Spared worker s (s.endAttempt job attempt own ended closed) := by
    have hattempt : Spared worker s { s with attempts := s.attempts.modify attempt ended } := by
      refine .modify_attempt (fun a' ha' => ?_) hidentity
      obtain rfl := Option.mem_unique ha ha'
      exact hmine
    refine { hattempt with reservations := .modify fun r hr => ?_ }
    rw [hclosed, hreserved r hr]
    exact ⟨fun hnot => hnot rfl, fun hnot => hnot rfl⟩
  have hspared : Spared worker s logged :=
    hend.trans (.of_writes (appendEvent_writes hlogged) (by decide)
      (appendEvent_files hlogged ▸ .refl _))
  have hothers : ∀ id, id ≠ job → s.SameJob logged id := by
    intro id hid
    exact appendEvent_sameJob hlogged (by simp [Store.endAttempt, hid]) rfl hid
  split_ifs at hlast
  · have hend' := hspared.trans (.of_writes (applySweepFailFast_writes hlast) (by decide)
      ((applySweepFailFast_writes hlast).files (by decide) ▸ .refl _))
    refine ⟨hend', fun id hnone => ?_, fun id k hk hended => ?_, fun id k helse => ?_⟩
    · have hid : id ≠ job := by
        rintro rfl
        exact absurd (hnone.symm.trans hj) (by simp)
      exact (applySweepFailFast_none hlast ((hothers id hid).1.trans hnone)).1
    · have hid : id ≠ job := by
        rintro rfl
        exact absurd ((hopen.not_ended hk).symm.trans hended) (by simp)
      have hsame := hothers id hid
      obtain hkeeps | ⟨sweep, cancelRunning, -, hcandidate, -⟩ :=
        applySweepFailFast_job hlast (hsame.1.trans hk)
      · exact ⟨hkeeps.1.trans hk.symm, fun n => (hkeeps.2 n).trans (hsame.2 n)⟩
      · -- What has ended is no candidate.
        exfalso
        obtain ⟨-, -, hqueued | ⟨hactive, -⟩⟩ := failFastCandidate_iff.mp hcandidate
        · cases hs : k.state <;> simp_all [JobState.isQueued, JobState.isTerminal]
        · rw [hactive] at hended
          exact absurd hended (by decide)
    · have hid : id ≠ job := by
        rintro rfl
        exact hopen.not_elsewhere helse
      have hsame := hothers id hid
      obtain hkeeps | ⟨sweep, cancelRunning, hpolicy, hcandidate, hstopped, hevents⟩ :=
        applySweepFailFast_job hlast (hsame.1.trans helse.job)
      · exact .inl ⟨hkeeps.1.trans helse.job.symm, fun n => (hkeeps.2 n).trans (hsame.2 n)⟩
      · -- A running job has a current attempt, so it is not one that waits.
        obtain ⟨attempt', -, hattempt', -⟩ := helse.other
        have howned := (owned_iff_current hown helse.job).mpr (by rw [hattempt']; rfl)
        obtain ⟨-, hsweep, hqueued | ⟨hactive, rfl⟩⟩ := failFastCandidate_iff.mp hcandidate
        · obtain hstate | hstate := howned <;> rw [hstate] at hqueued <;>
            exact absurd hqueued (by decide)
        obtain ⟨f, place, row, hf, hfailed, hfsweep, hrow, hfast, hcancel⟩ :=
          failFastPolicy_eq_some hpolicy
        refine .inr ⟨job, sweep, now, ⟨⟨j, hj, current_open hown hj hcurrent⟩, ?_, row, ?_, hfast,
          hcancel⟩, hactive, hsweep, hstopped, fun n => by rw [hevents, hsame.2]⟩
        · -- The job that failed is none of those its failure stops.
          obtain hfinal | ⟨_, _, -, hself, -⟩ := applySweepFailFast_job hlast hf
          · obtain ⟨a', ha', hsame'⟩ := hend'.identities attempt a ha
            simp only [AttemptRow.identity, Prod.mk.injEq] at hsame'
            obtain ⟨hjob', -, hworker', -, hgeneration'⟩ := hsame'
            obtain ⟨hjob, hnewest⟩ := current_identity hown hj hcurrent ha
            refine ⟨f, place, attempt, a', hfinal.1, hfailed, hfsweep, ha', hworker'.trans hmine,
              hjob'.trans hjob, ?_⟩
            rw [hgeneration', hnewest, ← hkept]
            obtain ⟨_, _, -, -, rfl⟩ := Store.appendEvent_eq_ok hlogged
            rw [Table.lookup_modify, if_pos rfl, Store.endAttempt, Table.lookup_modify, if_pos rfl,
              hj] at hf
            obtain rfl := Option.some.inj hf
            rfl
          · exact absurd rfl (failFastCandidate_iff.mp hself).1
        · exact (congrArg (AList.lookup sweep) (applySweepFailFast_writes hlast .sweeps (by decide))
            ).trans hrow
  · obtain rfl := pure_ok.mp hlast
    exact hspared.isolated fun id => (em (id = job)).elim (fun hid => .inr (hid ▸ hopen))
      fun hid => .inl (hothers id hid)

/-! ## The requests -/

/-- A renewal extends leases of the worker. -/
theorem renewLeases_isolated {id : WorkerIdentity} {r : LeaseRenewal} {grants : List LeaseGrant}
    (h : renewLeases s seen now id r = .ok (s', grants)) : Isolated id.workerID s s' := by
  obtain ⟨hmembers, ⟨saved, rfl, -⟩ | ⟨hgrants, requests, rfl⟩⟩ := renewLeases_eq_ok h
  · exact .refl _
  have hmine : ∀ g ∈ grants, g.decision = .accepted → ∀ a,
      s.attempts.lookup g.authority.attemptID = some a → a.worker = id.workerID := by
    intro g hg haccepted a ha
    obtain ⟨l, hl, hauthority, -⟩ :=
      leaseDecision_eq_accepted.mp (renewLeases_accepted h hg haccepted)
    obtain ⟨a', ha', rfl⟩ := lockedAttempt_eq_some hl
    obtain rfl := Option.mem_unique ha ha'
    rw [hgrants] at hg
    obtain ⟨b, hb, rfl⟩ := List.mem_map.mp hg
    rw [freshGrant_authority] at hauthority
    exact (congrArg AttemptAuthority.workerID hauthority).symm.trans
      (validMembers_worker hmembers hb)
  have hrenewed : Isolated id.workerID s (grants.foldl Store.applyGrant s) := by
    refine List.foldlRecOn _ Store.applyGrant (motive := fun u => Isolated id.workerID s u)
      (.refl s) fun u hu g hg => hu.trans ?_
    unfold Store.applyGrant
    split_ifs with haccepted
    · have hspared : Spared id.workerID u { u with
          attempts := u.attempts.modify g.authority.attemptID
            (fun a => { a with leaseExpiresAt := g.leaseExpiresAt }) } := by
        refine .modify_attempt (fun a ha => ?_) fun _ => rfl
        by_contra hother
        exact hother (hmine g hg haccepted a ((hu.attempts _ a hother).mp ha))
      exact hspared.isolated fun job => .inl (.refl u job)
    · exact .refl u
  have hfiled : Writes [.leaseRequests] (grants.foldl Store.applyGrant s)
      { grants.foldl Store.applyGrant s with leaseRequests := requests } := by
    rintro (_ | _) ht <;> first | rfl | exact absurd (by decide) ht
  exact hrenewed.trans (.of_writes hfiled (by decide))

/-- A report moves an attempt of the worker. -/
theorem reportPhase_isolated {id : WorkerIdentity} {r : PhaseReport} {x : MutationResult}
    (h : reportPhase s seen now id r = .ok (s', x))
    (hown : Ownership.Owned (s.view settled replaced)) : Isolated id.workerID s s' := by
  obtain ⟨rfl, -⟩ | ⟨a, j, deadline, haccepted, -, ⟨-, rfl⟩ | ⟨-, hlogged⟩⟩ := reportPhase_cases h
  · exact .refl _
  · have hfiled : Writes [.phaseReports] s (s.filePhase id r) := by
      rintro (_ | _) ht <;> first | rfl | exact absurd (by decide) ht
    exact .of_writes hfiled (by decide)
  · have hmine : a.worker = id.workerID :=
      (congrArg AttemptAuthority.workerID haccepted.authority).trans haccepted.mine
    have hgate : Authorized s now r.claims.authority :=
      ⟨a, j, haccepted.attempt, haccepted.job, haccepted.accepted⟩
    have hopen := hgate.openTo haccepted.mine hown
    have hjob : a.job = r.claims.authority.jobID :=
      congrArg AttemptAuthority.jobID haccepted.authority
    have hmoved : Spared id.workerID s { s.filePhase id r with
        attempts := s.attempts.modify r.claims.authority.attemptID
          (·.enterPhase r.claims deadline) } := by
      have hattempt : Spared id.workerID s { s with
          attempts := s.attempts.modify r.claims.authority.attemptID
            (·.enterPhase r.claims deadline) } := by
        refine .modify_attempt (fun a' ha' => ?_) fun _ => rfl
        obtain rfl := Option.mem_unique haccepted.attempt ha'
        exact hmine
      exact { hattempt with }
    have hspared := hmoved.trans (.of_writes (appendEvent_writes hlogged) (by decide)
      (appendEvent_files hlogged ▸ .refl _))
    refine hspared.isolated fun job => (em (job = a.job)).elim (fun hid => .inr ?_) fun hid =>
      .inl (appendEvent_sameJob hlogged rfl rfl hid)
    rw [hid, hjob]
    exact hopen

/-- An entry is made for an attempt of the worker. -/
theorem Op.exec_filer_isolated (h : op.exec sha s now = .ok (s', reply))
    (hfiler : op.filer = some (worker, authority))
    (hown : Ownership.Owned (s.view settled replaced)) : Isolated worker s s' := by
  have htables : ∀ t ∈ [TableName.workers, .sessions, .attempts, .reservations, .sweeps],
      t ∉ op.footprint := by
    cases op <;>
      first | (simp only [Op.footprint]; decide) | exact absurd hfiler (by simp [Op.filer])
  obtain rfl | ⟨hgranted, hentries⟩ := op.exec_entries h hfiler
  · exact .refl _
  · refine Spared.isolated (.of_writes hentries.writes htables
      (hentries.files.spares hgranted.mine)) fun job => ?_
    by_cases hjob : job = authority.jobID
    · exact .inr (hjob ▸ hgranted.gate.openTo hgranted.mine hown)
    · exact .inl (hentries.sameJob hjob)

/-- A fence of an attempt of the worker. -/
theorem fenceLostAttempt_isolated (h : fenceLostAttempt sha s now job attempt = .ok s')
    (hown : Ownership.Owned (s.view settled replaced))
    (hmine : ∀ a, s.attempts.lookup attempt = some a → a.worker = worker)
    (hreserved : ∀ r, s.reservations.lookup attempt = some r → r.worker = worker) :
    Isolated worker s s' := by
  obtain ⟨j, a, r, logged, hj, hcurrent, ha, -, -, hlogged, hlast⟩ := fenceLostAttempt_eq_ok h
  exact endAttempt_isolated hown hj hcurrent ha (hmine a ha) hreserved hlogged hlast rfl
    (fun _ => rfl) fun _ => rfl

/-- A completion ends an attempt of the worker. -/
theorem completeAttempt_isolated {completed : Time} {id : WorkerIdentity} {r : CompletionRequest}
    {x : CompletionResult} (h : completeAttempt sha s completed now id r = .ok (s', x))
    (hown : Ownership.Owned (s.view settled replaced)) (hkeyed : s.toLedger.Keyed) :
    Isolated id.workerID s s' := by
  obtain ⟨p, a, j, m, hcommits, -⟩ | ⟨rfl, -⟩ | ⟨rfl, -⟩ := completeAttempt_cases h
  · obtain ⟨recorded, hrecorded, hfinished⟩ := hcommits.finished
    simp only [recordCompletion, bind_ok, pure_ok] at hrecorded
    obtain ⟨rows, -, references, -, rfl⟩ := hrecorded
    have hrecords : Writes [.completions, .completionArtifacts] s { s with
        completions := rows
        completionArtifacts := references } := by
      rintro (_ | _) ht <;> first | rfl | exact absurd (by decide) ht
    have hmine : a.worker = id.workerID :=
      (congrArg AttemptAuthority.workerID hcommits.authority).trans hcommits.mine
    have hjob : a.job = r.authority.jobID := congrArg AttemptAuthority.jobID hcommits.authority
    obtain ⟨res, logged, hres, -, hlogged, hlast⟩ := finishAttempt_eq_ok hfinished
    obtain ⟨a', ha', hsame, -⟩ := hkeyed.attempt hres
    obtain rfl := Option.mem_unique hcommits.attempt ha'
    refine (Isolated.of_writes hrecords (by decide)).trans ?_
    obtain ⟨-, -, hcurrent, -⟩ := completionDecision_accepted hcommits.late
    refine endAttempt_isolated hown (hjob ▸ hcommits.job) hcurrent hcommits.attempt hmine
      (fun r' hr' => ?_) hlogged hlast rfl (fun _ => rfl) fun _ => rfl
    obtain rfl := Option.mem_unique hres hr'
    exact hsame.symm.trans hmine
  · exact .refl _
  · exact .refl _

/-- An assignment takes a job that waits. -/
theorem acquireWork_isolated {observed queueNow : Time} {id : WorkerIdentity}
    {request : AcquisitionRequest} {policy : AcquisitionPolicy} {x : AcquisitionResult}
    (h : acquireWork s observed queueNow now id request policy attempt = .ok (s', x))
    (hown : Ownership.Owned (s.view settled replaced)) : Isolated id.workerID s s' := by
  have hobserving : ∀ (u : Store) blockers sequence,
      Isolated id.workerID u (u.observing blockers sequence) := by
    intro u blockers sequence
    have hwrites : Writes [.blockers, .blockerSequence] u (u.observing blockers sequence) := by
      rintro (_ | _) ht <;> first | rfl | exact absurd (by decide) ht
    exact .of_writes hwrites (by decide)
  have hanswered : ∀ (u : Store) rows,
      Isolated id.workerID u { u with workerRequests := rows } := by
    intro u rows
    have hwrites : Writes [.workerRequests] u { u with workerRequests := rows } := by
      rintro (_ | _) ht <;> first | rfl | exact absurd (by decide) ht
    exact .of_writes hwrites (by decide)
  cases acquireWork_acquired h with
  | replayed => exact .refl _
  | repeated => exact .refl _
  | refused blockers sequence reason hkey hnotes =>
    exact (hobserving s blockers sequence).trans (hanswered _ _)
  | assigned blockers sequence assigned job j host p inputs hkey hnotes hassignable hinputs
        hassigned =>
    refine ((hobserving s blockers sequence).trans ?_).trans (hanswered _ _)
    have hj : s.jobs.lookup job = some j := hassignable.found
    have hwaits : j.currentAttempt = none := by
      by_contra hcurrent
      have howned := (owned_iff_current hown hj).mpr (Option.isSome_iff_ne_none.mpr hcurrent)
      have hqueued := hassignable.queued
      obtain hstate | hstate := howned <;> rw [hstate] at hqueued <;>
        exact absurd hqueued (by decide)
    have hopen : (s.observing blockers sequence).OpenTo id.workerID job := by
      refine ⟨j, hj, ?_, fun attempt' a hattempt' => absurd (hwaits.symm.trans hattempt') (by simp)⟩
      have hqueued := hassignable.queued
      cases hs : j.state <;> simp_all [JobState.isQueued, JobState.isTerminal]
    simp only [assignJob, bind_ok, orThrow_ok] at hassigned
    obtain ⟨attempts, hattempts, reservations, hreservations, hlogged⟩ := hassigned
    obtain ⟨hfree, rfl⟩ := Table.insertNew_eq_some hattempts
    obtain ⟨hfree', rfl⟩ := Table.insertNew_eq_some hreservations
    have hgiven : Spared id.workerID (s.observing blockers sequence)
        { s.observing blockers sequence with
          attempts := AList.insert attempt (newAttempt now id.workerID request.sessionID job j)
            (s.observing blockers sequence).attempts
          reservations := AList.insert attempt ⟨id.workerID, j.spec.spec.resources, .active⟩
            (s.observing blockers sequence).reservations
          jobs := (s.observing blockers sequence).jobs.modify job (fun j => { j with
            state := .active
            currentAttempt := some attempt
            attemptCounter := j.attemptCounter + 1 })
          projectCursor := some j.project } :=
      { Spared.refl _ with
        attempts := .insert hfree fun hnot => hnot rfl
        reservations := .insert hfree' fun hnot => hnot rfl
        identities := fun k a ha => ⟨a, Table.Extends.insert _ hfree k a ha, rfl⟩ }
    have hspared := hgiven.trans (.of_writes (appendEvent_writes hlogged) (by decide)
      (appendEvent_files hlogged ▸ .refl _))
    refine hspared.isolated fun k => (em (k = job)).elim (fun hk => .inr (hk ▸ hopen)) fun hk => ?_
    exact .inl (appendEvent_sameJob hlogged (by simp [hk]) rfl hk)

/-- A new session ends what its worker has, and nothing else. -/
theorem registerSession_isolated {id : WorkerIdentity} {r : Registration} {x : Session}
    (h : registerSession sha s now id r = .ok (s', x)) (hc : Coherent s now)
    (hown : Ownership.Owned s.ownership) (hkeyed : s.toLedger.Keyed) :
    Isolated id.workerID s s' := by
  have hrecorded : ∀ (u : Store) hash,
      Isolated id.workerID u (u.recordRegistration id.workerID r.requestID hash) := by
    intro u hash
    unfold Store.recordRegistration
    split_ifs
    · exact .refl u
    · have hwrites : Writes [.registrations] u { u with
          registrations := AList.insert (id.workerID, r.requestID) hash u.registrations } := by
        rintro (_ | _) ht <;> first | rfl | exact absurd (by decide) ht
      exact .of_writes hwrites (by decide)
  have hinstalled : ∀ {u u' : Store} {hash y},
      installSession u now id.workerID r.requestID hash = .ok (u', y) →
      Isolated id.workerID u u' := by
    intro u u' hash y hinstall
    simp only [installSession, bind_ok, orThrow_ok, pure_pair_ok] at hinstall
    obtain ⟨sessions, hsessions, rfl, -⟩ := hinstall
    obtain ⟨hfree, rfl⟩ := Table.insertNew_eq_some hsessions
    have hseated : Spared id.workerID u { u with
        sessions := AList.insert hash.sessionID
          ⟨id.workerID, nextGeneration u id.workerID, now, none, hash, 0, none, none⟩ u.sessions
        workers := u.workers.modify id.workerID (·.register now hash) } :=
      { Spared.refl u with
        sessions := .insert hfree fun hnot => hnot rfl
        workers := .modify fun _ _ => ⟨fun hnot => hnot rfl, fun hnot => hnot rfl⟩ }
    exact (hseated.isolated fun job => .inl (.refl u job)).trans (hrecorded _ hash)
  simp only [registerSession, bind_ok] at h
  obtain ⟨hash, -, _, -, _, -, w, -, _, -, _, -, h⟩ := h
  split at h
  · split_ifs at h
    simp only [bind_ok, pure_pair_ok] at h
    obtain ⟨-, -, -, -, rfl, -⟩ := h
    exact hrecorded s hash
  · split at h
    · simp only [bind_ok] at h
      obtain ⟨recovered, hrecovered, hinstall⟩ := h
      refine Isolated.trans ?_ (hinstalled hinstall)
      have hturn : ∀ u a u', a ∈ workerAttempts s id.workerID →
          Ownership.Owned (u.view s.settled recovered.replaced) → Isolated id.workerID s u →
          fenceLostAttempt sha u now a.2.job a.1 = .ok u' → Isolated id.workerID s u' := by
        intro u a u' ha howned hu hfence
        -- What the worker had when the recovery began is still the worker's.
        obtain ⟨hrow, hmine, -⟩ := mem_workerAttempts.mp ha
        refine hu.trans (fenceLostAttempt_isolated hfence howned (fun b hb => ?_)
          fun res hres => ?_)
        · by_contra hother
          have hbefore := (hu.attempts _ b hother).mp hb
          obtain rfl := Option.mem_unique hrow hbefore
          exact hother hmine
        · by_contra hother
          have hbefore := (hu.reservations _ res hother).mp hres
          obtain ⟨b, hb, hsame, -⟩ := hkeyed.attempt hbefore
          obtain rfl := Option.mem_unique hrow hb
          exact hother (hsame.symm.trans hmine)
      obtain ⟨-, fenced, -, hvacated, -, hfenced⟩ := recoverSession_induction
        (fun u => Isolated id.workerID s u) (.refl s) hturn hrecovered hown hc
      have hvacates : Spared id.workerID fenced recovered := by
        rw [hvacated]
        refine { Spared.refl fenced with sessions := .update fun _ ss _ => ?_ }
        split_ifs with hmine
        · exact .inr ⟨fun hnot => hnot hmine.1, fun hnot => hnot hmine.1⟩
        · exact .inl rfl
      refine hfenced.trans (hvacates.isolated fun job => .inl ?_)
      rw [hvacated]
      exact .refl fenced job
    · exact hinstalled h

/-- A report is about the host itself and releases what the host reserved. -/
theorem recordHeartbeat_isolated {id : WorkerIdentity} {report : HeartbeatReport}
    {x : HeartbeatResult} (h : recordHeartbeat s now id report = .ok (s', x))
    (hkeyed : s.toLedger.Keyed) : Isolated id.workerID s s' := by
  obtain ⟨w, ss, hash, -, hss, hcurrent, -, ⟨rfl, -⟩ | ⟨-, rfl⟩⟩ := recordHeartbeat_cases h
  · exact .refl _
  have hreleased : ∀ k ∈ report.released s now id.workerID, ∀ a,
      s.attempts.lookup k = some a → a.worker = id.workerID := by
    intro k hk a ha
    obtain ⟨a', -, ha', hmine, -⟩ := (mem_released hk).ended
    obtain rfl := Option.mem_unique ha ha'
    exact hmine
  have hspared : Spared id.workerID s (s.report now id.workerID report hash w.drainRequested) := by
    refine ⟨.modify fun _ _ => ⟨fun hnot => hnot rfl, fun hnot => hnot rfl⟩,
      .modify fun ss' hss' => ?_, .update fun k a ha => ?_, .update fun k res hres => ?_, .refl _,
      rfl, fun k a ha => ?_⟩
    · obtain ⟨-, ss'', -, hss'', -, hmine, -⟩ := isCurrentSession_iff.mp hcurrent
      obtain rfl := Option.mem_unique hss' hss''
      exact ⟨fun hnot => hnot hmine, fun hnot => hnot hmine⟩
    · split_ifs with hk
      · have hmine := hreleased k hk a ha
        exact .inr ⟨fun hnot => hnot hmine, fun hnot => hnot hmine⟩
      · exact .inl rfl
    · split_ifs with hk
      · obtain ⟨a, ha, hsame, -⟩ := hkeyed.attempt hres
        have hmine := hsame.symm.trans (hreleased k hk a ha)
        exact .inr ⟨fun hnot => hnot hmine, fun hnot => hnot hmine⟩
      · exact .inl rfl
    · refine ⟨if k ∈ report.released s now id.workerID then { a with cleanupPending := false }
        else a, ?_, by split_ifs <;> rfl⟩
      simp only [Store.report, Store.release, Table.lookup_update, ha, Option.map_some]
  exact hspared.isolated fun job => .inl (.refl s job)

/-! ## Every sequence of requests -/

/-- The worker that makes a request. -/
def Op.caller : Op → Option Uuid
  | .acquire _ _ id _ _ _ => some id.workerID
  | .renew _ id _ => some id.workerID
  | .phase _ id _ => some id.workerID
  | .createUpload _ id _ _ _ => some id.workerID
  | .bindMultipart _ id _ _ _ _ => some id.workerID
  | .preparePart _ id _ => some id.workerID
  | .completeMultipart _ id _ _ => some id.workerID
  | .finalizeUpload _ id _ _ _ _ => some id.workerID
  | .registerLog _ id _ _ => some id.workerID
  | .complete _ id _ => some id.workerID
  | .register id _ => some id.workerID
  | .heartbeat id _ => some id.workerID
  | _ => none

theorem Op.caller_of_filer {x : Uuid × AttemptAuthority} (h : op.filer = some x) :
    op.caller = some x.1 := by
  cases op <;> simp only [Op.filer, Option.some.injEq, reduceCtorEq] at h <;> subst h <;> rfl

/-- **A request of a worker.** -/
theorem Op.exec_isolated (h : op.exec sha s now = .ok (s', reply))
    (hcaller : op.caller = some worker) (hc : Coherent s now) (hown : Ownership.Owned s.ownership)
    (hkeyed : s.toLedger.Keyed) : Isolated worker s s' := by
  cases hfiler : op.filer with
  | some x =>
    obtain rfl := Option.some.inj (hcaller.symm.trans (Op.caller_of_filer hfiler))
    exact op.exec_filer_isolated h hfiler hown
  | none =>
    cases op
    all_goals simp only [Op.exec, bind_ok, pure_pair_ok] at h
    case acquire =>
      obtain ⟨⟨t, _⟩, ht, rfl, -⟩ := h
      obtain rfl := Option.some.inj hcaller
      exact acquireWork_isolated ht hown
    case renew =>
      obtain ⟨⟨t, _⟩, ht, rfl, -⟩ := h
      obtain rfl := Option.some.inj hcaller
      exact renewLeases_isolated ht
    case phase =>
      obtain ⟨⟨t, _⟩, ht, rfl, -⟩ := h
      obtain rfl := Option.some.inj hcaller
      exact reportPhase_isolated ht hown
    case complete =>
      obtain ⟨⟨t, _⟩, ht, rfl, -⟩ := h
      obtain rfl := Option.some.inj hcaller
      exact completeAttempt_isolated ht hown hkeyed
    case register =>
      obtain ⟨⟨t, _⟩, ht, rfl, -⟩ := h
      obtain rfl := Option.some.inj hcaller
      exact registerSession_isolated ht hc hown hkeyed
    case heartbeat =>
      obtain ⟨⟨t, _⟩, ht, rfl, -⟩ := h
      obtain rfl := Option.some.inj hcaller
      exact recordHeartbeat_isolated ht hkeyed
    all_goals first
      | (simp only [Op.caller, reduceCtorEq] at hcaller; done)
      | simp only [Op.filer, reduceCtorEq] at hfiler

/-- A step of a run that is a request of the worker. -/
def World.StepBy (sha : Uuid → ℕ) (worker : Uuid) (w w' : World) : Prop :=
  w.clock ≤ w'.clock ∧ ∃ op reply, Op.caller op = some worker ∧
    op.exec sha w.store w'.clock = .ok (w'.store, reply)

/-- **A worker reaches nothing of others.** Whatever requests a worker makes from
a state that a run has reached, in any order and with any contents: the rows of
every other worker are as they were, their attempts with leases and deadlines,
their reservations, their sessions, their own state and readiness, and their
uploads with parts, artifacts and log segments. A job that another worker runs
is as it was, with its history, or it has been asked to stop because a job of
the same sweep failed at this worker. -/
theorem worker_isolation {w w' : World} (h : Reachable sha w)
    (hrun : Relation.ReflTransGen (World.StepBy sha worker) w w') :
    Isolated worker w.store w'.store := by
  suffices hboth : Isolated worker w.store w'.store ∧ Reachable sha w' from hboth.1
  induction hrun with
  | refl => exact ⟨.refl _, h⟩
  | tail _ hstep ih =>
    obtain ⟨hle, op, reply, hcaller, hexec⟩ := hstep
    obtain ⟨hisolated, hreached⟩ := ih
    refine ⟨hisolated.trans ?_, hreached.step ⟨hle, op, reply, hexec⟩⟩
    exact op.exec_isolated hexec hcaller (hreached.sound.coherent.later hle) hreached.sound.owned
      hreached.ledger_sound.keyed

/-- Requests of one worker can be run one after the other. -/
theorem World.run_by {w w' : World} {ops : List (Time × Op)} (hrun : w.run sha ops = .ok w')
    (hops : ∀ x ∈ ops, x.2.caller = some worker) :
    Relation.ReflTransGen (World.StepBy sha worker) w w' := by
  induction ops generalizing w with
  | nil =>
    obtain rfl : w = w' := Except.ok.inj hrun
    exact .refl
  | cons x rest ih =>
    obtain ⟨time, op⟩ := x
    simp only [World.run, bind_ok, require_ok] at hrun
    obtain ⟨-, hle, ⟨s, reply⟩, hexec, hrest⟩ := hrun
    obtain ⟨hop, hops⟩ := List.forall_mem_cons.mp hops
    have hstep : World.StepBy sha worker w ⟨s, time⟩ := ⟨hle, op, reply, hop, hexec⟩
    exact .head hstep (ih hrest hops)

/-- A second host, with its credential. -/
def Sample.neighbour : List (Time × Op) :=
  [(second, .provision 2 Sample.worker),
    (second, .operate Sample.world.store.projects
      (AList.insert 2 ⟨2, false⟩ Sample.world.store.credentials)
      (AList.insert (2, 1) () Sample.world.store.workerProjects))]

/-- The second host registers, reports itself healthy and asks for work. -/
def Sample.requests : List (Time × Op) :=
  [(second, .register ⟨2, 2⟩ ⟨2, Sample.claims 2⟩),
    (second, .heartbeat ⟨2, 2⟩ ⟨2, ⟨2, 1, true, false, true, []⟩⟩),
    (second, .acquire second second ⟨2, 2⟩ ⟨2, 2⟩ ⟨false⟩ 2)]

/-- The first host runs a job, the second becomes ready, and the job is left
alone. -/
theorem sample_isolation : ∃ (w w' : World) (j : JobRow), w.store.RunElsewhere 2 1 j ∧
    (∃ row, w'.store.workers.lookup 2 = some row ∧ row.state = .ready) ∧
    Isolated 2 w.store w'.store := by
  have hcheck : (Sample.assignedWorld.run Sample.sha Sample.neighbour).toOption.any (fun w =>
      (w.store.jobs.lookup 1).any (fun j : JobRow => decide (j.currentAttempt = some 1)) &&
      (w.store.attempts.lookup 1).any (fun a : AttemptRow => decide (a.worker ≠ 2)) &&
      (w.run Sample.sha Sample.requests).toOption.any (fun w' =>
        (w'.store.workers.lookup 2).any (fun row : WorkerRow => decide (row.state = .ready))))
      = true := by decide +kernel
  rw [Option.any_eq_true] at hcheck
  obtain ⟨w, hneighbour, hcheck⟩ := hcheck
  simp only [Option.any_eq_true, Bool.and_eq_true, decide_eq_true_eq] at hcheck
  obtain ⟨⟨⟨j, hj, hcurrent⟩, a, ha, hother⟩, w', hrequests, hready⟩ := hcheck
  exact ⟨w, w', j, ⟨hj, 1, a, hcurrent, ha, hother⟩, hready,
    worker_isolation (Sample.assigned_reachable.run (toOption_eq_some.mp hneighbour))
      (World.run_by (toOption_eq_some.mp hrequests) (by decide))⟩

end Dispatch
