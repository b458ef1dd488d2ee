import Dispatch.Ledger.Admission

/-!
# The transactions are steps of the ledger

One lemma for each transaction of the store, with the name of the transaction
and `_ledger`, and `Op.exec_ledger` that puts them together: what a transaction
does to the ledger is a sequence of steps that its checks allow. The facts a
step asks for and a transaction does not check itself (the current attempt of a
job is active and has the job's last generation) are those of `Owned`.

Everything that is proved about runs from here on is proved about steps.
-/

namespace Dispatch

open Txn

variable {s s' seen : Store} {job worker : Uuid} {id : WorkerIdentity} {j : JobRow}
  {r : CompletionRequest} {a : AttemptRow} {settled : Uuid → Prop} {replaced : Uuid → Uuid → Prop}
  {observed : Time} {p : CompletionPayload} {m : ResultManifest} {w : AcquisitionWorker}
  {policy : AcquisitionPolicy}

variable {sha : Uuid → ℕ} {op : Op} {now : Time}

variable {attempt session : Uuid} {completed : Time}

/-! ## Events and filings -/

/-- The ledger does not count events. -/
theorem Store.toLedger_appendEvent {attempt : Option Uuid} {body : EventBody}
    (h : s.appendEvent now job attempt body = .ok s') : s'.toLedger = s.toLedger := by
  obtain ⟨_, events, -, -, rfl⟩ := Store.appendEvent_eq_ok h
  have hjobs : (s.jobs.modify job fun j => { j with eventSequence := j.eventSequence + 1 }).update
      (fun _ => JobRow.uncounted) = s.jobs.update (fun _ => JobRow.uncounted) := by
    rw [Table.modify_eq_update, Table.update_update]
    refine congrArg s.jobs.update (funext₂ fun id j => ?_)
    split_ifs <;> rfl
  simp only [Store.toLedger, hjobs]

theorem Filing.ledger (h : Filing s s') :
    Ledger.Steps sha op now s.toLedger s'.toLedger := by
  cases h with
  | note hledger _ hcatalogue hplans =>
    simp only [Store.ledger, Store.catalogue, Store.plans,
      Prod.mk.injEq] at hledger hcatalogue hplans
    have hsame : s'.toLedger = s.toLedger := by
      simp only [Store.toLedger, hledger, hcatalogue, hplans]
    rw [hsame]
  | event h _ =>
    rw [Store.toLedger_appendEvent h]
  | upload hfree => exact .single (.file _ _ _ (.insert _ hfree) (.refl _))
  | artifact hfree => exact .single (.file _ _ _ (.refl _) (.insert _ hfree))

/-- **Filing adds uploads and artifacts.** -/
theorem Filings.ledger (h : Filings s s') :
    Ledger.Steps sha op now s.toLedger s'.toLedger := by
  induction h with
  | refl => exact .refl
  | tail _ hentry ih => exact ih.trans hentry.ledger

/-! ## Cancellation and the end of attempts -/

theorem requestCancellation_ledger {project : Uuid}
    (h : requestCancellation s now project job = .ok s') :
    Ledger.Steps sha op now s.toLedger s'.toLedger := by
  simp only [requestCancellation, bind_ok, orThrow_ok] at h
  obtain ⟨-, -, j, hj, -, -, h⟩ := h
  split at h
  · rename_i hstate
    rw [Store.toLedger_appendEvent h]
    have hjobs : (s.jobs.modify job fun k => { k with
        state := if j.state = .active then .cancelling else .cancelled
        cancelRequested := true }).update (fun _ => JobRow.uncounted)
        = s.toLedger.jobs.modify job JobRow.halt := by
      simp only [Table.modify_eq_update, Store.toLedger, Table.update_update]
      refine Table.update_congr fun id k hk => ?_
      by_cases hid : id = job
      · subst hid
        obtain rfl := Option.mem_unique hj hk
        rw [if_pos rfl, if_pos rfl]
        rfl
      · rw [if_neg hid, if_neg hid]
    have hstep : Ledger.Step sha op now s.toLedger { s.toLedger with
        jobs := s.toLedger.jobs.modify job JobRow.halt } :=
      .cancel s.toLedger job j.uncounted (Store.toLedger_job hj) hstate
    rw [← hjobs] at hstep
    exact .single hstep
  · obtain rfl := pure_ok.mp h
    exact .refl

/-- The siblings that stop are those the policy names. -/
theorem Store.stops_eq {f : JobRow} (hf : s.jobs.lookup job = some f) (id : Uuid) (k : JobRow) :
    s.toLedger.stops job f f.state id k = (failFastPolicy s job).any
      (fun policy => failFastCandidate job policy.1 policy.2 id k) := by
  rw [failFastPolicy, hf]
  simp only [Ledger.stops, Store.toLedger]
  by_cases hfailed : f.state = .failed
  · rw [if_pos hfailed, decide_eq_true hfailed, Bool.true_and]
    cases f.sweep with
    | none => rfl
    | some x =>
      obtain ⟨sweep, index⟩ := x
      simp only
      cases s.sweeps.lookup sweep with
      | none => rfl
      | some row =>
        simp only
        cases row.failFast <;> rfl
  · rw [if_neg hfailed, decide_eq_false hfailed]
    rfl

theorem applySweepFailFast_toLedger {f : JobRow} (h : applySweepFailFast s now job = .ok s')
    (hf : s.jobs.lookup job = some f) :
    s'.toLedger = { s.toLedger with
      jobs := s.toLedger.jobs.update (fun id k =>
        if s.toLedger.stops job f f.state id k then k.halt else k) } := by
  simp only [Store.stops_eq hf]
  unfold applySweepFailFast at h
  cases hpolicy : failFastPolicy s job with
  | none =>
    rw [hpolicy] at h
    obtain rfl := pure_ok.mp h
    simp only [Option.any_none, Bool.false_eq_true, if_false]
    rw [Table.update_eq_self fun _ _ _ => rfl]
  | some policy =>
    obtain ⟨sweep, cancelRunning⟩ := policy
    simp only [hpolicy, bind_ok, pure_ok] at h
    obtain ⟨events, -, rfl⟩ := h
    simp only [Store.toLedger, Table.update_update, Option.any_some]
    have hrows : ∀ id (k : JobRow), (if failFastCandidate job sweep cancelRunning id k then k.stop
        else k).uncounted = if failFastCandidate job sweep cancelRunning id k.uncounted then
          k.uncounted.halt else k.uncounted := by
      intro id k
      have hsame : failFastCandidate job sweep cancelRunning id k.uncounted
        = failFastCandidate job sweep cancelRunning id k := rfl
      rw [hsame]
      split_ifs <;> rfl
    simp only [hrows]

/-- A job does not stop itself. -/
theorem Ledger.stops_self (l : Ledger) (job : Uuid) (j : JobRow) (next : JobState) (k : JobRow) :
    l.stops job j next job k = false := by
  unfold Ledger.stops
  cases j.sweep with
  | none => simp
  | some x =>
    simp only
    cases l.sweeps.lookup x.1 with
    | none => simp
    | some row => simp [failFastCandidate]

/-- **The end of an attempt closes it in the ledger**, whatever the rows it
writes, if they do not depend on the events counted. -/
theorem endAttempt_toLedger {logged : Store} {own : JobRow → JobRow}
    {ended : AttemptRow → AttemptRow} {held : ReservationState} {body : EventBody}
    (hown : ∀ k, (own k).uncounted = own k.uncounted) (hsweep : ∀ k, (own k).sweep = k.sweep)
    (hj : s.jobs.lookup job = some j)
    (hlogged : (s.endAttempt job attempt own ended ({ · with state := held })).appendEvent now job
      (some attempt) body = .ok logged)
    (hlast : (if (own j).state = .failed then applySweepFailFast logged now job else pure logged)
      = .ok s') : s'.toLedger = s.toLedger.close job attempt j.uncounted own ended held := by
  have hstate : (own j.uncounted).state = (own j).state := by rw [← hown]; rfl
  have hledger := Store.toLedger_appendEvent hlogged
  obtain ⟨row, events, hrow, -, rfl⟩ := Store.appendEvent_eq_ok hlogged
  obtain rfl : own j = row := by
    simpa [Store.endAttempt, Table.lookup_modify, hj] using hrow
  set logged := { s.endAttempt job attempt own ended ({ · with state := held }) with
    jobs := (s.endAttempt job attempt own ended ({ · with state := held })).jobs.modify job
      (fun j => { j with eventSequence := j.eventSequence + 1 })
    events := events } with hdef
  have hclosed : logged.toLedger = { s.toLedger with
      jobs := s.toLedger.jobs.modify job own
      attempts := s.attempts.modify attempt ended
      reservations := s.reservations.modify attempt ({ · with state := held }) } := by
    rw [hledger]
    simp only [Store.toLedger, Store.endAttempt, Table.modify_eq_update, Table.update_update]
    have hrows : ∀ id k, (if id = job then own k else k).uncounted
        = if id = job then own k.uncounted else k.uncounted := by
      intro id k
      split_ifs
      · exact hown k
      · rfl
    simp only [hrows]
  have hfound : logged.jobs.lookup job = some { own j with
      eventSequence := (own j).eventSequence + 1 } := by
    simp [hdef, hrow]
  split_ifs at hlast with hfailed
  · rw [applySweepFailFast_toLedger hlast hfound, hclosed, Ledger.close]
    simp only [Table.modify_eq_update, Table.update_update]
    have hrows : ∀ id k, Ledger.stops { s.toLedger with
        jobs := s.toLedger.jobs.update (fun id k => if id = job then own k else k)
        attempts := s.attempts.update (fun id a => if id = attempt then ended a else a)
        reservations := s.reservations.update (fun id r =>
          if id = attempt then { r with state := held } else r) } job
        { own j with eventSequence := (own j).eventSequence + 1 } (own j).state id k
        = s.toLedger.stops job j.uncounted (own j.uncounted).state id k := by
      intro id k
      simp only [Ledger.stops, hstate, hsweep]
      rfl
    simp only [hrows]
    refine congrArg (fun jobs => { s.toLedger with
      jobs := jobs
      attempts := s.attempts.update (fun id a => if id = attempt then ended a else a)
      reservations := s.reservations.update (fun id r =>
        if id = attempt then { r with state := held } else r) }) ?_
    refine congrArg s.toLedger.jobs.update (funext₂ fun id k => ?_)
    by_cases hid : id = job
    · rw [if_pos hid, if_pos hid, hid, Ledger.stops_self]
      rfl
    · rw [if_neg hid, if_neg hid]
  · obtain rfl := pure_ok.mp hlast
    rw [hclosed, Ledger.close]
    simp only [Ledger.stops, hstate, decide_eq_false hfailed, Bool.false_and, Bool.false_eq_true,
      if_false]
    rfl

/-! ## Fences and completions -/

/-- **The current attempt of a job holds it**: what a fence or a completion
relies on and does not check. -/
theorem Ledger.Holds.of_owned {r : ReservationRow}
    (hown : Ownership.Owned (s.view settled replaced)) (hj : s.jobs.lookup job = some j)
    (hcurrent : j.currentAttempt = some attempt) (ha : s.attempts.lookup attempt = some a)
    (hr : s.reservations.lookup attempt = some r) (hheld : r.state = .active) :
    s.toLedger.Holds job attempt j.uncounted a r := by
  have htask : (s.view settled replaced).task job = some j.task :=
    congrArg (Option.map JobRow.task) hj
  obtain ⟨g, c, hg, hjob, hlive, -, hgeneration, -⟩ := hown.owner job j.task attempt htask hcurrent
  obtain rfl := Option.some.inj ((congrArg (Option.map AttemptRow.grant) ha).symm.trans hg)
  have howned : j.state = .active ∨ j.state = .cancelling :=
    (owned_iff_current hown hj).mpr (by rw [hcurrent]; rfl)
  refine ⟨Store.toLedger_job hj, ?_, hcurrent, ha, hjob, hgeneration, hlive, hr, hheld⟩
  obtain hstate | hstate := howned <;> simp [JobRow.uncounted, hstate, JobState.isOwned]

/-- **A fence closes the attempt** and keeps its capacity in quarantine. -/
theorem fenceLostAttempt_close
    (h : fenceLostAttempt sha s now job attempt = .ok s')
    (hown : Ownership.Owned (s.view settled replaced)) :
    ∃ j a r, s.toLedger.Holds job attempt j a r ∧
      s'.toLedger = s.toLedger.close job attempt j (·.fence (fenceOutcome sha j a attempt now))
        (·.fence (fenceOutcome sha j a attempt now) now) .quarantined := by
  obtain ⟨j, a, r, logged, hj, hcurrent, ha, hr, hheld, hlogged, hlast⟩ :=
    fenceLostAttempt_eq_ok h
  exact ⟨j.uncounted, a, r, .of_owned hown hj hcurrent ha hr hheld,
    endAttempt_toLedger (fun _ => rfl) (fun _ => rfl) hj hlogged hlast⟩

theorem fenceLostAttempt_ledger
    (h : fenceLostAttempt sha s now job attempt = .ok s')
    (hown : Ownership.Owned (s.view settled replaced)) (hop : ∀ key, ¬ op.acquires key) :
    Ledger.Step sha op now s.toLedger s'.toLedger := by
  obtain ⟨j, a, r, hholds, hledger⟩ := fenceLostAttempt_close h hown
  rw [hledger]
  exact .fence s.toLedger job attempt j a r hholds hop

/-- The host of a lost attempt is ineligible. -/
def Ledger.retire (l : Ledger) (worker : Uuid) : Ledger :=
  { l with
    workers := l.workers.modify worker (fun w => { w with
      state := .registering
      reconciliationComplete := false }) }

/-- **What the reaper does**: nothing, or one fence that retires the host. -/
theorem reapOneExpiredAttempt_cases {x : Bool × Bool}
    (h : reapOneExpiredAttempt sha s seen observed now = .ok (s', x)) :
    s' = s ∨ ∃ job attempt a fenced, s.attempts.lookup attempt = some a ∧
      fenceLostAttempt sha s now job attempt = .ok fenced ∧
      s' = { fenced with
        workers := fenced.workers.modify a.worker (fun w => { w with
          state := .registering
          reconciliationComplete := false }) } := by
  unfold reapOneExpiredAttempt at h
  split at h
  · obtain ⟨rfl, -⟩ := pure_pair_ok.mp h
    exact .inl rfl
  · rename_i attempt candidate hcandidate
    simp only [bind_ok, orThrow_ok] at h
    obtain ⟨j, -, a, ha, h⟩ := h
    split at h
    · obtain ⟨rfl, -⟩ := pure_pair_ok.mp h
      exact .inl rfl
    · simp only [bind_ok, pure_pair_ok] at h
      obtain ⟨fenced, hfenced, rfl, -⟩ := h
      exact .inr ⟨candidate.job, attempt, a, fenced, ha, hfenced, rfl⟩

theorem reapOneExpiredAttempt_ledger {x : Bool × Bool}
    (h : reapOneExpiredAttempt sha s seen observed now = .ok (s', x))
    (hown : Ownership.Owned s.ownership) :
    Ledger.Steps sha (.reap seen observed) now s.toLedger s'.toLedger := by
  have hop : ∀ key, ¬ (Op.reap seen observed).acquires key := by simp [Op.acquires]
  obtain rfl | ⟨job, attempt, a, fenced, -, hfenced, rfl⟩ := reapOneExpiredAttempt_cases h
  · exact .refl
  · exact (Relation.ReflTransGen.single (fenceLostAttempt_ledger hfenced hown hop)).tail
      (.retire fenced.toLedger a.worker)

/-- **A verified output is a row of both catalogues.** -/
theorem completionOutput_eq_ok {job : Job} {c : CompletionOutput} {o : PublishedArtifact}
    (h : completionOutput s r job c = .ok o) :
    o.name = c.name ∧ o.artifactID = c.artifactID ∧
      (∃ a u, s.artifacts.lookup o.artifactID = some a ∧ s.uploads.lookup a.upload = some u ∧
        u.claims.authority.attemptID = r.authority.attemptID ∧ u.claims.kind = .output ∧
        u.claims.logicalName = o.name ∧
        o.object = ⟨u.key a.upload, a.objectVersion, u.claims.sizeBytes, u.claims.sha256⟩ ∧
        ∃ d ∈ job.spec.outputs, d.name = o.name ∧ u.claims.sizeBytes ≤ d.maxBytes) ∧
      (c.name = "metrics" → ∃ d ∈ r.metricsJSON, o.object.sha256 = d.sha256 ∧
        o.object.sizeBytes = d.length) := by
  simp only [completionOutput, bind_ok, orThrow_ok, require_ok, pure_ok] at h
  obtain ⟨d, hd, o', ho, -, ⟨hkind, hname, hsize⟩, -, hmetrics, rfl⟩ := h
  simp only [attemptArtifact, Option.bind_eq_bind, Option.bind_eq_some_iff] at ho
  obtain ⟨a, ha, u, hu, ho⟩ := ho
  split_ifs at ho with hattempt
  simp only [publishedArtifact, hu, Option.map_some, Option.some.injEq] at ho
  subst ho
  have hdeclared := List.mem_of_find?_eq_some hd
  have hdname : d.name = c.name := by simpa using List.find?_some hd
  exact ⟨hname, rfl, ⟨a, u, ha, hu, hattempt, hkind, rfl, rfl, d, hdeclared,
    hdname.trans hname.symm, hsize⟩, hmetrics⟩

/-- **The manifest of a completion publishes what it may.** -/
theorem completionManifest_publishes {state : AttemptState}
    (hp : normalizeCompletion r = .ok p) (h : completionManifest s r p j state completed = .ok m) :
    s.toLedger.Publishes r j.spec.spec m := by
  simp only [completionManifest, bind_ok, require_ok, pure_ok] at h
  obtain ⟨outputs, houtputs, _, hrequired, _, hmetrics, logs, -, -, -, -, -, rfl⟩ := h
  refine ⟨fun o ho => ?_, fun hreason d hd hreq => ?_, fun d hd => ?_, fun o ho hname => ?_,
    fun p' hp' => ?_⟩
  · obtain ⟨c, -, hc⟩ := mem_of_mapM_eq_ok houtputs ho
    exact (completionOutput_eq_ok hc).2.2.1
  · obtain ⟨c, hc, hname⟩ := List.mem_map.mp (hrequired hreason d hd hreq)
    obtain ⟨o, ho, hco⟩ := exists_mem_of_mapM_eq_ok houtputs hc
    exact ⟨o, ho, (completionOutput_eq_ok hco).1.trans hname⟩
  · have hsome := hmetrics (by rw [Option.mem_def.mp hd]; rfl)
    rw [Option.isSome_map] at hsome
    obtain ⟨c, hc⟩ := Option.isSome_iff_exists.mp hsome
    have hname : c.name = "metrics" := by simpa using List.find?_some hc
    obtain ⟨o, ho, hco⟩ := exists_mem_of_mapM_eq_ok houtputs (List.mem_of_find?_eq_some hc)
    obtain ⟨honame, hid, -, hbytes⟩ := completionOutput_eq_ok hco
    obtain ⟨d', hd', hsha, hsize⟩ := hbytes hname
    obtain rfl := Option.some.inj ((Option.mem_def.mp hd).symm.trans hd')
    exact ⟨o, ho, honame.trans hname, by rw [hc, hid]; rfl, hsha, hsize⟩
  · obtain ⟨c, -, hc⟩ := mem_of_mapM_eq_ok houtputs ho
    obtain ⟨honame, -, -, hbytes⟩ := completionOutput_eq_ok hc
    exact hbytes (honame.symm.trans hname)
  · obtain rfl := Except.ok.inj (hp.symm.trans hp')
    rfl

/-- **A completion that commits, on the ledger.** -/
theorem CompletionCommits.toLedger
    (h : CompletionCommits sha s s' completed now id r p a j m) :
    s'.toLedger = s.toLedger.complete completed r p j.uncounted
      (completionOutcome sha r j.spec completed now) m := by
  obtain ⟨recorded, hrecorded, hfinished⟩ := h.finished
  obtain ⟨res, logged, -, -, hlogged, hlast⟩ := finishAttempt_eq_ok hfinished
  have hjob : a.job = r.authority.jobID := congrArg AttemptAuthority.jobID h.authority
  simp only [recordCompletion, bind_ok, orThrow_ok, pure_ok] at hrecorded
  obtain ⟨rows, hrows, references, -, hrec⟩ := hrecorded
  obtain ⟨-, rfl⟩ := Table.insertNew_eq_some hrows
  have hledger : s'.toLedger = recorded.toLedger.close r.authority.jobID r.authority.attemptID
      j.uncounted
      (·.complete r.authority.attemptID (completionOutcome sha r j.spec completed now) m)
      (·.complete r p (completionOutcome sha r j.spec completed now).state completed)
      (if r.stopped then .released else .quarantined) :=
    endAttempt_toLedger (fun _ => rfl) (fun _ => rfl) (by rw [← hrec]; exact hjob ▸ h.job)
      hlogged hlast
  rw [hledger, ← hrec]
  rfl

theorem CompletionCommits.ledger
    (h : CompletionCommits sha s s' completed now id r p a j m)
    (hown : Ownership.Owned s.ownership) :
    Ledger.Step sha (.complete completed id r) now s.toLedger s'.toLedger := by
  obtain ⟨recorded, hrecorded, hfinished⟩ := h.finished
  obtain ⟨res, logged, hres, hheld, -, -⟩ := finishAttempt_eq_ok hfinished
  obtain ⟨-, -, hcurrent, -⟩ := completionDecision_accepted h.late
  have hjob : a.job = r.authority.jobID := congrArg AttemptAuthority.jobID h.authority
  have hreserved : s.reservations.lookup r.authority.attemptID = some res := by
    simp only [recordCompletion, bind_ok, pure_ok] at hrecorded
    obtain ⟨rows, -, references, -, rfl⟩ := hrecorded
    exact hres
  have hunused : ∀ attempt c, s.toLedger.completions.lookup attempt = some c →
      ¬ (c.worker = id.workerID ∧ c.session = r.authority.sessionID ∧
        c.completionID = r.completionID) :=
    fun attempt c hc => h.unused ⟨attempt, c⟩ (AList.mem_lookup_iff.mp hc)
  have hcompletes : s.toLedger.Completes completed now id r p j.uncounted a m :=
    ⟨h.payload, h.authority, h.first, hunused, h.mine, h.early, h.late, h.phase,
      completionManifest_publishes h.payload h.manifest⟩
  rw [h.toLedger]
  exact .complete s.toLedger completed id r p j.uncounted a res m rfl
    (.of_owned hown (hjob ▸ h.job) hcurrent h.attempt hreserved hheld) hcompletes

theorem completeAttempt_ledger {result : CompletionResult}
    (h : completeAttempt sha s completed now id r = .ok (s', result))
    (hown : Ownership.Owned s.ownership) :
    Ledger.Steps sha (.complete completed id r) now s.toLedger s'.toLedger := by
  obtain ⟨p, a, j, m, hcommit, -⟩ | ⟨rfl, -⟩ | ⟨rfl, -⟩ := completeAttempt_cases h
  · exact .single (hcommit.ledger hown)
  · exact .refl
  · exact .refl

/-! ## Assignments, leases and phases -/

/-- What the scheduler adds up is the load of the worker. -/
theorem sum_occupying (s : Store) (worker : Uuid) (weight : Resources → ℤ) :
    ((occupying s worker).map (fun r => weight r.resources)).sum
      = s.toLedger.load worker ReservationState.occupies weight := by
  rw [occupying, List.map_map]
  exact Table.sum_map_select s.reservations _ (fun _ r => weight r.resources)

/-- The worker as the scheduler reads it: its row, and what is left of each
measure. -/
theorem readAcquisitionWorker_eq_ok
    (h : readAcquisitionWorker s worker session = .ok w) :
    s.workers.lookup worker = some w.row ∧ isCurrentSession s worker session = true ∧
      w.free.cpuMillis = Measure.cpu.capacity w.row -
        s.toLedger.load worker ReservationState.occupies Measure.cpu.weight ∧
      w.free.memoryMiB = Measure.memory.capacity w.row -
        s.toLedger.load worker ReservationState.occupies Measure.memory.weight ∧
      w.free.scratchMiB = Measure.scratch.capacity w.row -
        s.toLedger.load worker ReservationState.occupies Measure.scratch.weight ∧
      w.slots = Measure.slot.capacity w.row -
        s.toLedger.load worker ReservationState.occupies Measure.slot.weight := by
  simp only [readAcquisitionWorker, bind_ok, orThrow_ok, require_ok, pure_ok] at h
  obtain ⟨row, hrow, -, hcurrent, rfl⟩ := h
  refine ⟨hrow, hcurrent, ?_, ?_, ?_, ?_⟩ <;>
    simp only [Measure.capacity, Measure.weight, ← sum_occupying, sumResources, List.map_map]
  · rfl
  · rfl
  · rfl
  · simp

theorem isCurrentSession_iff :
    isCurrentSession s worker session = true ↔ ∃ w ss, s.workers.lookup worker = some w ∧
      s.sessions.lookup session = some ss ∧ w.currentSession = some session ∧ ss.worker = worker ∧
      ss.fencedAt = none := by
  unfold isCurrentSession
  split
  · rename_i w ss hw hss
    simp only [hw, hss, Bool.and_eq_true, decide_eq_true_eq, Option.isNone_iff_eq_none,
      Option.some.injEq, exists_and_left, exists_eq_left', and_assoc]
  · rename_i hnone
    refine iff_of_false (by simp) ?_
    rintro ⟨w, ss, hw, hss, -⟩
    exact hnone w ss hw hss

/-- A worker that may take work is ready and reconciled. -/
theorem AcquisitionWorker.readiness_eq_none (h : w.readiness now policy = none) :
    w.row.state = .ready ∧ w.row.reconciliationComplete = true := by
  simp only [AcquisitionWorker.readiness] at h
  split_ifs at h with hready
  simp only [Bool.not_eq_true', Bool.not_eq_false, Bool.and_eq_true, decide_eq_true_eq] at hready
  exact ⟨hready.1.1.1.1.1, hready.1.1.1.2⟩

/-- **What the locked recheck passed** is what the ledger asks for. -/
theorem Assignable.assigns {request : AcquisitionRequest} {p : ProjectRow}
    (h : Assignable s now worker request policy job j w p)
    (hattempt : s.attempts.lookup attempt = none)
    (hreservation : s.reservations.lookup attempt = none) :
    s.toLedger.Assigns worker request.sessionID attempt job j.uncounted w.row := by
  obtain ⟨hrow, hcurrent, hcpu, hmemory, hscratch, hslots⟩ := readAcquisitionWorker_eq_ok h.host
  obtain ⟨w', ss, hw', hss, hseat, hworker, hunfenced⟩ := isCurrentSession_iff.mp hcurrent
  obtain rfl := Option.mem_unique hrow hw'
  have hfits := h.fits
  simp only [Resources.fits, Bool.and_eq_true, decide_eq_true_eq] at hfits
  refine ⟨Store.toLedger_job h.found, h.queued, h.uncancelled, h.valid, h.budget, hrow, hseat,
    ⟨ss, hss, hworker, hunfenced⟩, AcquisitionWorker.readiness_eq_none h.ready, fun m => ?_,
    hattempt, hreservation⟩
  cases m with
  | cpu => exact hcpu ▸ hfits.1.1
  | memory => exact hmemory ▸ hfits.1.2
  | scratch => exact hscratch ▸ hfits.2
  | slot => exact hslots ▸ h.slot

/-- **The writes of an assignment**, on the ledger. -/
theorem assignJob_toLedger
    (h : assignJob s now worker session attempt job j = .ok s') :
    s.attempts.lookup attempt = none ∧ s.reservations.lookup attempt = none ∧
      ∀ key,
        { s' with workerRequests := AList.insert key ⟨.inl attempt⟩ s'.workerRequests }.toLedger
        = s.toLedger.assign now worker session attempt job j.uncounted key := by
  simp only [assignJob, bind_ok, orThrow_ok] at h
  obtain ⟨attempts, hattempts, reservations, hreservations, h⟩ := h
  obtain ⟨hfree, rfl⟩ := Table.insertNew_eq_some hattempts
  obtain ⟨hfree', rfl⟩ := Table.insertNew_eq_some hreservations
  refine ⟨hfree, hfree', fun key => ?_⟩
  have hledger := Store.toLedger_appendEvent h
  have hjobs : (s.jobs.modify job fun k => { k with
      state := .active
      currentAttempt := some attempt
      attemptCounter := k.attemptCounter + 1 }).update (fun _ => JobRow.uncounted)
      = s.toLedger.jobs.modify job (fun k => { k with
        state := .active
        currentAttempt := some attempt
        attemptCounter := k.attemptCounter + 1 }) := by
    simp only [Table.modify_eq_update, Store.toLedger, Table.update_update]
    refine congrArg s.jobs.update (funext₂ fun id k => ?_)
    split_ifs <;> rfl
  have hkeyed : { s' with
      workerRequests := AList.insert key ⟨.inl attempt⟩ s'.workerRequests }.toLedger
      = { s'.toLedger with
        workerRequests := AList.insert key ⟨.inl attempt⟩ s'.toLedger.workerRequests } := rfl
  rw [hkeyed, hledger, Ledger.assign, ← hjobs]
  rfl

theorem acquireWork_ledger {queueNow : Time} {request : AcquisitionRequest}
    {result : AcquisitionResult}
    (h : acquireWork s observed queueNow now id request policy attempt = .ok (s', result)) :
    Ledger.Steps sha (.acquire observed queueNow id request policy attempt) now s.toLedger
      s'.toLedger := by
  have hop : (Op.acquire observed queueNow id request policy attempt).acquires
      (id.workerID, request.sessionID, request.requestID) :=
    ⟨observed, queueNow, id, request, policy, attempt, rfl, rfl⟩
  cases acquireWork_acquired h with
  | replayed => exact .refl
  | repeated => exact .refl
  | refused blockers sequence reason hkey hnotes =>
    exact .single (.refuse s.toLedger _ reason hop hkey)
  | assigned blockers sequence assigned job j w p inputs hkey hnotes hassignable hinputs
        hassigned =>
    obtain ⟨hattempt, hreservation, hledger⟩ := assignJob_toLedger hassigned
    rw [hledger]
    exact .single (.assign s.toLedger id.workerID request.sessionID request.requestID attempt job
      j.uncounted w.row hop hkey (hassignable.assigns hattempt hreservation))

/-- Grants to active attempts renew them one by one. -/
theorem applyGrants_ledger {grants : List LeaseGrant} (h : ∀ g ∈ grants, g.decision = .accepted →
      ∃ a, s.attempts.lookup g.authority.attemptID = some a ∧ a.state.isActive = true) :
    Ledger.Steps sha op now s.toLedger (grants.foldl Store.applyGrant s).toLedger := by
  induction grants generalizing s with
  | nil => exact .refl
  | cons g grants ih =>
    have hrest : ∀ g' ∈ grants, g'.decision = .accepted → ∃ a,
        (s.applyGrant g).attempts.lookup g'.authority.attemptID = some a ∧
          a.state.isActive = true := by
      intro g' hg' haccepted
      obtain ⟨a, ha, hactive⟩ := h g' (List.mem_cons_of_mem _ hg') haccepted
      unfold Store.applyGrant
      split_ifs
      · simp only [Table.lookup_modify, ha, Option.map_some]
        split_ifs
        · exact ⟨_, rfl, hactive⟩
        · exact ⟨a, rfl, hactive⟩
      · exact ⟨a, ha, hactive⟩
    refine .trans ?_ (ih hrest)
    by_cases haccepted : g.decision = .accepted
    · obtain ⟨a, ha, hactive⟩ := h g List.mem_cons_self haccepted
      rw [Store.applyGrant, if_pos haccepted]
      exact .single (.renew s.toLedger g.authority.attemptID a g.leaseExpiresAt ha hactive)
    · rw [Store.applyGrant, if_neg haccepted]

theorem renewLeases_ledger {r : LeaseRenewal} {grants : List LeaseGrant}
    (h : renewLeases s seen now id r = .ok (s', grants)) :
    Ledger.Steps sha op now s.toLedger s'.toLedger := by
  obtain ⟨-, ⟨saved, rfl, -⟩ | ⟨-, requests, rfl⟩⟩ := renewLeases_eq_ok h
  · exact .refl
  · refine applyGrants_ledger fun g hg haccepted => ?_
    obtain ⟨l, hl, -, hactive, -⟩ :=
      leaseDecision_eq_accepted.mp (renewLeases_accepted h hg haccepted)
    obtain ⟨a, ha, rfl⟩ := lockedAttempt_eq_some hl
    exact ⟨a, ha, hactive⟩

/-- An accepted report of a phase its attempt is not in. -/
theorem PhaseAccepted.enters {r : PhaseReport} {deadline : Time}
    (h : PhaseAccepted s now id r a j deadline) (hmoves : a.state ≠ r.claims.phase) :
    s.toLedger.Enters now r.claims.authority.attemptID a r.claims deadline := by
  obtain ⟨l, hl, -, hactive, -, -, -, hearly⟩ := leaseDecision_eq_accepted.mp h.accepted
  obtain rfl := Option.some.inj hl
  exact ⟨h.attempt, hactive, h.evidence, hmoves, hearly, j.uncounted, Store.toLedger_job h.job,
    h.deadline⟩

theorem reportPhase_ledger {r : PhaseReport} {result : MutationResult}
    (h : reportPhase s seen now id r = .ok (s', result)) :
    Ledger.Steps sha (.phase seen id r) now s.toLedger s'.toLedger := by
  obtain ⟨rfl, -⟩ | ⟨a, j, deadline, haccepted, -, ⟨-, rfl⟩ | ⟨hmoves, hlogged⟩⟩ :=
    reportPhase_cases h
  · exact .refl
  · exact .refl
  · rw [Store.toLedger_appendEvent hlogged]
    exact .single (.phase s.toLedger r.claims.authority.attemptID a r.claims deadline
      ⟨seen, id, r, rfl⟩ (haccepted.enters hmoves))

/-! ## Sessions -/

theorem lt_nextGeneration {id : Uuid} {ss : SessionRow} (h : s.sessions.lookup id = some ss)
    (hworker : ss.worker = worker) : ss.generation < nextGeneration s worker := by
  have hmem : ss.generation ∈ (s.sessions.select (fun _ ss => decide (ss.worker = worker))).map
      (fun x => x.2.generation) :=
    List.mem_map.mpr ⟨(id, ss), (Table.mem_select ..).mpr ⟨h, decide_eq_true hworker⟩, rfl⟩
  unfold nextGeneration
  generalize (s.sessions.select (fun _ ss => decide (ss.worker = worker))).map
    (fun x => x.2.generation) = l at hmem
  refine Nat.lt_succ_of_le ?_
  induction l with
  | nil => exact absurd hmem List.not_mem_nil
  | cons g l ih =>
    obtain rfl | hmem := List.mem_cons.mp hmem
    · exact le_max_left _ _
    · exact (ih hmem).trans (le_max_right _ _)

/-- The claims of a registration pass the checks of its hash. -/
theorem Registration.hash_eq_ok {r : Registration} {hash : RegistrationClaims}
    (h : r.hash = .ok hash) : hash.sessionID = r.claims.sessionID ∧
      validateWorkerConfiguration hash.resources hash.slots hash.labels = true := by
  simp only [Registration.hash, bind_ok, require_ok, pure_ok] at h
  obtain ⟨-, -, -, hvalid, -, -, rfl⟩ := h
  exact ⟨rfl, hvalid⟩

/-- **A new session is seated** on a ledger whose worker it finds vacant. -/
theorem installSession_ledger {l : Ledger} {t : Store} {request : Uuid} {w : WorkerRow}
    {hash : RegistrationClaims} {result : Session}
    (h : installSession t now worker request hash = .ok (s', result))
    (hledger : t.toLedger = { l with sessions := t.sessions, takeovers := t.takeovers })
    (hvacant : l.sessions.lookup hash.sessionID = none →
      (∀ id ss, l.sessions.lookup id = some ss → ss.worker = worker →
        ss.generation < nextGeneration t worker) →
      l.Vacant now worker w hash t.sessions (nextGeneration t worker) t.takeovers)
    (hsessions : ∀ id ss, l.sessions.lookup id = some ss → ∃ ss', t.sessions.lookup id = some ss' ∧
      ss'.worker = ss.worker ∧ ss'.generation = ss.generation)
    (hop : ∃ identity r, op = .register identity r) : Ledger.Step sha op now l s'.toLedger := by
  simp only [installSession, bind_ok, orThrow_ok, pure_pair_ok] at h
  obtain ⟨sessions, hinsert, rfl, -⟩ := h
  obtain ⟨hfree, rfl⟩ := Table.insertNew_eq_some hinsert
  have hnew : l.sessions.lookup hash.sessionID = none := by
    by_contra hne
    obtain ⟨ss, hss⟩ := Option.ne_none_iff_exists'.mp hne
    obtain ⟨ss', hss', -⟩ := hsessions _ _ hss
    exact absurd (hfree.symm.trans hss') (by simp)
  have hnewest : ∀ id ss, l.sessions.lookup id = some ss → ss.worker = worker →
      ss.generation < nextGeneration t worker := by
    intro id ss hss hworker
    obtain ⟨ss', hss', hworker', hgeneration⟩ := hsessions id ss hss
    exact hgeneration ▸ lt_nextGeneration hss' (hworker'.trans hworker)
  have hstep : Ledger.Step sha op now l (l.install now worker hash t.sessions
      (nextGeneration t worker) t.takeovers) :=
    .seat l worker w hash t.sessions (nextGeneration t worker) t.takeovers (hvacant hnew hnewest)
      hop
  have hworkers : t.workers = l.workers := congrArg Ledger.workers hledger
  have hsame : ∀ u : Store, (u.recordRegistration worker request hash).toLedger = u.toLedger := by
    intro u
    unfold Store.recordRegistration
    split_ifs <;> rfl
  have hend : { t with
      sessions := AList.insert hash.sessionID
        ⟨worker, nextGeneration t worker, now, none, hash, 0, none, none⟩ t.sessions
      workers := t.workers.modify worker (·.register now hash) }.toLedger = { t.toLedger with
      sessions := AList.insert hash.sessionID
        ⟨worker, nextGeneration t worker, now, none, hash, 0, none, none⟩ t.sessions
      workers := t.workers.modify worker (·.register now hash) } := rfl
  rw [hsame, hend, hledger, hworkers]
  exact hstep

/-- An approval that a replacement uses was there and unused. -/
theorem vacate_takeovers {fenced : Store} {fromSession toSession : Uuid}
    (hkeeps : fenced.takeovers = s.takeovers) :
    let approved := takeoverApproved s worker fromSession toSession
    (fenced.vacate now worker fromSession approved).takeovers = fenced.takeovers ∨
      ∃ k t, fenced.takeovers.lookup k = some t ∧ t.usedAt = none ∧
        (fenced.vacate now worker fromSession approved).takeovers
          = fenced.takeovers.modify k (fun t => { t with usedAt := some now }) := by
  simp only [Store.vacate]
  split_ifs with happroved
  · refine .inr ?_
    unfold takeoverApproved at happroved
    split at happroved
    · rename_i t ht
      simp only [Bool.and_eq_true, decide_eq_true_eq, Option.isNone_iff_eq_none] at happroved
      exact ⟨(worker, fromSession), t, hkeeps ▸ ht, happroved.2, rfl⟩
    · exact absurd happroved (by simp)
  · exact .inl rfl

theorem registerSession_ledger {r : Registration} {result : Session}
    (h : registerSession sha s now id r = .ok (s', result)) (hc : Coherent s now)
    (hown : Ownership.Owned s.ownership) :
    Ledger.Steps sha (.register id r) now s.toLedger s'.toLedger := by
  have hop : ∀ key, ¬ (Op.register id r).acquires key := by simp [Op.acquires]
  simp only [registerSession, bind_ok, orThrow_ok] at h
  obtain ⟨hash, hhash, -, -, -, -, w, hw, -, -, -, -, h⟩ := h
  obtain ⟨hid, hvalid⟩ := Registration.hash_eq_ok hhash
  split at h
  · split_ifs at h
    · simp only [bind_ok, pure_pair_ok] at h
      obtain ⟨-, -, -, -, rfl, -⟩ := h
      unfold Store.recordRegistration
      split_ifs <;> exact .refl
  · split at h
    · rename_i current hcurrent
      simp only [bind_ok] at h
      obtain ⟨recovered, hrecovered, hinstalled⟩ := h
      have hvacated : Vacated now s recovered id.workerID :=
        recoverSession_vacated hrecovered hown hc
      obtain ⟨-, fenced, -, rfl, -, hkeeps, hsteps⟩ := recoverSession_induction
        (fun u => KeepsHolders s u ∧
          Ledger.Steps sha (.register id r) now s.toLedger u.toLedger)
        ⟨.refl s, .refl⟩ (fun u x u' _ howned hu hfence =>
          ⟨hu.1.trans (fenceLostAttempt_keeps hfence).1,
            hu.2.tail (fenceLostAttempt_ledger hfence howned hop)⟩) hrecovered hown hc
      refine hsteps.tail (installSession_ledger hinstalled rfl (fun hnew hnewest =>
        ⟨hkeeps.workers ▸ hw, hvacated.free, hvalid, .inl rfl, hnew, hnewest, ?_⟩) ?_ ⟨id, r, rfl⟩)
      · exact vacate_takeovers hkeeps.takeovers
      · intro x ss hss
        simp only [Store.vacate, Table.lookup_update]
        rw [show fenced.sessions.lookup x = some ss from hss]
        refine ⟨_, rfl, ?_⟩
        dsimp only
        split_ifs <;> exact ⟨rfl, rfl⟩
    · rename_i hnone
      have hseat : s.seat id.workerID = none := by rw [Store.seat, hw]; exact hnone
      have hvacated : Vacated now s s id.workerID := .of_seat_none hseat hown hc
      exact .single (installSession_ledger h rfl (fun hnew hnewest =>
        ⟨hw, hvacated.free, hvalid, .inr ⟨rfl, hnone⟩, hnew, hnewest, .inl rfl⟩)
        (fun x ss hss => ⟨ss, hss, rfl, rfl⟩) ⟨id, r, rfl⟩)

/-! ## Heartbeats -/

/-- An attempt a heartbeat looks at, with its rows. -/
theorem mem_heartbeatAttempts {inventory : List ExecutionRecord} {h : HeartbeatAttempt} :
    h ∈ heartbeatAttempts s worker inventory ↔
      ∃ id a j r ss, s.attempts.lookup id = some a ∧ a.worker = worker ∧
        s.jobs.lookup a.job = some j ∧ s.reservations.lookup id = some r ∧
        s.sessions.lookup a.session = some ss ∧
        h = ⟨a.authority id, a.state, r.state, a.leaseExpiresAt, j.currentAttempt, ss.fencedAt,
          j.cancelRequested⟩ ∧
        (a.state.isActive = true ∨ r.state = .quarantined ∨
          id ∈ inventory.map (fun r => r.authority.attemptID)) := by
  simp only [heartbeatAttempts, List.mem_filterMap, Prod.exists, Table.mem_select,
    Option.filter_eq_some_iff, heartbeatAttempt, Option.bind_eq_bind, Option.bind_eq_some_iff,
    Option.pure_def, Option.some.injEq, decide_eq_true_eq, Bool.or_eq_true]
  constructor
  · rintro ⟨id, a, ⟨ha, hworker⟩, ⟨j, hj, r, hr, ss, hss, rfl⟩, hlisted⟩
    exact ⟨id, a, j, r, ss, ha, hworker, hj, hr, hss, rfl, or_assoc.mp hlisted⟩
  · rintro ⟨id, a, j, r, ss, ha, hworker, hj, hr, hss, rfl, hlisted⟩
    exact ⟨id, a, ⟨ha, hworker⟩, ⟨j, hj, r, hr, ss, hss, rfl⟩, or_assoc.mpr hlisted⟩

/-- **What a report releases** is quarantined and has ended under a session
that is fenced and not the reporting one. -/
theorem mem_released {id : Uuid} {h : HeartbeatReport} (hid : id ∈ h.released s now worker) :
    s.toLedger.Releasable worker h.claims.sessionID id := by
  unfold HeartbeatReport.released releasedAttempts at hid
  split_ifs at hid
  · obtain ⟨x, hx, rfl⟩ := List.mem_map.mp hid
    obtain ⟨hmem, hreleasable⟩ := List.mem_filter.mp hx
    obtain ⟨id, a, j, r, ss, ha, hworker, hj, hr, hss, rfl, -⟩ := mem_heartbeatAttempts.mp hmem
    simp only [releasable, Bool.and_eq_true, decide_eq_true_eq, Bool.not_eq_true',
      Option.isSome_iff_ne_none] at hreleasable
    obtain ⟨⟨⟨hquarantined, hother⟩, hfenced⟩, hended⟩ := hreleasable
    exact ⟨⟨r, hr, hquarantined⟩, a, ss, ha, hworker, hended, hother, hss, hfenced⟩
  · exact absurd hid List.not_mem_nil

/-- **What a first report of its number has passed**, on the ledger. -/
theorem HeartbeatReport.reports {report : HeartbeatReport} {w : WorkerRow} {ss : SessionRow}
    (hw : s.workers.lookup id.workerID = some w)
    (hss : s.sessions.lookup report.claims.sessionID = some ss)
    (hcurrent : isCurrentSession s id.workerID report.claims.sessionID = true)
    (hnewer : ss.heartbeatSequence < report.claims.sequence) :
    s.toLedger.Reports id report w (report.released s now id.workerID)
      (report.reconciled s now id.workerID) := by
  obtain ⟨w', ss', hw', hss', hseat, hworker, hunfenced⟩ := isCurrentSession_iff.mp hcurrent
  obtain rfl := Option.mem_unique hw hw'
  obtain rfl := Option.mem_unique hss hss'
  refine ⟨hw, hseat, ⟨ss, hss, hworker, hunfenced, hnewer⟩, fun _ => mem_released,
    fun hclean attempt a j r session ha hplace hj hr hsession hquarantined => ?_⟩
  simp only [HeartbeatReport.reconciled, Bool.and_eq_true, Bool.not_eq_true',
    Bool.or_eq_false_iff] at hclean
  obtain ⟨k, hk, rfl⟩ := Store.job_of_toLedger hj
  by_contra hkept
  have hleft : quarantineLeft (heartbeatAttempts s id.workerID report.claims.inventory)
      (report.released s now id.workerID) = true :=
    List.any_eq_true.mpr ⟨_, mem_heartbeatAttempts.mpr ⟨attempt, a, k, r, session, ha, hplace, hk,
      hr, hsession, rfl, .inr (.inl hquarantined)⟩, by simp [hquarantined, AttemptRow.authority,
        hkept]⟩
  exact absurd (hclean.1.2.symm.trans hleft) (by simp)

theorem recordHeartbeat_ledger {report : HeartbeatReport} {result : HeartbeatResult}
    (h : recordHeartbeat s now id report = .ok (s', result)) :
    Ledger.Steps sha (.heartbeat id report) now s.toLedger s'.toLedger := by
  obtain ⟨w, ss, hash, hw, hss, hcurrent, -, ⟨rfl, -⟩ | ⟨hnewer, rfl⟩⟩ := recordHeartbeat_cases h
  · exact .refl
  · exact .single (.report s.toLedger id report hash w _ _ rfl
      (HeartbeatReport.reports hw hss hcurrent hnewer))

/-! ## Every transaction -/

theorem requestWorkerDrain_ledger {project : Uuid}
    (h : requestWorkerDrain s project worker = .ok s') :
    Ledger.Steps sha op now s.toLedger s'.toLedger := by
  simp only [requestWorkerDrain, bind_ok] at h
  obtain ⟨-, -, -, -, w, -, -, -, h⟩ := h
  split_ifs at h
  · obtain rfl := pure_ok.mp h
    exact .refl
  · obtain rfl := pure_ok.mp h
    exact .single (.drain s.toLedger worker)

theorem approveSessionTakeover_ledger {fromSession toSession : Uuid}
    (h : approveSessionTakeover s worker fromSession toSession = .ok s') :
    Ledger.Steps sha op now s.toLedger s'.toLedger := by
  simp only [approveSessionTakeover, bind_ok] at h
  obtain ⟨-, -, h⟩ := h
  split at h
  · simp only [bind_ok, pure_ok] at h
    obtain ⟨-, -, rfl⟩ := h
    exact .refl
  · rename_i hnone
    simp only [bind_ok, pure_ok] at h
    obtain ⟨w, -, -, -, -, -, -, -, rfl⟩ := h
    exact .single (.approve s.toLedger worker fromSession toSession hnone)

/-- **Every transaction is a sequence of steps of the ledger.** -/
theorem Op.exec_ledger {reply : Reply} (h : op.exec sha s now = .ok (s', reply))
    (hc : Coherent s now) (hown : Ownership.Owned s.ownership) :
    Ledger.Steps sha op now s.toLedger s'.toLedger := by
  have hexec := h
  cases op
  all_goals simp only [Op.exec, bind_ok, orThrow_ok, pure_pair_ok] at h
  case submitJob =>
    obtain ⟨⟨t, _⟩, ht, rfl, -⟩ := h
    exact .single (.admits _ _ (submitJobResolved_admits ht))
  case submitSweep =>
    obtain ⟨⟨t, _⟩, ht, rfl, -⟩ := h
    exact .single (.admits _ _ (submitSweepResolved_admits ht))
  case retrySweep =>
    obtain ⟨⟨t, _⟩, ht, rfl, -⟩ := h
    exact .single (.admits _ _ (retrySweep_admits ht))
  case cancel =>
    obtain ⟨t, ht, rfl, -⟩ := h
    exact requestCancellation_ledger ht
  case acquire =>
    obtain ⟨⟨t, _⟩, ht, rfl, -⟩ := h
    exact acquireWork_ledger ht
  case renew =>
    obtain ⟨⟨t, _⟩, ht, rfl, -⟩ := h
    exact renewLeases_ledger ht
  case phase =>
    obtain ⟨⟨t, _⟩, ht, rfl, -⟩ := h
    exact reportPhase_ledger ht
  case createUpload | bindMultipart | preparePart | completeMultipart | finalizeUpload =>
    exact (Op.exec_filings hexec rfl (by simp only [Op.footprint]; decide)).ledger
  case registerLog =>
    obtain ⟨⟨t, _⟩, ht, rfl, -⟩ := h
    obtain ⟨-, -, -, -, upload, u, -, rfl⟩ | ⟨rfl, -⟩ | ⟨rfl, -⟩ := registerLogSegment_cases ht
    all_goals exact .refl
  case complete =>
    obtain ⟨⟨t, _⟩, ht, rfl, -⟩ := h
    exact completeAttempt_ledger ht hown
  case reap =>
    obtain ⟨⟨t, _⟩, ht, rfl, -⟩ := h
    exact reapOneExpiredAttempt_ledger ht hown
  case approveTakeover =>
    obtain ⟨t, ht, rfl, -⟩ := h
    exact approveSessionTakeover_ledger ht
  case register =>
    obtain ⟨⟨t, _⟩, ht, rfl, -⟩ := h
    exact registerSession_ledger ht hc hown
  case heartbeat =>
    obtain ⟨⟨t, _⟩, ht, rfl, -⟩ := h
    exact recordHeartbeat_ledger ht
  case drain =>
    obtain ⟨t, ht, rfl, -⟩ := h
    exact requestWorkerDrain_ledger ht
  case provision worker row =>
    obtain ⟨workers, hworkers, rfl, -⟩ := h
    obtain ⟨hfree, rfl⟩ := Table.insertNew_eq_some hworkers
    exact .single (.provision s.toLedger worker row hfree)
  case registerDataset id row =>
    obtain ⟨t, ht, rfl, -⟩ := h
    obtain ⟨hfree, hvalid, rfl⟩ := registerDataset_eq_ok ht
    exact .single (.dataset s.toLedger id row hfree hvalid)
  case operate projects credentials workerProjects =>
    obtain ⟨_, hnil, rfl, -⟩ := h
    exact .single (.operate s.toLedger projects (by simpa using hnil))

end Dispatch
