import Dispatch.Outcome.Cancellation
import Dispatch.Store.Arguments

/-!
# Fail-fast

When a child of a sweep fails for good, `applySweepFailFast` stops its siblings
in the same transaction: those that wait are cancelled, and those that run are
asked to stop if the sweep says so. Children are created with their sweep, so
there is nothing else to stop.

The statement is applied once. A sibling that is left running and fails later
in a way its document retries goes back to waiting, and is assigned again:
`fail_fast_retries` is such a run. What the code does guarantee is the promise
without that case (`fail_fast_stops`): if the siblings left running have no
attempt left, no child of the sweep is ever assigned again. The property that
lasts is `Ledger.Halted`.
-/

namespace Dispatch

open Txn

variable {sha : Uuid → ℕ} {op : Op} {now : Time}

variable {l l' : Ledger} {j j' : JobRow}

/-- The job is a child of the sweep. -/
def JobRow.childOf (j : JobRow) (sweep : Uuid) : Prop := j.sweep.map Prod.fst = some sweep

/-- **Nothing left to try**: the next failure of the job is permanent. -/
def JobRow.Spent (j : JobRow) : Prop :=
  j.spec.spec.retry.maxAttempts ≤ j.attemptCounter ∨ j.spec.spec.retry.on = []

/-- **A sweep that will not be assigned again**: no child waits, and none that
runs can come to wait. -/
structure Ledger.Halted (l : Ledger) (sweep : Uuid) : Prop where
  known : l.sweeps.lookup sweep ≠ none
  still : ∀ id k, l.jobs.lookup id = some k → k.childOf sweep →
    k.state.isQueued = false ∧ (k.state = .active → k.Spent)

/-! ## One step -/

/-- No child of a known sweep is admitted. -/
theorem Ledger.Admitted.not_childOf {id sweep : Uuid} {k : JobRow}
    (h : l.Admitted l' id k) (hknown : l.sweeps.lookup sweep ≠ none) : ¬ k.childOf sweep := by
  intro hchild
  obtain ⟨x, hx, rfl⟩ := Option.map_eq_some_iff.mp hchild
  exact hknown (h.sweep x hx).1

/-- **A halted sweep stays halted.** -/
theorem Ledger.Halted.step {sweep : Uuid} (hh : l.Halted sweep) (hs : l.Sound)
    (h : Ledger.Step sha op now l l') : l'.Halted sweep := by
  obtain ⟨row, hrow⟩ := Option.ne_none_iff_exists'.mp hh.known
  refine ⟨by simp [h.later.sweeps _ _ hrow], fun id k' hk' hchild => ?_⟩
  obtain ⟨k, hk, hmoves⟩ | ⟨-, hadmitted⟩ := h.jobs.found id k' hk'
  · have hbefore : k.childOf sweep := by
      rw [JobRow.childOf, ← hmoves.later.sweep]
      exact hchild
    obtain ⟨hwaits, hruns⟩ := hh.still id k hk hbefore
    cases hmoves with
    | stay => exact ⟨hwaits, hruns⟩
    | halt hstate =>
      simp only [JobRow.halt]
      split_ifs <;> simp [JobState.isQueued]
    | assign attempt hqueued huncancelled hbudget =>
      exact absurd (hwaits.symm.trans hqueued) (by simp)
    | close next accepted manifest eligible howned hcancelled hnext =>
      -- A running child is spent, and one that is cancelled ends so.
      cases hc : k.cancelRequested with
      | true => simp [hcancelled hc, JobState.isQueued]
      | false =>
        obtain rfl | rfl | ⟨rfl, hbudget, hretries⟩ := hnext hc
        · simp [JobState.isQueued]
        · simp [JobState.isQueued]
        · have hactive : k.state = .active := by
            have hnot := mt (hs.jobs id k hk).cancelled.mpr (by simp [hc])
            cases hstate : k.state <;> simp_all [JobState.isOwned]
          obtain hover | hnever := hruns hactive
          · exact absurd hbudget (not_lt.mpr hover)
          · exact absurd hnever hretries
  · exact absurd hchild (hadmitted.not_childOf hh.known)

/-- The running siblings of a child have no attempt left. -/
def Ledger.LastAttempts (l : Ledger) (sweep job : Uuid) : Prop :=
  ∀ id k, l.jobs.lookup id = some k → k.childOf sweep → id ≠ job → k.state = .active → k.Spent

/-- A transaction that acquires nothing makes no job run. -/
theorem Ledger.LastAttempts.step {sweep job : Uuid}
    (hl : l.LastAttempts sweep job) (h : Ledger.Step sha op now l l')
    (hop : ∀ key, ¬ op.acquires key) : l'.LastAttempts sweep job := by
  intro id k' hk' hchild hne hactive
  obtain ⟨k, hk, hmoves⟩ | ⟨-, hadmitted⟩ := h.jobs.found id k' hk'
  · cases hmoves with
    | stay => exact hl id k' hk hchild hne hactive
    | halt hstate =>
      simp only [JobRow.halt] at hactive
      split_ifs at hactive
    | assign attempt hqueued huncancelled hbudget =>
      obtain ⟨attempt', a, worker, session, request, job, j, w, hacquires, -⟩ | hcounters :=
        h.counters
      · exact absurd hacquires (hop _)
      · obtain ⟨k₀, hk₀, hcounter⟩ | ⟨hnone, -⟩ := hcounters.found id _ hk'
        · obtain rfl := Option.mem_unique hk hk₀
          exact absurd hcounter (Nat.succ_ne_self _)
        · exact absurd (hnone.symm.trans hk) (by simp)
    | close next accepted manifest eligible howned hcancelled hnext =>
      obtain rfl : next = .active := hactive
      cases hc : k.cancelRequested with
      | true => exact absurd (hcancelled hc) (by simp)
      | false => exact absurd (hnext hc) (by simp)
  · exact absurd (hactive.symm.trans hadmitted.queued) (by simp)

/-- **The step in which a child fails for good** stops its siblings. -/
theorem Ledger.Step.fails (h : Ledger.Step sha op now l l') {job : Uuid}
    (hj : l.jobs.lookup job = some j) (hopen : j.state ≠ .failed)
    (hj' : l'.jobs.lookup job = some j') (hfailed : j'.state = .failed) :
    (∀ key, ¬ op.acquires key) ∧ ∃ own : JobRow → JobRow, (own j).state = .failed ∧
      l'.jobs = l.jobs.update (fun id k => if id = job then own k
        else if l.stops job j .failed id k then k.halt else k) := by
  have hsame : l'.jobs.lookup job = l.jobs.lookup job → False := by
    intro heq
    rw [heq, hj] at hj'
    obtain rfl := Option.some.inj hj'
    exact hopen hfailed
  have hclose : ∀ (id : Uuid) (k : JobRow) (own : JobRow → JobRow), l.jobs.lookup id = some k →
      l'.jobs = l.jobs.update (fun x k' => if x = id then own k'
        else if l.stops id k (own k).state x k' then k'.halt else k') →
      ∃ own : JobRow → JobRow, (own j).state = .failed ∧
        l'.jobs = l.jobs.update (fun x k' => if x = job then own k'
          else if l.stops job j .failed x k' then k'.halt else k') := by
    intro id k own hk hjobs
    have hrow := hj'
    rw [hjobs, Table.lookup_update, hj, Option.map_some, Option.some.injEq] at hrow
    by_cases hid : job = id
    · subst hid
      obtain rfl := Option.mem_unique hk hj
      rw [if_pos rfl] at hrow
      subst hrow
      exact ⟨own, hfailed, by rw [hjobs, hfailed]⟩
    · -- A sibling is stopped or left alone.
      rw [if_neg hid] at hrow
      split_ifs at hrow
      · subst hrow
        simp only [JobRow.halt] at hfailed
        split_ifs at hfailed
      · subst hrow
        exact absurd hfailed hopen
  cases h with
  | admits l' h => exact (hsame ((h.jobs job j hj).trans hj.symm)).elim
  | cancel id k hk hstate =>
    exfalso
    simp only [Table.lookup_modify, hj, Option.map_some] at hj'
    split_ifs at hj'
    · obtain rfl := Option.some.inj hj'
      simp only [JobRow.halt] at hfailed
      split_ifs at hfailed
    · obtain rfl := Option.some.inj hj'
      exact hopen hfailed
  | assign worker session request attempt id k w hop hfree h =>
    exfalso
    simp only [Ledger.assign, Table.lookup_modify, hj, Option.map_some] at hj'
    split_ifs at hj'
    · obtain rfl := Option.some.inj hj'
      exact absurd hfailed (by simp)
    · obtain rfl := Option.some.inj hj'
      exact hopen hfailed
  | complete completed identity r p k a res m hop hholds h =>
    refine ⟨?_, hclose _ _ _ hholds.found rfl⟩
    rintro key ⟨observed, queueNow, identity', request, policy, attempt, hacquire, -⟩
    exact absurd (hop.symm.trans hacquire) (by simp)
  | fence id attempt k a r hholds hop => exact ⟨hop, hclose _ _ _ hholds.found rfl⟩
  | _ => exact (hsame rfl).elim

/-- **After the failure the sweep is halted**, if the children it leaves running
have no attempt left. -/
theorem Ledger.Step.halts (h : Ledger.Step sha op now l l') {job sweep : Uuid}
    {row : SweepRow} (hj : l.jobs.lookup job = some j) (hopen : j.state ≠ .failed)
    (hj' : l'.jobs.lookup job = some j') (hfailed : j'.state = .failed) (hchild : j.childOf sweep)
    (hrow : l.sweeps.lookup sweep = some row) (hpolicy : row.failFast = true)
    (hlast : row.cancelRunningOnFailure = true ∨ l.LastAttempts sweep job) : l'.Halted sweep := by
  obtain ⟨-, own, hown, hjobs⟩ := h.fails hj hopen hj' hfailed
  obtain ⟨x, hx, rfl⟩ := Option.map_eq_some_iff.mp hchild
  refine ⟨by simp [h.later.sweeps _ _ hrow], fun id k' hk' hchild' => ?_⟩
  have hsweep : ∀ k, l.jobs.lookup id = some k → k.childOf x.1 := by
    intro k hk
    obtain ⟨k₁, hk₁, hmoves⟩ := h.jobs.kept id k hk
    obtain rfl := Option.mem_unique hk₁ hk'
    rw [JobRow.childOf, ← hmoves.later.sweep]
    exact hchild'
  rw [hjobs, Table.lookup_update, Option.map_eq_some_iff] at hk'
  obtain ⟨k, hk, rfl⟩ := hk'
  by_cases hid : id = job
  · obtain rfl := Option.some.inj (hj.symm.trans (hid ▸ hk))
    simp [hid, hown, JobState.isQueued]
  · rw [if_neg hid]
    -- Of the others, those that wait stop, and those that run stop or are spent.
    have hstops : l.stops job j .failed id k =
        (k.state.isQueued || decide (k.state = .active) && row.cancelRunningOnFailure) := by
      obtain ⟨sweep, index⟩ := x
      have hrow' : l.sweeps.lookup sweep = some row := hrow
      have hk' : k.sweep.map Prod.fst = some sweep := hsweep k hk
      simp only [Ledger.stops, hx, hrow', hpolicy, failFastCandidate, hk']
      simp [hid]
    rw [hstops]
    split_ifs with hstop
    · simp only [JobRow.halt]
      split_ifs <;> simp [JobState.isQueued]
    · simp only [Bool.or_eq_true, Bool.and_eq_true, decide_eq_true_eq, not_or, not_and,
        Bool.not_eq_true] at hstop
      refine ⟨hstop.1, fun hactive => ?_⟩
      obtain hcancel | hspent := hlast
      · exact absurd (hcancel.symm.trans (hstop.2 hactive)) (by simp)
      · exact hspent id k hk (hsweep k hk) hid hactive

/-! ## Runs -/

/-- **A transaction makes a child of a fail-fast sweep fail for good.** -/
structure World.Fails (w w' : World) (job sweep : Uuid) (row : SweepRow) : Prop where
  before : ∃ j, w.store.jobs.lookup job = some j ∧ j.state ≠ .failed ∧ j.childOf sweep
  after : ∃ j', w'.store.jobs.lookup job = some j' ∧ j'.state = .failed
  policy : w.store.sweeps.lookup sweep = some row ∧ row.failFast = true

/-- **No child of the sweep is newly assigned** from a moment of a run on. -/
def World.Stops (sha : Uuid → ℕ) (w : World) (sweep : Uuid) : Prop :=
  ∀ w' w'' id a k, World.Later sha w w' → w'.Step sha w'' →
    w'.store.attempts.lookup id = none → w''.store.attempts.lookup id = some a →
    w'.store.jobs.lookup a.job = some k → ¬ k.childOf sweep

theorem Reachable.stops {w : World} (h : Reachable sha w) {sweep : Uuid}
    (hh : w.store.toLedger.Halted sweep) : w.Stops sha sweep := by
  rintro w' w'' id a k hlater ⟨hle, op, reply, hexec⟩ hnone ha hk hchild
  have hhalted : w'.store.toLedger.Halted sweep :=
    h.keeps hlater (fun l => l.Halted sweep) (fun _ _ _ _ hl hb hstep => hb.step hl.sound hstep) hh
  obtain ⟨observed, queueNow, identity, request, policy, job, j, host, p, -, -, hassigns, rfl, -⟩ :=
    (h.later hlater).exec_assigned hle hexec hnone ha
  have hsame : k.uncounted = j.uncounted :=
    Option.some.inj ((Store.toLedger_job hk).symm.trans hassigns.waits)
  have hstill := hhalted.still job _ (Store.toLedger_job hk) hchild
  rw [hsame] at hstill
  exact absurd (hstill.1.symm.trans hassigns.queued) (by simp)

/-- The steps of a transaction in which a child fails. -/
theorem Ledger.Steps.halts (hl : Ledger.Reachable sha l)
    (h : Ledger.Steps sha op now l l') {job sweep : Uuid} {row : SweepRow}
    (hj : l.jobs.lookup job = some j) (hopen : j.state ≠ .failed)
    (hj' : l'.jobs.lookup job = some j') (hfailed : j'.state = .failed) (hchild : j.childOf sweep)
    (hrow : l.sweeps.lookup sweep = some row) (hpolicy : row.failFast = true)
    (hlast : row.cancelRunningOnFailure = true ∨ l.LastAttempts sweep job) : l'.Halted sweep := by
  induction h generalizing j' with
  | refl =>
    obtain rfl := Option.mem_unique hj hj'
    exact absurd hfailed hopen
  | tail hrun hstep ih =>
    rename_i l₁ l₂
    have hlater : l.Later l₁ := Ledger.Steps.later hrun
    obtain ⟨k, hk, hkept⟩ := hlater.jobs job j hj
    by_cases hbefore : k.state = .failed
    · exact (ih hk hbefore).step (hl.steps hrun).sound hstep
    · -- The transaction acquires nothing, so what ran at its start still is all that runs.
      have hop := (hstep.fails hk hbefore hj' hfailed).1
      have hkeep : ∀ l₁, Ledger.Steps sha op now l l₁ → l.LastAttempts sweep job →
          l₁.LastAttempts sweep job := by
        intro l₁ hrun hspent
        induction hrun with
        | refl => exact hspent
        | tail _ hstep ih => exact ih.step hstep hop
      refine hstep.halts hk hbefore hj' hfailed ?_ (hlater.sweeps _ _ hrow) hpolicy
        (hlast.imp_right (hkeep l₁ hrun))
      rw [JobRow.childOf, hkept.sweep]
      exact hchild

/-- **Fail-fast stops the sweep** when a child fails for good, provided that the
sweep cancels the running siblings or none of them has an attempt left. -/
theorem fail_fast_stops {w w' : World} (h : Reachable sha w) (hstep : w.Step sha w')
    {job sweep : Uuid} {row : SweepRow} (hfails : w.Fails w' job sweep row)
    (hlast : row.cancelRunningOnFailure = true ∨ ∀ id k, w.store.jobs.lookup id = some k →
      k.childOf sweep → id ≠ job → k.state = .active → k.Spent) :
    w'.Stops sha sweep := by
  have hreached := h.step hstep
  obtain ⟨hle, op, reply, hexec⟩ := hstep
  obtain ⟨j, hj, hopen, hchild⟩ := hfails.before
  obtain ⟨j', hj', hfailed⟩ := hfails.after
  obtain ⟨hrow, hpolicy⟩ := hfails.policy
  refine hreached.stops (Ledger.Steps.halts h.ledger (h.exec_ledger hle hexec)
    (Store.toLedger_job hj) hopen (Store.toLedger_job hj') hfailed hchild hrow hpolicy
    (hlast.imp_right fun hspent id k hk hsibling hne hactive => ?_))
  obtain ⟨k₀, hk₀, rfl⟩ := Store.job_of_toLedger hk
  exact hspent id k₀ hk₀ hsibling hne hactive

/-! ## Two sweeps of two children -/

namespace Sample

/-- Two children that run side by side. -/
def sweep (cancelRunning : Bool) : Sweep where
  apiVersion := apiVersion
  kind := "Sweep"
  metadata := ⟨"s", "p", ∅⟩
  jobTemplate := job
  matrix := AList.insert "SEED" ["1", "2"] ∅
  maxConcurrent := 2
  failFast := true
  cancelRunningOnFailure := cancelRunning

/-- Both children are assigned to session 1. -/
def swept (cancelRunning : Bool) : List (Time × Op) :=
  seated 1 second ++
    [(second, .submitSweep 1 (· + 1) "k" (String.ofList (List.replicate 64 '0'))
        (sweep cancelRunning) []),
      (second, .acquire second second identity ⟨1, 1⟩ ⟨false⟩ 1),
      (second, .acquire second second identity ⟨1, 2⟩ ⟨false⟩ 2)]

/-- Attempt 1 did not start in time, which the document does not retry. -/
def timedOut : CompletionRequest where
  authority := ⟨1, 1, 1, 1, 1⟩
  completionID := 1
  payloadSHA256 := ⟨⟨1, 1, 1, 1, 1⟩, none, some .startupTimeout, true, [], true, [], [], none⟩
  exitCode := none
  reason := some .startupTimeout
  stopped := true
  outputs := []
  logsComplete := true
  gaps := []
  metricsJSON := none

/-- The host comes back as session 2, which loses attempt 2. -/
def returns : List (Time × Op) :=
  [(40 * second, .register identity ⟨2, claims 2⟩),
    (40 * second, .heartbeat identity ⟨2, ⟨2, 1, true, false, true, []⟩⟩),
    (50 * second, .heartbeat identity ⟨3, ⟨2, 2, true, false, true, []⟩⟩)]

/-- Session 2 asks for work. -/
def asks : Time × Op :=
  (50 * second, .acquire (50 * second) (50 * second) identity ⟨2, 3⟩ ⟨false⟩ 3)

end Sample

/-- A child fails for good, and its running sibling, lost later, is assigned
again. -/
theorem fail_fast_retries : ¬ ∀ (w w' : World) (job sweep : Uuid) (row : SweepRow),
    Reachable Sample.sha w → w.Step Sample.sha w' → w.Fails w' job sweep row →
    w'.Stops Sample.sha sweep := by
  intro hclaim
  obtain ⟨w, hw, hp⟩ := Sample.reaches Sample.seated_reachable
    ((Sample.swept false).drop 2) (fun w =>
    (w.store.jobs.lookup 1).any (fun j : JobRow => decide (j.state = .active) &&
      decide (j.sweep = some (1, 0))) &&
    (w.store.sweeps.lookup 1).any SweepRow.failFast &&
    (w.run Sample.sha [(2 * second, .complete (2 * second) Sample.identity
        Sample.timedOut)]).toOption.any (fun w' =>
      (w'.store.jobs.lookup 1).any (fun j : JobRow => decide (j.state = .failed)) &&
      (w'.run Sample.sha Sample.returns).toOption.any (fun v =>
        (v.store.attempts.lookup 3).isNone &&
        (v.store.jobs.lookup 2).any (fun k : JobRow => decide (k.sweep = some (1, 1))) &&
        (v.run Sample.sha [Sample.asks]).toOption.any (fun v' =>
          (v'.store.attempts.lookup 3).any (fun a : AttemptRow => decide (a.job = 2))))))
    (by decide +kernel)
  simp only [Bool.and_eq_true, Option.any_eq_true, decide_eq_true_eq,
    Option.isNone_iff_eq_none] at hp
  obtain ⟨⟨⟨j, hj, hactive, hsweep⟩, row, hrow, hpolicy⟩, w', hfail, ⟨j', hj', hfailed⟩, v, hreturn,
    ⟨hnone, k, hk, hchild⟩, v', hagain, a, ha, hjob⟩ := hp
  refine hclaim w w' 1 1 row hw (World.run_single (toOption_eq_some.mp hfail))
    ⟨⟨j, hj, by simp [hactive], by simp [JobRow.childOf, hsweep]⟩, ⟨j', hj', hfailed⟩, hrow,
      hpolicy⟩ v v' 3 a k (World.run_steps (toOption_eq_some.mp hreturn))
    (World.run_single (toOption_eq_some.mp hagain)) hnone ha (hjob ▸ hk) ?_
  simp [JobRow.childOf, hchild]

/-- A child of a sweep that cancels its running children fails. -/
theorem Sample.swept_fails : ∃ (w w' : World) (j j' : JobRow) (row : SweepRow),
    Reachable Sample.sha w ∧ w.Step Sample.sha w' ∧ w.store.jobs.lookup 1 = some j ∧
    j.state = .active ∧ j.sweep = some (1, 0) ∧ w'.store.jobs.lookup 1 = some j' ∧
    j'.state = .failed ∧ j'.sweep = some (1, 0) ∧ w.store.sweeps.lookup 1 = some row ∧
    w'.store.sweeps.lookup 1 = some row ∧ row.failFast = true ∧
    row.cancelRunningOnFailure = true := by
  obtain ⟨w, hw, hp⟩ := Sample.reaches Sample.seated_reachable
    ((Sample.swept true).drop 2) (fun w =>
    (w.store.jobs.lookup 1).any (fun j : JobRow => decide (j.state = .active) &&
      decide (j.sweep = some (1, 0))) &&
    (w.run Sample.sha [(2 * second, .complete (2 * second) Sample.identity
        Sample.timedOut)]).toOption.any (fun w' : World =>
      (w'.store.jobs.lookup 1).any (fun j : JobRow => decide (j.state = .failed) &&
        decide (j.sweep = some (1, 0))) &&
      (w.store.sweeps.lookup 1).any (fun row : SweepRow =>
        row.failFast && row.cancelRunningOnFailure &&
        decide (w'.store.sweeps.lookup 1 = some row)))) (by decide +kernel)
  simp only [Bool.and_eq_true, Option.any_eq_true, decide_eq_true_eq] at hp
  obtain ⟨⟨j, hj, hactive, hsweep⟩, w', hfail, ⟨j', hj', hfailed, hsweep'⟩, row, hrow,
    ⟨hpolicy, hcancel⟩, hrow'⟩ := hp
  exact ⟨w, w', j, j', row, hw, World.run_single (toOption_eq_some.mp hfail), hj, hactive,
    hsweep, hj', hfailed, hsweep', hrow, hrow', hpolicy, hcancel⟩

/-- A sweep that cancels its running children is stopped by the same failure. -/
theorem sample_fail_fast : ∃ (w w' : World) (row : SweepRow), w.Fails w' 1 1 row ∧
    row.cancelRunningOnFailure = true ∧ w'.Stops Sample.sha 1 := by
  obtain ⟨w, w', j, j', row, hw, hstep, hj, hactive, hsweep, hj', hfailed, -, hrow, -, hpolicy,
    hcancel⟩ := Sample.swept_fails
  have hfails : w.Fails w' 1 1 row := ⟨⟨j, hj, by simp [hactive], by simp [JobRow.childOf, hsweep]⟩,
    ⟨j', hj', hfailed⟩, hrow, hpolicy⟩
  exact ⟨w, w', row, hfails, hcancel, fail_fast_stops hw hstep hfails (.inl hcancel)⟩

end Dispatch
