import Dispatch.Ownership.Simulation

/-!
# What every reachable store has

`Op.exec` is simulated transaction by transaction, so the invariants of the
ownership machine hold of the store after every run. `Reachable.ownership`
gives them on the machine; `reachable_ownership` says what they mean for the
rows: the database enforces a part of it with constraints and triggers, and
the transactions keep the rest.
-/

namespace Dispatch

open Txn

variable {sha : Uuid → ℕ} {w : World}

/-- **Every transaction is a run of the machine.** -/
theorem Op.exec_simulated {s s' : Store} {now : Time} {op : Op} {reply : Reply}
    (h : op.exec sha s now = .ok (s', reply)) (hc : Coherent s now)
    (hown : Ownership.Owned s.ownership) : Simulated now s s' := by
  have hexec := h
  cases op
  all_goals simp only [Op.exec, bind_ok, orThrow_ok, pure_pair_ok] at h
  case submitJob =>
    obtain ⟨⟨t, _⟩, ht, rfl, -⟩ := h
    exact (submitJobResolved_enrolments ht).simulated hc
  case submitSweep =>
    obtain ⟨⟨t, _⟩, ht, rfl, -⟩ := h
    exact (submitSweepResolved_enrolments ht).simulated hc
  case retrySweep =>
    obtain ⟨⟨t, _⟩, ht, rfl, -⟩ := h
    exact (retrySweep_enrolments ht).simulated hc
  case cancel =>
    obtain ⟨t, ht, rfl, -⟩ := h
    exact requestCancellation_simulated ht hc
  case acquire =>
    obtain ⟨⟨t, _⟩, ht, rfl, -⟩ := h
    exact acquireWork_simulated ht hc
  case renew =>
    obtain ⟨⟨t, _⟩, ht, rfl, -⟩ := h
    exact renewLeases_simulated ht hc
  case phase =>
    obtain ⟨⟨t, _⟩, ht, rfl, -⟩ := h
    exact (reportPhase_framed ht).simulated hc
  case createUpload | bindMultipart | preparePart | completeMultipart | finalizeUpload =>
    exact (Op.exec_filings hexec rfl (by simp only [Op.footprint]; decide)).framed.simulated hc
  case registerLog =>
    obtain ⟨⟨t, _⟩, ht, rfl, -⟩ := h
    exact registerLogSegment_simulated ht hc
  case complete =>
    obtain ⟨⟨t, _⟩, ht, rfl, -⟩ := h
    exact completeAttempt_simulated ht hc
  case reap =>
    obtain ⟨⟨t, _⟩, ht, rfl, -⟩ := h
    exact reapOneExpiredAttempt_simulated ht hc
  case approveTakeover =>
    obtain ⟨t, ht, rfl, -⟩ := h
    exact (approveSessionTakeover_framed ht).simulated hc
  case register =>
    obtain ⟨⟨t, _⟩, ht, rfl, -⟩ := h
    exact registerSession_simulated ht hc hown
  case heartbeat =>
    obtain ⟨⟨t, _⟩, ht, rfl, -⟩ := h
    exact (recordHeartbeat_framed ht).simulated hc
  case drain =>
    obtain ⟨t, ht, rfl, -⟩ := h
    exact (requestWorkerDrain_framed ht).simulated hc
  case provision =>
    obtain ⟨workers, hworkers, rfl, -⟩ := h
    exact (provision_framed hworkers).simulated hc
  case registerDataset =>
    obtain ⟨t, ht, rfl, -⟩ := h
    exact (registerDataset_framed ht).simulated hc
  case operate =>
    obtain ⟨-, -, rfl, -⟩ := h
    exact Framed.simulated (.of_tables rfl rfl) hc

/-- **The invariants of a reachable world.** -/
structure World.Sound (w : World) : Prop where
  owned : Ownership.Owned w.store.ownership
  exclusive : Ownership.Exclusive w.store.ownership w.clock
  coherent : Coherent w.store w.clock
  signed : ∀ attempt c, w.store.completions.lookup attempt = some c → Signed w.store attempt c

/-- Nothing is owned, reserved or run in a provisioned store. -/
theorem World.Sound.provisioned (projects : Table Uuid ProjectRow) (workers : Table Uuid WorkerRow)
    (credentials : Table Uuid CredentialRow) (workerProjects : Table (Uuid × Uuid) Unit)
    (clock : Time) :
    World.Sound ⟨Store.provisioned projects workers credentials workerProjects, clock⟩ := by
  set s := Store.provisioned projects workers credentials workerProjects with hs
  have htask : ∀ j, s.ownership.task j = none := fun _ => rfl
  have hgrant : ∀ a, s.ownership.grant a = none := fun _ => rfl
  have hclaim : ∀ a, s.ownership.claim a = none := fun _ => rfl
  have hseat : ∀ w, s.seat w = none := by
    intro w
    simp only [Store.seat, hs, Store.provisioned, Table.lookup_update]
    cases workers.lookup w <;> rfl
  refine ⟨⟨?_, ?_, ?_, ?_, ?_, ?_, ?_⟩, ?_, ⟨?_, ?_, ?_⟩, ?_⟩
  · exact fun j t ht => absurd (ht.symm.trans (htask j)) (by simp)
  · exact fun j t a ht => absurd (ht.symm.trans (htask j)) (by simp)
  · exact fun a g hg => absurd (hg.symm.trans (hgrant a)) (by simp)
  · exact fun a c hc => absurd (hc.symm.trans (hclaim a)) (by simp)
  · exact fun a g hg => absurd (hg.symm.trans (hgrant a)) (by simp)
  · exact fun a g hg => absurd (hg.symm.trans (hgrant a)) (by simp)
  · exact fun a b g g' hg => absurd (hg.symm.trans (hgrant a)) (by simp)
  · exact fun a g hg => absurd (hg.symm.trans (hgrant a)) (by simp)
  · exact fun w session h => absurd (h.symm.trans (hseat w)) (by simp)
  · intro job row hrow
    exact absurd hrow (by simp [hs, Store.provisioned])
  · intro attempt row hrow
    exact absurd hrow (by simp [hs, Store.provisioned])
  · intro attempt row hrow
    exact absurd hrow (by simp [hs, Store.provisioned])

/-- **A transaction keeps the invariants.** -/
theorem World.Sound.step {w' : World} (hw : w.Sound)
    (h : w.Step sha w') : w'.Sound := by
  obtain ⟨hle, op, reply, hexec⟩ := h
  obtain ⟨hsteps, hcoherent, -, hcompleted⟩ :=
    Op.exec_simulated hexec (hw.coherent.later hle) hw.owned
  exact ⟨hw.owned.steps hsteps, (hw.exclusive.later hle).steps hw.owned hsteps, hcoherent,
    fun attempt c hc => (hcompleted attempt c hc).elim
      (fun hbefore => (hw.signed attempt c hbefore).steps hsteps) id⟩

/-- Time passing keeps the invariants. -/
theorem World.Sound.later {clock : Time} (hw : w.Sound) (hle : w.clock ≤ clock) :
    World.Sound ⟨w.store, clock⟩ :=
  ⟨hw.owned, hw.exclusive.later hle, hw.coherent.later hle, hw.signed⟩

/-- **Every reachable world is sound.** -/
theorem Reachable.sound (h : Reachable sha w) : w.Sound :=
  h.invariant World.Sound World.Sound.provisioned (fun _ _ hw hstep => hw.step hstep)

/-! ## The rows -/

/-- **Who owns a job**, in the words of the tables. An owned job has a current
attempt, which is its only active one, has the number and generation of the
job's counter and holds one active reservation of the job's resources on its
own worker; any other job has no active attempt and no active reservation. -/
structure JobOwnership (s : Store) (job : Uuid) (j : JobRow) : Prop where
  owned : j.state = .active ∨ j.state = .cancelling ↔ j.currentAttempt.isSome = true
  current : ∀ attempt, j.currentAttempt = some attempt →
    ∃ a, s.attempts.lookup attempt = some a ∧ a.job = job ∧ a.state.isActive = true ∧
      (∀ id b, s.attempts.lookup id = some b → b.job = job → b.state.isActive = true →
        id = attempt) ∧
      a.number = j.attemptCounter ∧ a.generation = j.attemptCounter ∧
      ∃! r, s.reservations.lookup attempt = some r ∧ r.state = .active ∧ r.worker = a.worker ∧
        r.resources = j.resources
  idle : ¬ (j.state = .active ∨ j.state = .cancelling) →
    ∀ id a, s.attempts.lookup id = some a → a.job = job →
      a.state.isActive = false ∧ ∀ r, s.reservations.lookup id = some r → r.state ≠ .active

theorem JobState.phase_isOwned (st : JobState) :
    st.phase.isOwned = true ↔ st = .active ∨ st = .cancelling := by
  cases st <;> simp [JobState.phase, Ownership.Phase.isOwned]

/-- A job is owned exactly while it has a current attempt. -/
theorem owned_iff_current {s : Store} {settled : Uuid → Prop} {replaced : Uuid → Uuid → Prop}
    (hown : Ownership.Owned (s.view settled replaced)) {job : Uuid} {j : JobRow}
    (hj : s.jobs.lookup job = some j) :
    j.state = .active ∨ j.state = .cancelling ↔ j.currentAttempt.isSome = true :=
  (JobState.phase_isOwned j.state).symm.trans
    (hown.current job j.task (congrArg (Option.map JobRow.task) hj))

/-- **Every job of a reachable store is owned as it should be.** -/
theorem reachable_jobOwnership {sha : Uuid → ℕ} {w : World} (h : Reachable sha w) (job : Uuid)
    (j : JobRow) (hj : w.store.jobs.lookup job = some j) : JobOwnership w.store job j := by
  have hown := h.sound.owned
  have htask : w.store.ownership.task job = some j.task := congrArg (Option.map JobRow.task) hj
  have hcurrent := owned_iff_current hown hj
  -- An active attempt of the job is the current one.
  have hactive : ∀ id b, w.store.attempts.lookup id = some b → b.job = job →
      b.state.isActive = true → j.currentAttempt = some id := by
    rintro id b hb rfl hlive
    obtain ⟨t, ht, hcur⟩ := hown.live id b.grant (congrArg (Option.map AttemptRow.grant) hb) hlive
    obtain rfl := Option.mem_unique htask ht
    exact hcur
  refine ⟨hcurrent, fun attempt hattempt => ?_, fun hidle id a ha hjob => ?_⟩
  · obtain ⟨g, c, hg, hgtask, hlive, hnumber, hgeneration, hc, hheld, hplace, hamount⟩ :=
      hown.owner job j.task attempt htask hattempt
    obtain ⟨a, ha, rfl⟩ := Option.map_eq_some_iff.mp hg
    obtain ⟨r, hr, rfl⟩ := Option.map_eq_some_iff.mp hc
    refine ⟨a, ha, hgtask, hlive, fun id b hb hbjob hblive => ?_, hnumber, hgeneration, r,
      ⟨hr, of_decide_eq_true hheld, hplace, hamount⟩, fun r' hr' => ?_⟩
    · exact Option.some.inj ((hactive id b hb hbjob hblive).symm.trans hattempt)
    · exact Option.some.inj (hr'.1.symm.trans hr)
  · have hdead : a.state.isActive = false := by
      by_contra hlive
      have hcur := hactive id a ha hjob (by simpa using hlive)
      exact hidle (hcurrent.mpr (by rw [hcur]; rfl))
    refine ⟨hdead, fun r hr hstate => ?_⟩
    obtain ⟨g, hg, hlive⟩ := hown.held id r.claim (congrArg (Option.map ReservationRow.claim) hr)
      (decide_eq_true hstate)
    obtain rfl := Option.some.inj ((congrArg (Option.map AttemptRow.grant) ha).symm.trans hg)
    exact absurd (hdead.symm.trans hlive) (by simp)

/-- The sample run assigns its job, which attempt 1 then owns. -/
theorem sample_jobOwnership : ∃ (w : World) (j : JobRow), w.store.jobs.lookup 1 = some j ∧
    j.state = .active ∧ j.currentAttempt = some 1 ∧ JobOwnership w.store 1 j := by
  obtain ⟨w, hw, hjob⟩ := Sample.reaches Sample.assigned_reachable [] (fun w : World =>
    (w.store.jobs.lookup 1).any (fun j : JobRow => decide (j.state = .active) &&
      decide (j.currentAttempt = some 1))) (by decide +kernel)
  simp only [Option.any_eq_true, Bool.and_eq_true, decide_eq_true_eq] at hjob
  obtain ⟨j, hj, hstate, hcurrent⟩ := hjob
  exact ⟨w, j, hj, hstate, hcurrent, reachable_jobOwnership hw 1 j hj⟩

end Dispatch
