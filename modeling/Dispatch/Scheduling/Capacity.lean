import Mathlib.Algebra.Order.Group.Int
import Dispatch.Ledger.Invariants

/-!
# Capacity and quotas

What is reserved for running attempts never exceeds what a worker has
registered, at any moment of any run: not when attempts end, not when the
worker comes back with less than it had. The reason is one sum. An assignment
adds one term to it and was admitted because the sum with the term fits; every
other step makes no term larger; and a new session, which may bring a smaller
capacity, is only seated once nothing of the worker is active
(`Ledger.Vacant.idle`), where the sum is zero.

Quotas of projects and limits of sweeps may be lowered by an operator at any
time, so they are promised at the moment of an assignment only: right after it
commits, the usage that the next acquisition would read is within them.
-/

namespace Dispatch

open Txn

variable {l l' : Ledger} {w : WorkerRow}

variable {sha : Uuid → ℕ} {op : Op} {now : Time}

/-! ## The host -/

/-- Reservations of attempts that run. -/
def ReservationState.isActive (st : ReservationState) : Bool := decide (st = .active)

/-- **The capacity a worker has registered**: none before its first session. -/
def Ledger.registered (l : Ledger) (worker : Uuid) (m : Measure) : ℤ :=
  match l.workers.lookup worker with
  | some w => if w.currentSession.isSome then m.capacity w else 0
  | none => 0

theorem Ledger.registered_of_seat {worker session : Uuid} (hw : l.workers.lookup worker = some w)
    (hseat : w.currentSession = some session) (m : Measure) : l.registered worker m = m.capacity w
    := by
  simp only [Ledger.registered, hw, hseat, Option.isSome_some, if_true]

/-- Sizes of a job are positive. -/
theorem Job.weight_nonneg {j : Job} (h : j.isValid = true) (m : Measure) :
    0 ≤ m.weight j.spec.resources := by
  rw [Job.isValid_iff] at h
  simp only [Job.validate, bind_ok, require_ok] at h
  obtain ⟨_, -, _, -, _, -, _, -, _, -, _, -, _, -, _, -, _, hresources, -⟩ := h
  simp only [between, Bool.and_eq_true, decide_eq_true_eq] at hresources
  cases m <;> simp only [Measure.weight] <;> omega

/-- Sizes of a host are positive. -/
theorem capacity_nonneg {now : Time} {hash : RegistrationClaims}
    (h : validateWorkerConfiguration hash.resources hash.slots hash.labels = true) (m : Measure) :
    0 ≤ m.capacity (w.register now hash) := by
  simp only [validateWorkerConfiguration, between, Bool.and_eq_true, decide_eq_true_eq] at h
  cases m <;> simp only [Measure.capacity, WorkerRow.register] <;> omega

/-- Every reservation weighs something. -/
def Ledger.Weighed (l : Ledger) : Prop :=
  ∀ id r, l.reservations.lookup id = some r → ∀ m : Measure, 0 ≤ m.weight r.resources

theorem Ledger.Weighed.step (hl : l.Weighed) (h : Ledger.Step sha op now l l') : l'.Weighed := by
  intro id r' hr' m
  obtain ⟨r, hr, hlater⟩ | ⟨-, a, worker, session, request, job, j, w, -, -, hassigns, -, rfl⟩ :=
    h.reservations.found id r' hr'
  · rw [hlater.resources]
    exact hl id r hr m
  · simp only [Ledger.assign, Table.lookup_insert_ite, if_true, Option.some.injEq] at hr'
    subst hr'
    exact Job.weight_nonneg hassigns.valid m

/-- Rows that are not made active weigh no more than before. -/
theorem Ledger.Weighed.update_le (hl : l.Weighed) {worker : Uuid} {m : Measure}
    {f : Uuid → ReservationRow → ReservationRow}
    (hf : ∀ id r, l.reservations.lookup id = some r → (f id r).worker = r.worker ∧
      (f id r).resources = r.resources ∧ ((f id r).state = .active → r.state = .active)) :
    (l.reservations.update f).total (fun _ r => if decide (r.worker = worker) &&
      ReservationState.isActive r.state then m.weight r.resources else 0) ≤
      l.load worker ReservationState.isActive m.weight := by
  refine Table.total_update_le fun id r hr => ?_
  obtain ⟨hworker, hresources, hactive⟩ := hf id r hr
  rw [hworker, hresources]
  by_cases hnow : (f id r).state = .active
  · simp [ReservationState.isActive, hnow, hactive hnow]
  · rw [if_neg (by simp [ReservationState.isActive, hnow])]
    split_ifs
    · exact hl id r hr m
    · exact le_refl _

/-- **No step but an assignment adds to what runs on a host.** -/
theorem Ledger.Step.load_le (hl : l.Weighed) (h : Ledger.Step sha op now l l')
    (hnone : ¬ ∃ attempt a, l.Assigned op now l' attempt a) (worker : Uuid) (m : Measure) :
    l'.load worker ReservationState.isActive m.weight ≤
      l.load worker ReservationState.isActive m.weight := by
  cases h with
  | admits l' h =>
    rw [Ledger.load, show l'.reservations = l.reservations from congrArg (fun x => x.2.2.1) h.rest]
    rfl
  | assign worker session request attempt job j w hop hfree h =>
    exact absurd ⟨attempt, _, worker, session, request, job, j, w, hop, hfree, h, rfl, rfl⟩ hnone
  | complete completed identity r p j a res m' hop hholds h =>
    dsimp only [Ledger.load, Ledger.complete, Ledger.close, Table.modify]
    refine hl.update_le fun id r' hr' => ?_
    split_ifs with hid
    · obtain rfl := Option.some.inj (hholds.reserved.symm.trans (hid ▸ hr'))
      exact ⟨rfl, rfl, fun _ => hholds.held⟩
    · obtain rfl := Option.some.inj (hholds.reserved.symm.trans (hid ▸ hr'))
      exact ⟨rfl, rfl, fun _ => hholds.held⟩
    · exact ⟨rfl, rfl, fun hactive => hactive⟩
  | fence job attempt j a r hholds =>
    dsimp only [Ledger.load, Ledger.close, Table.modify]
    refine hl.update_le fun id r' hr' => ?_
    split_ifs
    · exact ⟨rfl, rfl, fun hactive => absurd hactive (by simp)⟩
    · exact ⟨rfl, rfl, fun hactive => hactive⟩
  | report identity report hash w released reconciled hop h =>
    dsimp only [Ledger.load, Ledger.report]
    refine hl.update_le fun id r' hr' => ?_
    split_ifs
    · exact ⟨rfl, rfl, fun hactive => absurd hactive (by simp)⟩
    · exact ⟨rfl, rfl, fun hactive => hactive⟩
  | _ => exact le_refl _

/-- A worker nothing is active on has nothing reserved for running attempts. -/
theorem Ledger.Keyed.load_eq_zero (hk : l.Keyed) {worker : Uuid} (m : Measure)
    (hidle : ∀ id a, l.attempts.lookup id = some a → a.worker = worker → a.state.isActive = false) :
    l.load worker ReservationState.isActive m.weight = 0 := by
  refine Table.total_eq_zero fun id r hr => if_neg ?_
  simp only [ReservationState.isActive, Bool.and_eq_true, decide_eq_true_eq, not_and]
  intro hworker hactive
  obtain ⟨a, ha, hwhere, hstate⟩ := hk.attempt hr
  exact absurd (hstate.mp hactive) (by simp [hidle id a ha (hwhere.trans hworker)])

/-- What runs on a host is part of what occupies it. -/
theorem Ledger.Weighed.active_le (hl : l.Weighed) (worker : Uuid) (m : Measure) :
    l.load worker ReservationState.isActive m.weight ≤
      l.load worker ReservationState.occupies m.weight := by
  unfold Ledger.load Table.total
  refine List.sum_le_sum fun e he => ?_
  have hrow : l.reservations.lookup e.1 = some e.2 := AList.mem_lookup_iff.mpr he
  dsimp only
  by_cases hactive : e.2.state = .active
  · simp [ReservationState.isActive, ReservationState.occupies, hactive]
  · rw [if_neg (by simp [ReservationState.isActive, hactive])]
    split_ifs
    · exact hl e.1 e.2 hrow m
    · exact le_refl _

/-- An assignment adds its own weight to its worker. -/
theorem Ledger.load_assign {worker session attempt job : Uuid} {j : JobRow}
    {key : Uuid × Uuid × Uuid} (h : l.Assigns worker session attempt job j w) (worker' : Uuid)
    (states : ReservationState → Bool) (hstates : states .active = true) (m : Measure) :
    (l.assign now worker session attempt job j key).load worker' states m.weight =
      (if worker = worker' then m.weight j.spec.spec.resources else 0) +
        l.load worker' states m.weight := by
  rw [Ledger.load, Ledger.load, Ledger.assign, Table.total_insert _ _ h.newReservation]
  simp only [hstates, Bool.and_true, decide_eq_true_eq]

/-- **The seat of a worker and its sizes** change by registration only. -/
theorem Ledger.Step.registered (h : Ledger.Step sha op now l l')
    (hnone : ¬ ∃ worker w hash sessions generation takeovers,
      l.Vacant now worker w hash sessions generation takeovers ∧
      l' = l.install now worker hash sessions generation takeovers) (worker : Uuid) (m : Measure) :
    l'.registered worker m = l.registered worker m := by
  have hmodify : ∀ (x : Uuid) (f : WorkerRow → WorkerRow),
      (∀ w, (f w).currentSession = w.currentSession ∧ m.capacity (f w) = m.capacity w) →
      { l with workers := l.workers.modify x f }.registered worker m = l.registered worker m := by
    intro x f hf
    simp only [Ledger.registered, Table.lookup_modify]
    split_ifs
    · cases l.workers.lookup worker with
      | none => rfl
      | some w => simp only [Option.map_some, (hf w).1, (hf w).2]
    · rfl
  have hcapacity : ∀ w w' : WorkerRow, w'.resources = w.resources → w'.slots = w.slots →
      m.capacity w' = m.capacity w := by
    intro w w' hresources hslots
    cases m <;> simp only [Measure.capacity, hresources, hslots]
  cases h with
  | admits l' h =>
    rw [Ledger.registered, show l'.workers = l.workers from congrArg (fun x => x.2.2.2.1) h.rest]
    rfl
  | retire x => exact hmodify x _ fun w => ⟨rfl, hcapacity w _ rfl rfl⟩
  | seat x w hash sessions generation takeovers h =>
    exact absurd ⟨x, w, hash, sessions, generation, takeovers, h, rfl⟩ hnone
  | report identity report hash w released reconciled hop h =>
    exact hmodify identity.workerID _ fun w => ⟨rfl, hcapacity w _ rfl rfl⟩
  | drain x => exact hmodify x _ fun w => ⟨rfl, hcapacity w _ rfl rfl⟩
  | provision x row hfree =>
    simp only [Ledger.registered, Table.lookup_insert_ite]
    split_ifs with hx
    · rw [hx, hfree]
      rfl
    · rfl
  | _ => rfl

/-- **What runs on a host fits it.** -/
structure Ledger.Capacious (l : Ledger) : Prop where
  weighed : l.Weighed
  fits : ∀ worker (m : Measure),
    l.load worker ReservationState.isActive m.weight ≤ l.registered worker m

theorem Ledger.Capacious.step (hc : l.Capacious) (hk : l.Keyed)
    (h : Ledger.Step sha op now l l') : l'.Capacious := by
  refine ⟨hc.weighed.step h, fun worker m => ?_⟩
  by_cases hnew : ∃ attempt a, l.Assigned op now l' attempt a
  · obtain ⟨attempt, a, host, session, request, job, j, w, -, -, hassigns, -, rfl⟩ := hnew
    rw [Ledger.load_assign hassigns _ _ rfl]
    change _ ≤ l.registered worker m
    split_ifs with hworker
    · subst hworker
      rw [Ledger.registered_of_seat hassigns.host hassigns.seated]
      have hroom := hassigns.fits m
      have hactive := hc.weighed.active_le host m
      omega
    · simpa using hc.fits worker m
  have hload := h.load_le hc.weighed hnew worker m
  by_cases hseat : ∃ worker w hash sessions generation takeovers,
      l.Vacant now worker w hash sessions generation takeovers ∧
      l' = l.install now worker hash sessions generation takeovers
  · obtain ⟨host, w, hash, sessions, generation, takeovers, hvacant, rfl⟩ := hseat
    by_cases hworker : worker = host
    · subst hworker
      refine hload.trans ?_
      rw [hk.load_eq_zero m hvacant.idle]
      simp only [Ledger.registered, Ledger.install, Table.lookup_modify, if_pos, hvacant.host]
      exact capacity_nonneg hvacant.valid m
    · refine hload.trans ((hc.fits worker m).trans (le_of_eq ?_))
      simp only [Ledger.registered, Ledger.install, Table.lookup_modify, if_neg hworker]
  · exact hload.trans ((hc.fits worker m).trans (h.registered hseat worker m).ge)

theorem Ledger.Reachable.capacious (h : Ledger.Reachable sha l) : l.Capacious := by
  induction h with
  | start projects workers credentials workerProjects =>
    refine ⟨fun _ _ hr => (nomatch hr), fun worker m => le_of_eq ?_⟩
    simp only [Ledger.registered, Store.toLedger, Store.provisioned, Table.lookup_update]
    cases workers.lookup worker <;> rfl
  | step hl hstep ih => exact ih.step hl.sound.keyed hstep

/-! ## Projects and sweeps -/

section Usage

variable {s s' : Store} {worker session attempt job : Uuid} {j : JobRow} {key : Uuid × Uuid × Uuid}

/-- A condition on what a job was submitted with. -/
def Enduring (p : JobRow → Bool) : Prop :=
  ∀ k k' : JobRow, k'.project = k.project → k'.sweep = k.sweep → p k' = p k

theorem activeAttempts_eq (s : Store) (p : JobRow → Bool) :
    activeAttempts s p = (s.attempts.select (fun _ a =>
      a.state.isActive && (s.jobs.lookup a.job).any p)).map Prod.fst := by
  unfold activeAttempts
  congr 2
  funext id a
  cases s.jobs.lookup a.job <;> rfl

/-- **The running attempts after an assignment** are the ones before it and the
new one. -/
theorem activeAttempts_assign (hnone : s.attempts.lookup attempt = none)
    (hj : s.jobs.lookup job = some j)
    (hledger : s'.toLedger = s.toLedger.assign now worker session attempt job j.uncounted key)
    {p : JobRow → Bool} (hp : Enduring p) :
    activeAttempts s' p =
      if p j then attempt :: activeAttempts s p else activeAttempts s p := by
  have hattempts : s'.attempts = AList.insert attempt
      (newAttempt now worker session job j.uncounted) s.attempts :=
    congrArg Ledger.attempts hledger
  -- What the condition says of a job is what it said before.
  have hjobs : ∀ id, (s'.jobs.lookup id).any p = (s.jobs.lookup id).any p := by
    intro id
    have huncounted : ∀ o : Option JobRow, (o.map JobRow.uncounted).any p = o.any p := by
      rintro (_ | k)
      · rfl
      · exact hp k k.uncounted rfl rfl
    have hid := congrArg (fun l => (l.jobs.lookup id).any p) hledger
    simp only [Ledger.assign, Store.toLedger, Table.lookup_update, Table.lookup_modify] at hid
    rw [huncounted] at hid
    rw [hid]
    split_ifs
    · cases s.jobs.lookup id with
      | none => rfl
      | some k => exact hp k _ rfl rfl
    · exact huncounted _
  simp only [activeAttempts_eq, hattempts, hjobs, Table.select_insert _ _ hnone]
  simp only [newAttempt, hj, Option.any_some]
  split_ifs with hactive hpj hpj <;> simp_all [AttemptState.isActive]

/-- The usage of the project of a new attempt. -/
theorem projectUsage_assign (hnone : s.attempts.lookup attempt = none)
    (hj : s.jobs.lookup job = some j)
    (hledger : s'.toLedger = s.toLedger.assign now worker session attempt job j.uncounted key) :
    projectUsage s' j.project =
      (⟨j.spec.spec.resources.cpuMillis + (projectUsage s j.project).1.cpuMillis,
        j.spec.spec.resources.memoryMiB + (projectUsage s j.project).1.memoryMiB,
        j.spec.spec.resources.scratchMiB + (projectUsage s j.project).1.scratchMiB⟩,
        (projectUsage s j.project).2 + 1) := by
  have hreservations : s'.reservations = AList.insert attempt
      ⟨worker, j.spec.spec.resources, .active⟩ s.reservations :=
    congrArg Ledger.reservations hledger
  -- The other attempts have the reservations they had.
  have hrest : (activeAttempts s (fun k => decide (k.project = j.project))).filterMap
      (fun a => s'.reservations.lookup a) =
      (activeAttempts s (fun k => decide (k.project = j.project))).filterMap
        (fun a => s.reservations.lookup a) := by
    refine List.filterMap_congr fun id hid => ?_
    obtain ⟨⟨id, a⟩, hmem, rfl⟩ := List.mem_map.mp hid
    have hlookup := (Table.mem_select _ _ id a).mp hmem
    have hne : id ≠ attempt := by
      rintro rfl
      exact absurd (hnone.symm.trans hlookup.1) (by simp)
    rw [hreservations, Table.lookup_insert_ite, if_neg hne]
  have hactive := activeAttempts_assign hnone hj hledger
    (p := fun k => decide (k.project = j.project)) (fun k k' hproject _ => by simp only [hproject])
  rw [if_pos (by simp)] at hactive
  have hnew : s'.reservations.lookup attempt = some ⟨worker, j.spec.spec.resources, .active⟩ := by
    rw [hreservations, Table.lookup_insert_ite, if_pos rfl]
  unfold projectUsage
  rw [hactive, List.filterMap_cons_some (f := fun a => s'.reservations.lookup a) hnew, hrest]
  simp only [sumResources, List.map_cons, List.sum_cons, List.length_cons]

end Usage

/-- **Where a new attempt was put has room for it**: what its worker still
holds, running or not yet proven to have stopped, fits what the worker has; its
project is enabled and within its quotas; its sweep is within its limit. -/
structure Store.Accommodates (s : Store) (a : AttemptRow) : Prop where
  host : ∀ m : Measure, s.toLedger.load a.worker ReservationState.occupies m.weight ≤
    s.toLedger.registered a.worker m
  project : ∃ j p, s.jobs.lookup a.job = some j ∧ s.projects.lookup j.project = some p ∧
    p.enabled = true ∧ (projectUsage s j.project).1.cpuMillis ≤ p.cpuQuota ∧
    (projectUsage s j.project).1.memoryMiB ≤ p.memoryQuotaMiB ∧
    ((activeAttempts s (fun k => decide (k.project = j.project))).length : ℤ) ≤ p.concurrencyQuota
  sweep : ∀ j, s.jobs.lookup a.job = some j → ∀ x ∈ j.sweep, ∃ row,
    s.sweeps.lookup x.1 = some row ∧ (sweepUsage s x.1 : ℤ) ≤ row.maxConcurrent

/-- Every running attempt is counted with its reservation. -/
theorem projectUsage_count {s : Store} (hk : s.toLedger.Keyed) (project : Uuid) :
    (projectUsage s project).2 =
      (activeAttempts s (fun k => decide (k.project = project))).length := by
  refine List.filterMap_length_eq_length.mpr fun id hid => ?_
  obtain ⟨⟨id, a⟩, hmem, rfl⟩ := List.mem_map.mp hid
  obtain ⟨r, hr, -⟩ := hk.reservation ((Table.mem_select _ _ id a).mp hmem).1
  exact Option.isSome_of_eq_some hr

/-- **Capacity and quotas hold.** In every reachable store the reservations of
running attempts fit every worker, and a transaction that makes a new attempt
leaves a store that accommodates it. -/
theorem reachable_capacity {w : World} (h : Reachable sha w) :
    (∀ worker (m : Measure), w.store.toLedger.load worker ReservationState.isActive m.weight ≤
      w.store.toLedger.registered worker m) ∧
    ∀ op now s' reply attempt a, w.clock ≤ now → Op.exec sha w.store now op = .ok (s', reply) →
      w.store.attempts.lookup attempt = none → s'.attempts.lookup attempt = some a →
      s'.Accommodates a := by
  refine ⟨h.ledger.capacious.fits, fun op now s' reply attempt a hle hexec hnone ha => ?_⟩
  obtain ⟨observed, queueNow, identity, request, policy, job, j, host, p, rfl,
    ⟨blockers, sequence, hassignable⟩, hassigns, rfl, hledger⟩ :=
    h.exec_assigned hle hexec hnone ha
  have hreached : Reachable sha ⟨s', now⟩ := h.step ⟨hle, _, reply, hexec⟩
  have hkeyed := hreached.ledger_sound.keyed
  obtain ⟨j', hj', hproject, hsweep⟩ : ∃ j', s'.jobs.lookup job = some j' ∧
      j'.project = j.project ∧ j'.sweep = j.sweep := by
    obtain ⟨k, hk, hlater⟩ := (h.exec_ledger hle hexec).later.jobs job _
      (Store.toLedger_job hassignable.found)
    obtain ⟨j', hj', rfl⟩ := Store.job_of_toLedger hk
    exact ⟨j', hj', hlater.project, hlater.sweep⟩
  refine ⟨fun m => ?_, ?_, fun k hk x hx => ?_⟩
  · -- The host had room for the new weight beside what occupies it.
    dsimp only [newAttempt]
    rw [hledger, Ledger.load_assign hassigns _ _ rfl, if_pos rfl]
    change _ ≤ w.store.toLedger.registered identity.workerID m
    rw [Ledger.registered_of_seat hassigns.host hassigns.seated]
    have hroom := hassigns.fits m
    omega
  · have hquota := hassignable.quota
    simp only [quotaAdmits, Bool.and_eq_true, decide_eq_true_eq] at hquota
    obtain ⟨⟨hcpu, hmemory⟩, hcount⟩ := hquota
    refine ⟨j', p, hj', ?_, hassignable.enabled, ?_⟩
    · rw [show s'.projects = w.store.projects from congrArg Ledger.projects hledger, hproject]
      exact hassignable.project
    · change _ ≤ _ - (projectUsage w.store j.project).1.cpuMillis at hcpu
      change _ ≤ _ - (projectUsage w.store j.project).1.memoryMiB at hmemory
      change ((projectUsage w.store j.project).2 : ℤ) < _ at hcount
      rw [hproject, ← projectUsage_count hkeyed,
        projectUsage_assign hnone hassignable.found hledger]
      dsimp only
      refine ⟨?_, ?_, ?_⟩
      · omega
      · omega
      · push_cast
        omega
  · obtain rfl := Option.mem_unique hj' hk
    rw [hsweep] at hx
    obtain ⟨row, hrow⟩ := Option.isSome_iff_exists.mp (hassignable.sweep x hx)
    have hroom := hassignable.concurrency
    simp only [sweepAdmits, Option.mem_def.mp hx, hrow, decide_eq_true_eq] at hroom
    change ((sweepUsage w.store x.1 : ℕ) : ℤ) < _ at hroom
    refine ⟨row, ?_, ?_⟩
    · rw [show s'.sweeps = w.store.sweeps from congrArg Ledger.sweeps hledger]
      exact hrow
    · have hactive := activeAttempts_assign hnone hassignable.found hledger
        (p := fun k => decide (k.sweep.map Prod.fst = some x.1))
        (fun _ _ _ hsweep => by simp only [hsweep])
      rw [if_pos (by simp [Option.mem_def.mp hx])] at hactive
      rw [sweepUsage, hactive, List.length_cons]
      push_cast
      exact hroom

/-- The first assignment of the small control plane: its host runs one attempt
and has room for it. -/
theorem sample_capacity : ∃ (w : World) (s' : Store) (reply : Reply) (a : AttemptRow),
    Op.exec Sample.sha w.store second
      (.acquire second second Sample.identity ⟨1, 1⟩ ⟨false⟩ 1) = .ok (s', reply) ∧
    w.store.attempts.lookup 1 = none ∧ s'.attempts.lookup 1 = some a ∧
    (∀ worker (m : Measure), w.store.toLedger.load worker ReservationState.isActive m.weight ≤
      w.store.toLedger.registered worker m) ∧ s'.Accommodates a := by
  obtain ⟨w, s', reply, hw, hle, hexec, hp⟩ := Sample.reaches_step Sample.world_reachable
    (Sample.seated 1 second ++
      [(second, .submitJob 1 "k" (String.ofList (List.replicate 64 '0')) Sample.job [])])
    second (.acquire second second Sample.identity ⟨1, 1⟩ ⟨false⟩ 1)
    (fun w s' _ => (w.store.attempts.lookup 1).isNone && (s'.attempts.lookup 1).isSome)
    (by decide +kernel)
  rw [Bool.and_eq_true, Option.isNone_iff_eq_none, Option.isSome_iff_exists] at hp
  obtain ⟨hnone, a, ha⟩ := hp
  have hcapacity := reachable_capacity hw
  exact ⟨w, s', reply, a, hexec, hnone, ha, hcapacity.1,
    hcapacity.2 _ second s' reply 1 a hle hexec hnone ha⟩

end Dispatch
