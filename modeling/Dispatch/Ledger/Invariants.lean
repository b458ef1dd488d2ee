import Dispatch.Ledger.History

/-!
# What every reachable ledger has

The invariants that the promises of the following modules rest on, each kept by
every step and each read off the moves of its own rows:

* `Ledger.Keyed`: every attempt has its job, its session and its reservation,
  and the reservation is active exactly as long as the attempt is;
* `JobRow.Sound`: a cancellation shows in the state of its job, and a job that
  waits has an attempt left;
* `Ledger.Numbered`: the attempts of a job are numbered without gaps;
* `Ledger.Succession`: a worker is run by its newest session, the only one that
  is not fenced;
* `Ledger.Furnished`: every document is in order and every input is bound;
* `Ledger.Answered`: the attempt an acquisition was answered with is an attempt
  of its worker and session;
* `Ledger.Named`: identifiers are never nil, and every registered dataset has a
  manifest that describes it.
-/

namespace Dispatch

open Txn

variable {l l' : Ledger} {id worker : Uuid} {j : JobRow} {w : WorkerRow}

variable {sha : Uuid → ℕ} {op : Op} {now : Time}

/-! ## References -/

/-- Where an attempt runs, and whether it still does. -/
def AttemptRow.holding (a : AttemptRow) : Uuid × Bool := (a.worker, a.state.isActive)

/-- Where a reservation is, and whether it is active. -/
def ReservationRow.holding (r : ReservationRow) : Uuid × Bool :=
  (r.worker, decide (r.state = .active))

/-- **Nothing dangles.** -/
structure Ledger.Keyed (l : Ledger) : Prop where
  held : ∀ id, (l.attempts.lookup id).map AttemptRow.holding =
    (l.reservations.lookup id).map ReservationRow.holding
  job : ∀ id a, l.attempts.lookup id = some a → l.jobs.lookup a.job ≠ none
  session : ∀ id a, l.attempts.lookup id = some a →
    ∃ ss, l.sessions.lookup a.session = some ss ∧ ss.worker = a.worker
  sweep : ∀ id j, l.jobs.lookup id = some j → ∀ x ∈ j.sweep, l.sweeps.lookup x.1 ≠ none

/-- The reservation of an attempt. -/
theorem Ledger.Keyed.reservation (h : l.Keyed) {a : AttemptRow} (ha : l.attempts.lookup id = some a)
    :
    ∃ r, l.reservations.lookup id = some r ∧ r.worker = a.worker ∧
      (r.state = .active ↔ a.state.isActive = true) := by
  have hid := h.held id
  rw [ha, Option.map_some, eq_comm, Option.map_eq_some_iff] at hid
  obtain ⟨r, hr, hholding⟩ := hid
  obtain ⟨hworker, hactive⟩ := Prod.mk.inj hholding
  refine ⟨r, hr, hworker, ?_⟩
  rw [← hactive, decide_eq_true_eq]

/-- The attempt of a reservation. -/
theorem Ledger.Keyed.attempt (h : l.Keyed) {r : ReservationRow}
    (hr : l.reservations.lookup id = some r) :
    ∃ a, l.attempts.lookup id = some a ∧ a.worker = r.worker ∧
      (r.state = .active ↔ a.state.isActive = true) := by
  have hid := h.held id
  rw [hr, Option.map_some, Option.map_eq_some_iff] at hid
  obtain ⟨a, ha, hholding⟩ := hid
  obtain ⟨hworker, hactive⟩ := Prod.mk.inj hholding
  refine ⟨a, ha, hworker, ?_⟩
  rw [hactive, decide_eq_true_eq]

/-- The end of an attempt ends its reservation with it. -/
theorem holding_close {attempt : Uuid} {ended : AttemptRow → AttemptRow} {held : ReservationState}
    (h : ∀ id, (l.attempts.lookup id).map AttemptRow.holding =
      (l.reservations.lookup id).map ReservationRow.holding)
    (hended : ∀ a, (ended a).holding = (a.worker, false)) (hheld : held ≠ .active) (id : Uuid) :
    ((l.attempts.modify attempt ended).lookup id).map AttemptRow.holding =
      ((l.reservations.modify attempt ({ · with state := held })).lookup id).map
        ReservationRow.holding := by
  have hid := h id
  simp only [Table.lookup_modify]
  split_ifs
  · cases ha : l.attempts.lookup id with
    | none =>
      rw [ha, Option.map_none, eq_comm, Option.map_eq_none_iff] at hid
      rw [hid]
      rfl
    | some a =>
      rw [ha, Option.map_some, eq_comm, Option.map_eq_some_iff] at hid
      obtain ⟨r, hr, hholding⟩ := hid
      rw [hr]
      simp only [Option.map_some, hended, ReservationRow.holding, decide_eq_false hheld,
        (Prod.mk.inj hholding).1]
  · exact hid

theorem Ledger.Step.held (h : Ledger.Step sha op now l l')
    (hkeyed : ∀ id, (l.attempts.lookup id).map AttemptRow.holding =
      (l.reservations.lookup id).map ReservationRow.holding) (id : Uuid) :
    (l'.attempts.lookup id).map AttemptRow.holding =
      (l'.reservations.lookup id).map ReservationRow.holding := by
  have hid := hkeyed id
  cases h with
  | admits l' h =>
    rw [show l'.attempts = l.attempts from congrArg (fun x => x.2.1) h.rest,
      show l'.reservations = l.reservations from congrArg (fun x => x.2.2.1) h.rest]
    exact hid
  | assign worker session request attempt job j w hop hfree h =>
    simp only [Ledger.assign, Table.lookup_insert_ite]
    split_ifs
    · rfl
    · exact hid
  | renew attempt a lease ha hactive =>
    simp only [Table.lookup_modify]
    split_ifs
    · rw [Option.map_map]
      exact hid
    · exact hid
  | phase attempt a claims deadline hop h =>
    simp only [Table.lookup_modify]
    split_ifs with hattempt
    · subst hattempt
      rw [h.granted] at hid ⊢
      rw [← hid]
      simp only [Option.map_some, AttemptRow.holding, AttemptRow.enterPhase, h.active,
        validPhaseEvidence_isActive h.evidence]
    · exact hid
  | complete completed identity r p j a res m hop hholds h =>
    refine holding_close hkeyed (fun a => ?_) (by split_ifs <;> simp) id
    simp only [AttemptRow.holding, AttemptRow.complete,
      (completionOutcome_cases sha r j.spec completed now).1]
  | fence job attempt j a r hholds =>
    refine holding_close hkeyed (fun a' => ?_) (by simp) id
    simp only [AttemptRow.holding, AttemptRow.fence, (fenceOutcome_cases sha j a attempt now).1]
  | report identity report hash w released reconciled hop h =>
    simp only [Ledger.report, Table.lookup_update, Option.map_map]
    by_cases hreleased : id ∈ released
    · obtain ⟨r, hr, hquarantined⟩ := (h.proven id hreleased).quarantined
      obtain ⟨a, ss, ha, -⟩ := (h.proven id hreleased).ended
      rw [ha, hr] at hid ⊢
      simp only [Option.map_some, Option.some.injEq, Function.comp, hreleased, if_true] at hid ⊢
      refine Eq.trans ?_ (hid.trans ?_)
      · rfl
      · simp only [ReservationRow.holding, hquarantined]
        rfl
    · cases ha : l.attempts.lookup id <;> cases hr : l.reservations.lookup id <;>
        simp_all [Function.comp]
  | _ => exact hid

theorem Ledger.Keyed.step (hk : l.Keyed) (h : Ledger.Step sha op now l l') : l'.Keyed := by
  refine ⟨h.held hk.held, fun id a' ha' => ?_, fun id a' ha' => ?_, fun id j' hj' x hx => ?_⟩
  · -- The job of an attempt, old or new, was there before.
    have hbefore : l.jobs.lookup a'.job ≠ none := by
      obtain ⟨a, ha, hlater⟩ | ⟨-, worker, session, request, job, j, w, -, -, hassigns, rfl, -⟩ :=
        h.attempts.found id a' ha'
      · exact hlater.job ▸ hk.job id a ha
      · simp [newAttempt, hassigns.waits]
    obtain ⟨j, hj⟩ := Option.ne_none_iff_exists'.mp hbefore
    obtain ⟨j', hj', -⟩ := h.later.jobs _ _ hj
    simp [hj']
  · have hbefore : ∃ ss, l.sessions.lookup a'.session = some ss ∧ ss.worker = a'.worker := by
      obtain ⟨a, ha, hlater⟩ | ⟨-, worker, session, request, job, j, w, -, -, hassigns, rfl, -⟩ :=
        h.attempts.found id a' ha'
      · rw [hlater.session, hlater.worker]
        exact hk.session id a ha
      · obtain ⟨ss, hss, hworker, -⟩ := hassigns.unfenced
        exact ⟨ss, hss, hworker⟩
    obtain ⟨ss, hss, hworker⟩ := hbefore
    obtain ⟨ss', hss', hlater⟩ := h.later.sessions _ _ hss
    exact ⟨ss', hss', hlater.worker.trans hworker⟩
  · obtain ⟨j, hj, hmoves⟩ | ⟨-, hadmitted⟩ := h.jobs.found id j' hj'
    · rw [hmoves.later.sweep] at hx
      obtain ⟨row, hrow⟩ := Option.ne_none_iff_exists'.mp (hk.sweep id j hj x hx)
      rw [h.later.sweeps _ _ hrow]
      simp
    · exact (hadmitted.sweep x hx).2

/-! ## Documents and inputs -/

/-- **The jobs stay what was admitted.** -/
theorem Ledger.Furnished.step (hf : l.Furnished) (h : Ledger.Step sha op now l l') : l'.Furnished
    := by
  -- Rows of inputs are added by an admission, for the jobs it admits.
  have hown : ∀ k r, l'.jobInputs.lookup k = some r → l.jobInputs.lookup k = some r ∨
      l.jobs.lookup k.1 = none ∧ l'.jobs.lookup k.1 ≠ none := by
    cases h with
    | admits l' h => exact h.own
    | _ => exact fun _ _ => .inl
  refine ⟨fun id j' hj' => ?_, fun id j' hj' => ?_, fun k r hr => ?_⟩
  · obtain ⟨j, hj, hmoves⟩ | ⟨-, hadmitted⟩ := h.jobs.found id j' hj'
    · have hdocument := hf.documents id j hj
      have hlater := hmoves.later
      refine ⟨hlater.spec ▸ hdocument.valid, hlater.spec ▸ hdocument.pinned, ?_, ?_⟩
      · rw [hlater.spec, hlater.specHash]
        exact hdocument.hashed
      · rw [hlater.spec, hmoves.columns.1, hmoves.columns.2]
        exact hdocument.columns
    · exact hadmitted.document hf
  · obtain ⟨j, hj, hmoves⟩ | ⟨-, hadmitted⟩ := h.jobs.found id j' hj'
    · have hbound := (hf.bound id j hj).mono h.later.jobInputs h.later.datasets
        (fun i r hr => (hown (id, i) r hr).resolve_right fun hnew =>
          absurd (hnew.1.symm.trans hj) (by simp))
      have hlater := hmoves.later
      refine ⟨fun i input hi => ?_, fun i r hr => ?_⟩
      · rw [hlater.project]
        exact hbound.rows i input (hlater.spec ▸ hi)
      · rw [hlater.spec]
        exact hbound.only i r hr
    · exact hadmitted.inputs hf
  · obtain hold | ⟨-, hin⟩ := hown k r hr
    · obtain ⟨j, hj⟩ := Option.ne_none_iff_exists'.mp (hf.known k r hold)
      obtain ⟨j', hj', -⟩ := h.later.jobs _ _ hj
      simp [hj']
    · exact hin

/-! ## Jobs -/

/-- What `validate` asks of a retry policy. -/
def Retry.Valid (policy : Retry) : Prop :=
  1 ≤ policy.maxAttempts ∧ policy.maxAttempts ≤ 10 ∧ between policy.initialBackoffSeconds 1 3600 ∧
    between policy.maxBackoffSeconds policy.initialBackoffSeconds 3600

theorem Job.retry_valid {job : Job} (h : job.isValid = true) : job.spec.retry.Valid := by
  rw [Job.isValid_iff] at h
  simp only [Job.validate, bind_ok, require_ok] at h
  obtain ⟨_, -, _, -, _, -, _, -, _, -, _, -, _, -, _, -, _, -, _, -, _, -, _, hretry, -⟩ := h
  exact hretry

/-- **The state of a job agrees with its history.** -/
structure JobRow.Sound (j : JobRow) : Prop where
  cancelled : j.cancelRequested = true ↔ j.state = .cancelling ∨ j.state = .cancelled
  budget : (j.attemptCounter : ℤ) ≤ j.spec.spec.retry.maxAttempts
  queued : j.state.isQueued = true → (j.attemptCounter : ℤ) < j.spec.spec.retry.maxAttempts

theorem JobRow.Sound.moves {j' : JobRow} (hs : j.Sound) (h : j.Moves j') : j'.Sound := by
  cases h with
  | stay => exact hs
  | halt h =>
    refine ⟨?_, hs.budget, fun hqueued => ?_⟩
    · simp only [JobRow.halt]
      split_ifs <;> simp
    · exfalso
      simp only [JobRow.halt] at hqueued
      split_ifs at hqueued <;> simp [JobState.isQueued] at hqueued
  | assign attempt hqueued huncancelled hbudget =>
    refine ⟨by simp [huncancelled], ?_, fun hstate => absurd hstate (by simp [JobState.isQueued])⟩
    push_cast
    omega
  | close next accepted manifest eligible howned hcancelled hnext =>
    refine ⟨?_, hs.budget, fun hqueued => ?_⟩
    · cases hc : j.cancelRequested with
      | true => simp [hcancelled hc]
      | false => obtain rfl | rfl | ⟨rfl, -⟩ := hnext hc <;> simp
    · cases hc : j.cancelRequested with
      | true =>
        obtain rfl := hcancelled hc
        exact absurd hqueued (by simp [JobState.isQueued])
      | false =>
        obtain rfl | rfl | ⟨rfl, hbudget, -⟩ := hnext hc
        · exact absurd hqueued (by simp [JobState.isQueued])
        · exact absurd hqueued (by simp [JobState.isQueued])
        · exact hbudget

theorem Ledger.Admitted.sound (h : l.Admitted l' id j) (hf : l.Furnished) : j.Sound := by
  have hpos := (Job.retry_valid (h.document hf).valid).1
  refine ⟨by simp [h.uncancelled, h.queued], ?_, fun _ => ?_⟩ <;>
    · rw [h.counter]
      push_cast
      omega

/-! ## The numbers of attempts -/

/-- **The attempts of a job are numbered without gaps.** -/
structure Ledger.Numbered (l : Ledger) : Prop where
  within : ∀ id a j, l.attempts.lookup id = some a → l.jobs.lookup a.job = some j →
    1 ≤ a.number ∧ a.number ≤ j.attemptCounter
  once : ∀ id id' a a', l.attempts.lookup id = some a → l.attempts.lookup id' = some a' →
    a.job = a'.job → a.number = a'.number → id = id'
  all : ∀ job j n, l.jobs.lookup job = some j → 1 ≤ n → n ≤ j.attemptCounter →
    ∃ id a, l.attempts.lookup id = some a ∧ a.job = job ∧ a.number = n
  generation : ∀ id a, l.attempts.lookup id = some a → a.generation = a.number

/-- Numbers stay when no attempt is made and none is counted. -/
theorem Ledger.Numbered.uncounted (hn : l.Numbered) (hk : l.Keyed)
    (hattempts : l.attempts.Turns AttemptRow.Later (fun _ _ => False) l'.attempts)
    (hjobs : l.jobs.Turns (fun j j' => j'.attemptCounter = j.attemptCounter)
      (fun _ j => j.attemptCounter = 0) l'.jobs) : l'.Numbered := by
  have hold : ∀ id a', l'.attempts.lookup id = some a' →
      ∃ a, l.attempts.lookup id = some a ∧ a.Later a' :=
    fun id a' ha' => (hattempts.found id a' ha').resolve_right fun hnew => hnew.2
  refine ⟨fun id a' j' ha' hj' => ?_, fun id id' a b ha hb hjob hnumber => ?_,
    fun job j' n hj' hpos hle => ?_, fun id a' ha' => ?_⟩
  · obtain ⟨a, ha, hlater⟩ := hold id a' ha'
    rw [hlater.job] at hj'
    obtain ⟨j, hj, hcounter⟩ | ⟨hnone, -⟩ := hjobs.found _ j' hj'
    · rw [hlater.number, hcounter]
      exact hn.within id a j ha hj
    · exact absurd hnone (hk.job id a ha)
  · obtain ⟨a₀, ha₀, hlater⟩ := hold id a ha
    obtain ⟨b₀, hb₀, hlater'⟩ := hold id' b hb
    rw [hlater.job, hlater'.job] at hjob
    rw [hlater.number, hlater'.number] at hnumber
    exact hn.once id id' a₀ b₀ ha₀ hb₀ hjob hnumber
  · obtain ⟨j, hj, hcounter⟩ | ⟨-, hzero⟩ := hjobs.found job j' hj'
    · obtain ⟨id, a, ha, rfl, rfl⟩ := hn.all job j n hj hpos (hcounter ▸ hle)
      obtain ⟨a', ha', hlater⟩ := hattempts.kept id a ha
      exact ⟨id, a', ha', hlater.job, hlater.number⟩
    · omega
  · obtain ⟨a, ha, hlater⟩ := hold id a' ha'
    rw [hlater.generation, hlater.number]
    exact hn.generation id a ha

/-- A new attempt has the next number. -/
theorem Ledger.Numbered.assign (hn : l.Numbered) {session attempt job : Uuid}
    {key : Uuid × Uuid × Uuid} (h : l.Assigns worker session attempt job j w) :
    (l.assign now worker session attempt job j key).Numbered := by
  -- No attempt of the job has the number after its counter.
  have hnext : ∀ id a, l.attempts.lookup id = some a → a.job = job →
      a.number ≠ j.attemptCounter + 1 := by
    intro id a ha hjob
    have := (hn.within id a j ha (hjob ▸ h.waits)).2
    omega
  refine ⟨fun id a j' ha hj' => ?_, fun id id' a b ha hb hjob hnumber => ?_,
    fun job' j' n hj' hpos hle => ?_, fun id a ha => ?_⟩
  · simp only [Ledger.assign, Table.lookup_insert_ite, Table.lookup_modify] at ha hj'
    split_ifs at ha hj' with hid hjob hjob
    · obtain rfl := Option.some.inj ha
      rw [hjob, h.waits] at hj'
      obtain rfl := Option.some.inj hj'
      exact ⟨Nat.le_add_left 1 _, le_refl _⟩
    · obtain rfl := Option.some.inj ha
      exact absurd rfl hjob
    · rw [hjob, h.waits] at hj'
      obtain rfl := Option.some.inj hj'
      obtain ⟨hpos, hle⟩ := hn.within id a j ha (hjob ▸ h.waits)
      exact ⟨hpos, Nat.le_succ_of_le hle⟩
    · exact hn.within id a j' ha hj'
  · simp only [Ledger.assign, Table.lookup_insert_ite] at ha hb
    split_ifs at ha hb with hid hid' hid'
    · exact hid.trans hid'.symm
    · obtain rfl := Option.some.inj ha
      exact absurd hnumber.symm (hnext id' b hb hjob.symm)
    · obtain rfl := Option.some.inj hb
      exact absurd hnumber (hnext id a ha hjob)
    · exact hn.once id id' a b ha hb hjob hnumber
  · -- The numbers of before are there, and the new one is the new attempt's.
    have hkept : (∃ id a, l.attempts.lookup id = some a ∧ a.job = job' ∧ a.number = n) →
        ∃ id a, (l.assign now worker session attempt job j key).attempts.lookup id = some a ∧
          a.job = job' ∧ a.number = n := by
      rintro ⟨id, a, ha, hrest⟩
      exact ⟨id, a, Table.Extends.insert _ h.newAttempt id a ha, hrest⟩
    simp only [Ledger.assign, Table.lookup_modify] at hj'
    split_ifs at hj' with hjob
    · subst hjob
      rw [h.waits] at hj'
      obtain rfl := Option.some.inj hj'
      obtain hlt | heq := Nat.lt_or_eq_of_le hle
      · exact hkept (hn.all job' j n h.waits hpos (Nat.le_of_lt_succ hlt))
      · refine ⟨attempt, newAttempt now worker session job' j, ?_, rfl, heq.symm⟩
        simp only [Ledger.assign, Table.lookup_insert_ite, if_true]
    · exact hkept (hn.all job' j' n hj' hpos hle)
  · simp only [Ledger.assign, Table.lookup_insert_ite] at ha
    split_ifs at ha
    · obtain rfl := Option.some.inj ha
      rfl
    · exact hn.generation id a ha

theorem Ledger.Numbered.step (hn : l.Numbered) (hk : l.Keyed) (h : Ledger.Step sha op now l l') :
    l'.Numbered := by
  by_cases hnew : ∃ attempt a, l.Assigned op now l' attempt a
  · obtain ⟨attempt, a, worker, session, request, job, j, w, -, -, hassigns, -, rfl⟩ := hnew
    exact hn.assign hassigns
  · refine hn.uncounted hk ⟨h.attempts.kept, fun id a ha => ?_⟩ (h.counters.resolve_left hnew)
    exact (h.attempts.found id a ha).imp_right fun hfound => absurd ⟨id, a, hfound.2⟩ hnew

/-! ## The sessions of a worker -/

/-- **A worker is run by its newest session**, the only one that is not
fenced. -/
structure Ledger.Succession (l : Ledger) : Prop where
  seated : ∀ worker session, l.seat worker = some session →
    ∃ ss, l.sessions.lookup session = some ss ∧ ss.worker = worker ∧ ss.fencedAt = none
  only : ∀ id ss, l.sessions.lookup id = some ss → ss.fencedAt = none → l.seat ss.worker = some id
  newest : ∀ session ss id ss', l.sessions.lookup session = some ss → ss.fencedAt = none →
    l.sessions.lookup id = some ss' → ss'.worker = ss.worker → id ≠ session →
    ss'.generation < ss.generation
  distinct : ∀ id id' ss ss', l.sessions.lookup id = some ss → l.sessions.lookup id' = some ss' →
    ss.worker = ss'.worker → ss.generation = ss'.generation → id = id'

/-- Succession depends on seats and fences only. -/
theorem Ledger.Succession.same (hs : l.Succession)
    (hseat : ∀ worker, l'.seat worker = l.seat worker)
    (hsessions : l.sessions.Turns SessionRow.SameFence (fun _ _ => False) l'.sessions) :
    l'.Succession := by
  have hold : ∀ id ss', l'.sessions.lookup id = some ss' → ∃ ss, l.sessions.lookup id = some ss ∧
      ss'.worker = ss.worker ∧ ss'.generation = ss.generation ∧ ss'.fencedAt = ss.fencedAt :=
    fun id ss' hss' => (hsessions.found id ss' hss').resolve_right fun hnew => hnew.2
  refine ⟨fun worker session hworker => ?_, fun id ss' hss' hfence => ?_,
    fun session ss' id tt' hss' hfence htt' hworker hne => ?_,
    fun id id' ss' tt' hss' htt' hworker hgeneration => ?_⟩
  · obtain ⟨ss, hss, hw, hf⟩ := hs.seated worker session (hseat worker ▸ hworker)
    obtain ⟨ss', hss', hw', -, hf'⟩ := hsessions.kept session ss hss
    exact ⟨ss', hss', hw'.trans hw, hf'.trans hf⟩
  · obtain ⟨ss, hss, hw, -, hf⟩ := hold id ss' hss'
    rw [hseat, hw]
    exact hs.only id ss hss (hf ▸ hfence)
  · obtain ⟨ss, hss, hw, hg, hf⟩ := hold session ss' hss'
    obtain ⟨tt, htt, hw', hg', -⟩ := hold id tt' htt'
    rw [hg, hg']
    exact hs.newest session ss id tt hss (hf ▸ hfence) htt (by rw [← hw, ← hw', hworker]) hne
  · obtain ⟨ss, hss, hw, hg, -⟩ := hold id ss' hss'
    obtain ⟨tt, htt, hw', hg', -⟩ := hold id' tt' htt'
    exact hs.distinct id id' ss tt hss htt (by rw [← hw, ← hw', hworker])
      (by rw [← hg, ← hg', hgeneration])

/-- **What a new session leaves of the old ones**: of its own worker all are
fenced, of the others none changes. -/
theorem Ledger.Vacant.sessions {hash : RegistrationClaims} {sessions : Table Uuid SessionRow}
    {generation : ℕ} {takeovers : Table (Uuid × Uuid) TakeoverRow}
    (h : l.Vacant now worker w hash sessions generation takeovers) (hs : l.Succession)
    {ss' : SessionRow} (hss' : sessions.lookup id = some ss') :
    ∃ ss, l.sessions.lookup id = some ss ∧ ss'.worker = ss.worker ∧
      ss'.generation = ss.generation ∧
      (ss.worker = worker → ss'.fencedAt ≠ none) ∧
      (ss.worker ≠ worker → ss'.fencedAt = ss.fencedAt) := by
  obtain rfl | ⟨rfl, hnone⟩ := h.fenced
  · rw [Ledger.fenceSessions, Table.lookup_update, Option.map_eq_some_iff] at hss'
    obtain ⟨ss, hss, rfl⟩ := hss'
    refine ⟨ss, hss, ?_⟩
    split_ifs with hfence
    · exact ⟨rfl, rfl, fun _ => by simp, fun hne => absurd hfence.1 hne⟩
    · exact ⟨rfl, rfl, fun hw hf => hfence ⟨hw, hf⟩, fun _ => rfl⟩
  · refine ⟨ss', hss', rfl, rfl, fun hw hf => ?_, fun _ => rfl⟩
    -- A worker without a session has no session that is not fenced.
    have hseat := hs.only id ss' hss' hf
    rw [Ledger.seat, hw, h.host, Option.bind_some, hnone] at hseat
    exact absurd hseat (by simp)

theorem Ledger.Succession.install (hs : l.Succession) {hash : RegistrationClaims}
    {sessions : Table Uuid SessionRow} {generation : ℕ}
    {takeovers : Table (Uuid × Uuid) TakeoverRow}
    (h : l.Vacant now worker w hash sessions generation takeovers) :
    (l.install now worker hash sessions generation takeovers).Succession := by
  have hseat : ∀ worker', (l.install now worker hash sessions generation takeovers).seat worker'
      = if worker' = worker then some hash.sessionID else l.seat worker' := by
    intro worker'
    simp only [Ledger.seat, Ledger.install, Table.lookup_modify]
    split_ifs with heq
    · rw [heq, h.host]
      rfl
    · rfl
  have hkept : ∀ worker' session ss, worker' ≠ worker → l.sessions.lookup session = some ss →
      ss.worker = worker' → ss.fencedAt = none → ∃ ss', sessions.lookup session = some ss' ∧
        ss'.worker = worker' ∧ ss'.fencedAt = none := by
    intro worker' session ss hne hss hw hf
    obtain rfl | ⟨rfl, -⟩ := h.fenced
    · refine ⟨ss, ?_, hw, hf⟩
      rw [Ledger.fenceSessions, Table.lookup_update, hss, Option.map_some,
        if_neg (fun hfence => hne (hw.symm.trans hfence.1))]
    · exact ⟨ss, hss, hw, hf⟩
  refine ⟨fun worker' session hsession => ?_, fun id ss hss hfence => ?_,
    fun session ss id tt hss hfence htt hworker hne => ?_,
    fun id id' ss tt hss htt hworker hgeneration => ?_⟩
  · rw [hseat] at hsession
    simp only [Ledger.install, Table.lookup_insert_ite]
    split_ifs at hsession with hw
    · obtain rfl := Option.some.inj hsession
      exact ⟨_, if_pos rfl, hw.symm, rfl⟩
    · obtain ⟨ss, hss, hworker, hf⟩ := hs.seated worker' session hsession
      rw [if_neg (by rintro rfl; exact absurd (h.fresh.symm.trans hss) (by simp))]
      exact hkept worker' session ss hw hss hworker hf
  · rw [hseat]
    simp only [Ledger.install, Table.lookup_insert_ite] at hss
    split_ifs at hss with hid
    · obtain rfl := Option.some.inj hss
      rw [if_pos rfl, hid]
    · obtain ⟨ss₀, hss₀, hw, -, hmine, hother⟩ := h.sessions hs hss
      by_cases hworker : ss₀.worker = worker
      · exact absurd hfence (hmine hworker)
      · rw [if_neg (hw ▸ hworker), hw]
        exact hs.only id ss₀ hss₀ (hother hworker ▸ hfence)
  · simp only [Ledger.install, Table.lookup_insert_ite] at hss htt
    split_ifs at hss htt with hid hid'
    · exact absurd (hid'.trans hid.symm) hne
    · obtain rfl := Option.some.inj hss
      obtain ⟨tt₀, htt₀, hw, hg, -⟩ := h.sessions hs htt
      rw [hg]
      exact h.newest id tt₀ htt₀ (hw.symm.trans hworker)
    · obtain rfl := Option.some.inj htt
      obtain ⟨ss₀, hss₀, hw, -, hmine, -⟩ := h.sessions hs hss
      exact absurd hfence (hmine (hw.symm.trans hworker.symm))
    · obtain ⟨ss₀, hss₀, hw, hg, hmine, hother⟩ := h.sessions hs hss
      obtain ⟨tt₀, htt₀, hw', hg', -⟩ := h.sessions hs htt
      have hne' : ss₀.worker ≠ worker := fun heq => hmine heq hfence
      rw [hg, hg']
      exact hs.newest session ss₀ id tt₀ hss₀ (hother hne' ▸ hfence) htt₀
        (by rw [← hw, ← hw', hworker]) hne
  · simp only [Ledger.install, Table.lookup_insert_ite] at hss htt
    split_ifs at hss htt with hid hid' hid'
    · exact hid.trans hid'.symm
    · obtain rfl := Option.some.inj hss
      obtain ⟨tt₀, htt₀, hw, hg, -⟩ := h.sessions hs htt
      have := h.newest id' tt₀ htt₀ (hw.symm.trans hworker.symm)
      exact absurd (hg.symm.trans hgeneration.symm) this.ne
    · obtain rfl := Option.some.inj htt
      obtain ⟨ss₀, hss₀, hw, hg, -⟩ := h.sessions hs hss
      have := h.newest id ss₀ hss₀ (hw.symm.trans hworker)
      exact absurd (hg.symm.trans hgeneration) this.ne
    · obtain ⟨ss₀, hss₀, hw, hg, -⟩ := h.sessions hs hss
      obtain ⟨tt₀, htt₀, hw', hg', -⟩ := h.sessions hs htt
      exact hs.distinct id id' ss₀ tt₀ hss₀ htt₀ (by rw [← hw, ← hw', hworker])
        (by rw [← hg, ← hg', hgeneration])

theorem Ledger.Succession.step (hs : l.Succession) (h : Ledger.Step sha op now l l') :
    l'.Succession := by
  obtain ⟨worker, w, hash, sessions, generation, takeovers, hvacant, -, rfl⟩ | ⟨hseat, hsessions⟩ :=
    h.seat_cases
  · exact hs.install hvacant
  · exact hs.same hseat hsessions

/-! ## Answers -/

/-- **The answers of acquisitions**: what is repeated is an attempt of the
session that asked. -/
def Ledger.Answered (l : Ledger) : Prop :=
  ∀ key saved, l.workerRequests.lookup key = some ⟨.inl saved⟩ →
    ∃ a, l.attempts.lookup saved = some a ∧ a.worker = key.1 ∧ a.session = key.2.1

theorem Ledger.Answered.step (hs : l.Answered) (h : Ledger.Step sha op now l l') : l'.Answered
    := by
  have hstays : ∀ key saved, l.workerRequests.lookup key = some ⟨.inl saved⟩ →
      ∃ a, l'.attempts.lookup saved = some a ∧ a.worker = key.1 ∧ a.session = key.2.1 := by
    intro key saved hkey
    obtain ⟨a, ha, hworker, hsession⟩ := hs key saved hkey
    obtain ⟨a', ha', hlater⟩ := h.attempts.kept saved a ha
    exact ⟨a', ha', hlater.worker.trans hworker, hlater.session.trans hsession⟩
  intro key saved hkey
  cases h with
  | admits l' h =>
    rw [show l'.workerRequests = l.workerRequests from
      congrArg (fun x => x.2.2.2.2.2.2.1) h.rest] at hkey
    exact hstays key saved hkey
  | refuse key' reason hop hfree =>
    rw [Table.lookup_insert_ite] at hkey
    split_ifs at hkey with hsame
    · exact absurd (congrArg WorkerRequestRow.answer (Option.some.inj hkey)) (by simp)
    · exact hstays key saved hkey
  | assign worker session request attempt job j w hop hfree h =>
    simp only [Ledger.assign, Table.lookup_insert_ite] at hkey
    split_ifs at hkey with hsame
    · obtain ⟨⟨⟩⟩ := hkey
      subst hsame
      exact ⟨newAttempt now worker session job j, AList.lookup_insert _, rfl, rfl⟩
    · exact hstays key saved hkey
  | _ => exact hstays key saved hkey

/-! ## Identifiers and datasets -/

/-- **No identifier is nil, and no dataset is unchecked.** -/
structure Ledger.Named (l : Ledger) : Prop where
  projects : l.projects.lookup 0 = none
  jobs : ∀ id j, l.jobs.lookup id = some j → id ≠ 0 ∧ j.project ≠ 0
  datasets : ∀ id d, l.datasets.lookup id = some d →
    d.manifest.validate d.object.sizeBytes = true

theorem Ledger.Named.step (hs : l.Named) (h : Ledger.Step sha op now l l') : l'.Named := by
  have hjobs : ∀ id j, l'.jobs.lookup id = some j → id ≠ 0 ∧ j.project ≠ 0 := by
    intro id j hj
    obtain ⟨j₀, hj₀, hmoves⟩ | ⟨-, hadmitted⟩ := h.jobs.found id j hj
    · exact ⟨(hs.jobs id j₀ hj₀).1, hmoves.later.project ▸ (hs.jobs id j₀ hj₀).2⟩
    · exact ⟨hadmitted.named, hadmitted.owned hs.projects⟩
  cases h with
  | dataset id row hfree hvalid =>
    refine ⟨hs.projects, hjobs, fun id' d hd => ?_⟩
    rw [Table.lookup_insert_ite] at hd
    split_ifs at hd
    · obtain rfl := Option.some.inj hd
      exact hvalid
    · exact hs.datasets id' d hd
  | admits l' h =>
    have hprojects : l'.projects = l.projects := congrArg Prod.fst h.rest
    have hdatasets : l'.datasets = l.datasets := congrArg (fun x => x.2.2.2.2.2.2.2.1) h.rest
    exact ⟨hprojects ▸ hs.projects, hjobs, hdatasets ▸ hs.datasets⟩
  | operate projects hnil => exact ⟨hnil, hjobs, hs.datasets⟩
  | _ => exact ⟨hs.projects, hjobs, hs.datasets⟩

/-! ## All together -/

/-- **The invariant of the ledger.** -/
structure Ledger.Sound (l : Ledger) : Prop where
  keyed : l.Keyed
  furnished : l.Furnished
  jobs : ∀ id j, l.jobs.lookup id = some j → j.Sound
  numbered : l.Numbered
  succession : l.Succession
  answered : l.Answered
  named : l.Named

theorem Ledger.Sound.step (hs : l.Sound) (h : Ledger.Step sha op now l l') :
    l'.Sound where
  keyed := hs.keyed.step h
  furnished := hs.furnished.step h
  jobs := h.jobs.forall (fun _ _ _ _ hmoves hj => hj.moves hmoves)
    (fun _ _ hadmitted => hadmitted.sound hs.furnished) hs.jobs
  numbered := hs.numbered.step hs.keyed h
  succession := hs.succession.step h
  answered := hs.answered.step h
  named := hs.named.step h

/-- **Every reachable ledger is sound.** -/
theorem Ledger.Reachable.sound (h : Ledger.Reachable sha l) : l.Sound := by
  induction h with
  | start projects workers credentials workerProjects =>
    -- A provisioned store has projects and hosts only, and the hosts have no session.
    have hseat : ∀ worker, (Store.provisioned projects workers credentials
        workerProjects).toLedger.seat worker = none := by
      intro worker
      simp only [Ledger.seat, Store.toLedger, Store.provisioned, Table.lookup_update]
      cases workers.lookup worker <;> rfl
    have hempty : ∀ {α : Type} {x : α} {P : Prop}, none = some x → P :=
      fun h => absurd h.symm (Option.some_ne_none _)
    exact {
      keyed := ⟨fun _ => rfl, fun _ _ h => hempty h, fun _ _ h => hempty h, fun _ _ h => hempty h⟩
      furnished := ⟨fun _ _ h => hempty h, fun _ _ h => hempty h, fun _ _ h => hempty h⟩
      jobs := fun _ _ h => hempty h
      numbered := ⟨fun _ _ _ h => hempty h, fun _ _ _ _ h => hempty h, fun _ _ _ h => hempty h,
        fun _ _ h => hempty h⟩
      succession := ⟨fun worker _ h => absurd ((hseat worker).symm.trans h) (by simp),
        fun _ _ h => hempty h, fun _ _ _ _ h => hempty h, fun _ _ _ _ h => hempty h⟩
      answered := fun _ _ h => hempty h
      named := ⟨AList.lookup_erase 0 projects, fun _ _ h => hempty h, fun _ _ h => hempty h⟩ }
  | step _ hstep ih => exact ih.step hstep

theorem Reachable.ledger_sound {w : World} (h : Reachable sha w) : w.store.toLedger.Sound :=
  h.ledger.sound

/-- **Nothing dangles in a reachable store.** Attempts have their jobs, sessions and
reservations, and jobs their sweeps, valid documents and inputs. -/
theorem referential_integrity {w : World} (h : Reachable sha w) :
    w.store.toLedger.Keyed ∧ w.store.toLedger.Furnished :=
  ⟨h.ledger_sound.keyed, h.ledger_sound.furnished⟩

theorem sample_keyed : Sample.seen.attempts.keys = [1] ∧ Sample.seen.toLedger.Keyed :=
  ⟨rfl, (referential_integrity Sample.assigned_reachable).1⟩

end Dispatch
