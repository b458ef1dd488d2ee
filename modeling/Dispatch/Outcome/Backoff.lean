import Dispatch.Ledger.Invariants

/-!
# The delay before another attempt

A job whose attempt failed or was lost waits before it is assigned again. How
long is fixed in the transaction that decides it: the backoff of its policy,
doubled with every attempt up to a maximum, and of its second half a part that
the identifier of the attempt decides. The delay is computed in 64-bit
nanoseconds, so the numbers are computed twice here, with and without the wrap,
and a valid policy keeps them apart from it (`retryDelay64_eq`).

The delay counts from the time of that transaction. The moment it ends at is kept
in a column of whole microseconds, so a job may be assigned up to 999 nanoseconds
early (`retry_before_delay`), and no earlier. Nothing moves the moment a waiting
job is due (`Ledger.Step.idles`), and only an assignment that finds the
moment past ends the wait.
-/

namespace Dispatch

open Txn

variable {sha : Uuid → ℕ} {op : Op} {now due : Time} {l l' : Ledger} {id attempt : Uuid}
  {j j' : JobRow} {a : AttemptRow} {s' : Store} {reply : Reply} {w w' : World}

/-! ## The delay in 64 bits -/

/-- `backoff` in 64 bits. -/
def backoff64 (initial maximum : ℤ) : ℕ → ℤ
  | 0 => initial
  | n + 1 =>
    let base := backoff64 initial maximum n
    if base < maximum then min (int64 (base * 2)) maximum else base

/-- **`retryDelay` in 64 bits**, each of its operations with its wrap; the
remainder is taken of unsigned numbers. -/
def retryDelay64 (sha : Uuid → ℕ) (policy : Retry) (attemptNumber : ℕ) (attempt : Uuid) : ℤ :=
  let base := backoff64 (int64 (policy.initialBackoffSeconds * 1000000000))
    (int64 (policy.maxBackoffSeconds * 1000000000)) (attemptNumber - 1)
  let half := base.tdiv 2
  int64 (half + int64 ((sha attempt : ℤ) % (int64 (base - half + 1) % 18446744073709551616)))

/-- **The backoff is the initial one doubled once per earlier attempt, capped.** -/
theorem backoff_eq {initial maximum : ℕ} (hle : initial ≤ maximum) (n : ℕ) :
    backoff initial maximum n = min (initial * 2 ^ n) maximum := by
  induction n with
  | zero => simp [backoff, hle]
  | succ n ih =>
    have hstep : ∀ base : ℕ, (if min base maximum < maximum then min (min base maximum * 2) maximum
        else min base maximum) = min (base * 2) maximum := by
      intro base
      split_ifs <;> omega
    simp only [backoff, ih]
    rw [pow_succ, ← mul_assoc]
    exact hstep _

theorem backoff64_eq {initial maximum : ℕ} (hle : initial ≤ maximum)
    (hmaximum : maximum < 4611686018427387904) (n : ℕ) :
    backoff64 initial maximum n = (backoff initial maximum n : ℕ) := by
  induction n with
  | zero => rfl
  | succ n ih =>
    have hstep : ∀ base : ℕ, base ≤ maximum →
        (if (base : ℤ) < maximum then min (int64 (base * 2)) maximum else base)
          = ((if base < maximum then min (base * 2) maximum else base : ℕ) : ℤ) := by
      intro base hbase
      rw [int64_of_lt (by omega) (by omega)]
      split_ifs <;> omega
    simp only [backoff64, ih]
    refine hstep _ ?_
    rw [backoff_eq hle]
    exact min_le_right _ _

theorem seconds_eq {n : ℤ} (h : 0 ≤ n) : ((seconds n : ℕ) : ℤ) = n * 1000000000 := by
  have hproduct : ((n.toNat * 1000000000 : ℕ) : ℤ) = n * 1000000000 := by omega
  exact hproduct

theorem half_add_mod_le (base drawn : ℕ) :
    base / 2 ≤ base / 2 + drawn % (base - base / 2 + 1) ∧
      base / 2 + drawn % (base - base / 2 + 1) ≤ base := by
  have hless : drawn % (base - base / 2 + 1) < base - base / 2 + 1 := Nat.mod_lt _ (Nat.succ_pos _)
  omega

theorem half_add_mod64 {base : ℕ} (hbase : base ≤ 3600000000000) (drawn : ℕ) :
    int64 ((base : ℤ).tdiv 2 + int64 ((drawn : ℤ) %
      (int64 ((base : ℤ) - (base : ℤ).tdiv 2 + 1) % 18446744073709551616)))
      = ((base / 2 + drawn % (base - base / 2 + 1) : ℕ) : ℤ) := by
  have hhalf : (base : ℤ).tdiv 2 = ((base / 2 : ℕ) : ℤ) := by simp
  have hwidth : (base : ℤ) - ((base / 2 : ℕ) : ℤ) + 1 = ((base - base / 2 + 1 : ℕ) : ℤ) := by omega
  have hless : drawn % (base - base / 2 + 1) < base - base / 2 + 1 := Nat.mod_lt _ (Nat.succ_pos _)
  have hwrap : ∀ x : ℕ, x ≤ 3600000000001 → int64 (x : ℤ) = (x : ℤ) := fun x hx =>
    int64_of_lt (by omega) (by omega)
  have hunsigned : ((base - base / 2 + 1 : ℕ) : ℤ) % 18446744073709551616
      = ((base - base / 2 + 1 : ℕ) : ℤ) := Int.emod_eq_of_lt (by omega) (by omega)
  rw [hhalf, hwidth, hwrap _ (by omega), hunsigned, ← Int.natCast_emod, hwrap _ (by omega),
    ← Int.natCast_add]
  exact hwrap _ (by omega)

/-- What a time loses in its column. -/
theorem timestamptz_add (t d : ℕ) : t + d < (t + d) / 1000 * 1000 + 1000 ∧
    (1000 ∣ t → (t + d) / 1000 * 1000 = t + d / 1000 * 1000) :=
  ⟨by omega, fun h => by omega⟩

section Delay

variable {policy : Retry} (h : policy.Valid)

include h

theorem Retry.Valid.le :
    seconds policy.initialBackoffSeconds ≤ seconds policy.maxBackoffSeconds ∧
      seconds policy.maxBackoffSeconds ≤ 3600000000000 := by
  obtain ⟨-, -, hinitial, hmaximum⟩ := h
  simp only [between, Bool.and_eq_true, decide_eq_true_eq] at hinitial hmaximum
  have hfirst := seconds_eq (n := policy.initialBackoffSeconds) (by omega)
  have hlast := seconds_eq (n := policy.maxBackoffSeconds) (by omega)
  refine ⟨Int.ofNat_le.mp ?_, Int.ofNat_le.mp ?_⟩
  · rw [hfirst, hlast]
    omega
  · rw [hlast]
    omega

/-- **The delay lies in the second half of the backoff.** -/
theorem retryDelay_bounds (sha : Uuid → ℕ) (n : ℕ) (attempt : Uuid) :
    min (seconds policy.initialBackoffSeconds * 2 ^ (n - 1)) (seconds policy.maxBackoffSeconds) / 2
        ≤ retryDelay sha policy n attempt ∧
      retryDelay sha policy n attempt ≤
        min (seconds policy.initialBackoffSeconds * 2 ^ (n - 1))
        (seconds policy.maxBackoffSeconds) := by
  rw [← backoff_eq h.le.1]
  exact half_add_mod_le _ _

/-- **The delay is computed without overflow.** -/
theorem retryDelay64_eq (sha : Uuid → ℕ) (n : ℕ) (attempt : Uuid) :
    retryDelay64 sha policy n attempt = (retryDelay sha policy n attempt : ℕ) := by
  obtain ⟨hle, hmaximum⟩ := h.le
  obtain ⟨-, -, hinitial, hlast⟩ := h
  simp only [between, Bool.and_eq_true, decide_eq_true_eq] at hinitial hlast
  have hfirst : int64 (policy.initialBackoffSeconds * 1000000000)
      = (seconds policy.initialBackoffSeconds : ℕ) := by
    rw [int64_of_lt (by omega) (by omega), seconds_eq (by omega)]
  have hcap : int64 (policy.maxBackoffSeconds * 1000000000)
      = (seconds policy.maxBackoffSeconds : ℕ) := by
    rw [int64_of_lt (by omega) (by omega), seconds_eq (by omega)]
  simp only [retryDelay64, hfirst, hcap, backoff64_eq hle (hmaximum.trans_lt (by decide))]
  refine half_add_mod64 ?_ _
  rw [backoff_eq hle]
  exact (min_le_right _ _).trans hmaximum

end Delay

/-! ## The wait -/

/-- **A job waits out the delay of its last attempt** from a time on. -/
def JobRow.BacksOff (sha : Uuid → ℕ) (attempts : Table Uuid AttemptRow) (now : Time) (id : Uuid)
    (j : JobRow) : Prop :=
  ∃ attempt a, attempts.lookup attempt = some a ∧ a.job = id ∧ a.generation = j.attemptCounter ∧
    j.nextEligibleAt
      = timestamptz (now + retryDelay sha j.spec.spec.retry j.attemptCounter attempt)

theorem JobRow.BacksOff.later (h : j.BacksOff sha l.attempts now id) (hl : l.Later l') :
    j.BacksOff sha l'.attempts now id := by
  obtain ⟨attempt, a, ha, hjob, hlast, hdue⟩ := h
  obtain ⟨a', ha', hlater⟩ := hl.attempts attempt a ha
  exact ⟨attempt, a', ha', hlater.job.trans hjob, hlater.generation.trans hlast, hdue⟩

theorem completionOutcome_due {r : CompletionRequest} {job : Job} {completed : Time}
    (h : (completionOutcome sha r job completed now).jobState = .retryWait) :
    (completionOutcome sha r job completed now).nextEligible
      = now + retryDelay sha job.spec.retry r.authority.generation r.authority.attemptID := by
  unfold completionOutcome at h ⊢
  split at h
  · exact absurd h (by simp)
  · exact absurd h (by simp)
  · split_ifs at h ⊢
    rfl

theorem fenceOutcome_due (h : (fenceOutcome sha j a attempt now).jobState = .retryWait) :
    (fenceOutcome sha j a attempt now).nextEligible
      = now + retryDelay sha j.spec.spec.retry j.attemptCounter attempt := by
  unfold fenceOutcome at h ⊢
  split_ifs at h ⊢ with hcancel hagain
  · split at h
    · exact absurd h (by simp)
    · rfl
  · split at h <;> exact absurd h (by simp)

/-- A job that waits for a retry waited before, or waits from this step on. -/
theorem Ledger.Step.backsOff (h : Ledger.Step sha op now l l') (hj : l.jobs.lookup id = some j)
    (hj' : l'.jobs.lookup id = some j') (hwaits : j'.state = .retryWait) :
    j' = j ∨ j'.BacksOff sha l'.attempts now id := by
  have hhalt : ∀ k : JobRow, k.halt.state ≠ .retryWait := by
    intro k
    simp only [JobRow.halt]
    split_ifs <;> simp
  cases h with
  | admits l' h => exact .inl (Option.mem_unique hj' (h.jobs id j hj))
  | cancel job k hk hstate =>
    rw [Table.lookup_modify, hj] at hj'
    split_ifs at hj' <;> obtain rfl := Option.some.inj hj'
    · exact absurd hwaits (hhalt j)
    · exact .inl rfl
  | assign worker session request attempt job k w hop hfree h =>
    rw [Ledger.assign, Table.lookup_modify, hj] at hj'
    split_ifs at hj' <;> obtain rfl := Option.some.inj hj'
    · exact absurd hwaits (by simp)
    · exact .inl rfl
  | complete completed identity r p k a res m hop hholds h =>
    rw [Ledger.complete, Ledger.close, Table.lookup_update, hj] at hj'
    obtain rfl := Option.some.inj hj'
    dsimp only at hwaits ⊢
    split_ifs at hwaits ⊢ with hid hstop
    · subst hid
      obtain rfl := Option.mem_unique hj hholds.found
      have hgeneration : r.authority.generation = j.attemptCounter :=
        (congrArg AttemptAuthority.generation h.authority).symm.trans hholds.newest
      refine .inr ⟨r.authority.attemptID, a.complete r p (completionOutcome sha r j.spec completed
        now).state completed, ?_, hholds.ofJob, hholds.newest, ?_⟩
      · simp [Ledger.complete, Ledger.close, hholds.granted]
      · exact hgeneration ▸ congrArg timestamptz (completionOutcome_due hwaits)
    · exact absurd hwaits (hhalt j)
    · exact .inl rfl
  | fence job attempt k a r hholds =>
    rw [Ledger.close, Table.lookup_update, hj] at hj'
    obtain rfl := Option.some.inj hj'
    dsimp only at hwaits ⊢
    split_ifs at hwaits ⊢ with hid hstop
    · subst hid
      obtain rfl := Option.mem_unique hj hholds.found
      refine .inr ⟨attempt, a.fence (fenceOutcome sha j a attempt now) now, ?_, hholds.ofJob,
        hholds.newest, congrArg timestamptz (fenceOutcome_due hwaits)⟩
      simp [Ledger.close, hholds.granted]
    · exact absurd hwaits (hhalt j)
    · exact .inl rfl
  | _ => exact .inl (Option.mem_unique hj' hj)

theorem Ledger.Steps.backsOff (h : Ledger.Steps sha op now l l')
    (hj : l.jobs.lookup id = some j) (hj' : l'.jobs.lookup id = some j')
    (hwaits : j'.state = .retryWait) : j' = j ∨ j'.BacksOff sha l'.attempts now id := by
  induction h generalizing j' with
  | refl => exact .inl (Option.mem_unique hj' hj)
  | tail hsteps hstep ih =>
    obtain ⟨k, hk, -⟩ := (Ledger.Steps.later hsteps).jobs id j hj
    obtain rfl | hbacks := hstep.backsOff hk hj' hwaits
    · exact (ih hk hwaits).imp_right fun hbacks => hbacks.later hstep.later
    · exact .inr hbacks

/-- **A job that nobody runs is due** at a time. -/
def Ledger.Idles (l : Ledger) (id : Uuid) (due : Time) : Prop :=
  ∃ j, l.jobs.lookup id = some j ∧ j.nextEligibleAt = due ∧ j.state.isOwned = false

/-- A job gets a new attempt. -/
def Ledger.Retries (l l' : Ledger) (id : Uuid) : Prop :=
  ∃ attempt a, l.attempts.lookup attempt = none ∧ l'.attempts.lookup attempt = some a ∧ a.job = id

/-- Nothing but an assignment of the job moves the time at which it is due. -/
theorem Ledger.Step.idles (h : Ledger.Step sha op now l l') (hidles : l.Idles id due) :
    l'.Idles id due ∨ l.Retries l' id := by
  obtain ⟨j, hj, hdue, hfree⟩ := hidles
  obtain ⟨attempt, a, worker, session, request, job, k, host, -, -, hassigns, rfl, rfl⟩ |
    hcounters := h.counters
  · by_cases hid : job = id
    · exact .inr ⟨attempt, _, hassigns.newAttempt, AList.lookup_insert _, hid⟩
    · refine .inl ⟨j, ?_, hdue, hfree⟩
      rw [Ledger.assign, Table.lookup_modify, if_neg (Ne.symm hid)]
      exact hj
  · obtain ⟨j', hj', hmoves⟩ := h.jobs.kept id j hj
    obtain ⟨k, hk, hcounter⟩ := hcounters.kept id j hj
    obtain rfl := Option.mem_unique hj' hk
    refine .inl ⟨j', hj', ?_⟩
    cases hmoves with
    | stay => exact ⟨hdue, hfree⟩
    | halt hstate =>
      have hinactive : j.state ≠ .active := by
        rintro hactive
        exact absurd (hactive ▸ hfree) (by decide)
      exact ⟨hdue, by simp only [JobRow.halt, if_neg hinactive]; rfl⟩
    | assign attempt hqueued huncancelled hbudget => exact absurd hcounter (Nat.succ_ne_self _)
    | close next accepted manifest eligible howned hcancelled hnext =>
      exact absurd (hfree.symm.trans howned) (by simp)

theorem Ledger.Steps.idles (h : Ledger.Steps sha op now l l') (hidles : l.Idles id due) :
    l'.Idles id due ∨ l.Retries l' id := by
  induction h with
  | refl => exact .inl hidles
  | tail hsteps hstep ih =>
    obtain hidles | ⟨attempt, a, hnone, ha, hjob⟩ := ih
    · refine (hstep.idles hidles).imp_right ?_
      rintro ⟨attempt, a, hnone, ha, hjob⟩
      refine ⟨attempt, a, ?_, ha, hjob⟩
      by_contra hne
      obtain ⟨b, hb⟩ := Option.ne_none_iff_exists'.mp hne
      obtain ⟨b', hb', -⟩ := (Ledger.Steps.later hsteps).attempts attempt b hb
      exact absurd (hnone.symm.trans hb') (by simp)
    · obtain ⟨a', ha', hlater⟩ := hstep.later.attempts attempt a ha
      exact .inr ⟨attempt, a', hnone, ha', hlater.job.trans hjob⟩

/-- **No job is assigned before it is due.** -/
theorem Reachable.retries_due (h : Reachable sha w) (hle : w.clock ≤ now)
    (hexec : op.exec sha w.store now = .ok (s', reply))
    (hidles : w.store.toLedger.Idles id due) (hretries : w.store.toLedger.Retries s'.toLedger id) :
    due ≤ now := by
  obtain ⟨j, hj, hdue, -⟩ := hidles
  obtain ⟨attempt, a, hnone, ha, hjob⟩ := hretries
  obtain ⟨observed, queueNow, identity, request, policy, job, k, host, p, -,
    ⟨blockers, sequence, hassignable⟩, -, rfl, -⟩ := h.exec_assigned hle hexec hnone ha
  obtain rfl : job = id := hjob
  have hk : w.store.toLedger.jobs.lookup job = some k.uncounted :=
    Store.toLedger_job hassignable.found
  obtain rfl := Option.mem_unique hj hk
  exact hdue ▸ hassignable.eligible

/-- **The wait of a run**: a job that nobody runs stays as it is until it is
due. -/
theorem Reachable.idles_until (h : Reachable sha w) (hidles : w.store.toLedger.Idles id due)
    (hlater : World.Later sha w w') : w'.store.toLedger.Idles id due ∨ due ≤ w'.clock := by
  induction hlater with
  | refl => exact .inl hidles
  | tail hrun hstep ih =>
    obtain ⟨hle, op, reply, hexec⟩ := hstep
    have hreached := h.later hrun
    obtain hidles | hpast := ih
    · exact ((hreached.exec_ledger hle hexec).idles hidles).imp_right
        (hreached.retries_due hle hexec hidles)
    · exact .inr (hpast.trans hle)

/-- **A job is not assigned before a time**, whatever commits from a moment of a
run on. -/
def World.Defers (sha : Uuid → ℕ) (w : World) (id : Uuid) (due : Time) : Prop :=
  ∀ w₁ w₂ attempt a, World.Later sha w w₁ → w₁.Step sha w₂ →
    w₁.store.attempts.lookup attempt = none → w₂.store.attempts.lookup attempt = some a →
    a.job = id → due ≤ w₂.clock

theorem Reachable.defers (h : Reachable sha w) (hidles : w.store.toLedger.Idles id due) :
    w.Defers sha id due := by
  rintro w₁ w₂ attempt a hlater ⟨hle, op, reply, hexec⟩ hnone ha hjob
  obtain hidles | hpast := h.idles_until hidles hlater
  · exact (h.later hlater).retries_due hle hexec hidles ⟨attempt, a, hnone, ha, hjob⟩
  · exact hpast.trans hle

/-- **The bounds of a retry's delay.** For every valid policy, every number of
an attempt and every identifier the delay lies between one half of the backoff
and all of it, and 64 bits do not change it. A job that a transaction leaves to
wait for a retry has a valid policy, and no later transaction assigns it before
the end of the delay of its last attempt, counted from the time of that
transaction and rounded down to a microsecond. The times of the database are
whole microseconds, so it is the delay that is rounded down. -/
theorem retry_delay_bounds (h : Reachable sha w) (hle : w.clock ≤ now)
    (hexec : op.exec sha w.store now = .ok (s', reply)) :
    (∀ policy : Retry, policy.Valid → ∀ n, 1 ≤ n → ∀ (attempt : Uuid) (b : ℕ),
      b = min (seconds policy.initialBackoffSeconds * 2 ^ (n - 1))
        (seconds policy.maxBackoffSeconds) →
      b / 2 ≤ retryDelay sha policy n attempt ∧ retryDelay sha policy n attempt ≤ b ∧
        retryDelay64 sha policy n attempt = (retryDelay sha policy n attempt : ℕ)) ∧
    ∀ id j j', w.store.jobs.lookup id = some j → s'.jobs.lookup id = some j' →
      j.state ≠ .retryWait → j'.state = .retryWait →
      j'.spec.spec.retry.Valid ∧ ∃ attempt a, s'.attempts.lookup attempt = some a ∧ a.job = id ∧
        a.generation = j'.attemptCounter ∧ 1 ≤ a.generation ∧ ∃ due,
        World.Defers sha ⟨s', now⟩ id due ∧
        now + retryDelay sha j'.spec.spec.retry a.generation attempt < due + 1000 ∧
        (1000 ∣ now →
          due = now + retryDelay sha j'.spec.spec.retry a.generation attempt / 1000 * 1000) := by
  refine ⟨fun policy hvalid n _ attempt b hb => ?_, fun id j j' hj hj' hran hwaits => ?_⟩
  · obtain ⟨hlow, hhigh⟩ := retryDelay_bounds hvalid sha n attempt
    exact hb ▸ ⟨hlow, hhigh, retryDelay64_eq hvalid sha n attempt⟩
  · have hafter : Reachable sha ⟨s', now⟩ := h.step ⟨hle, op, reply, hexec⟩
    have hsound := hafter.ledger_sound
    have hrow := Store.toLedger_job hj'
    have hbacks : j'.uncounted.BacksOff sha s'.attempts now id := by
      obtain hsame | hbacks :=
        (h.exec_ledger hle hexec).backsOff (Store.toLedger_job hj) hrow hwaits
      · have hstate : j'.uncounted.state = j.uncounted.state := congrArg JobRow.state hsame
        exact absurd (hstate.symm.trans hwaits) hran
      · exact hbacks
    obtain ⟨attempt, a, ha, hjob, hlast, hdue⟩ := hbacks
    have hidles : s'.toLedger.Idles id j'.nextEligibleAt :=
      ⟨j'.uncounted, hrow, rfl, congrArg JobState.isOwned hwaits⟩
    refine ⟨Job.retry_valid (hsound.furnished.documents id _ hrow).valid, attempt, a, ha,
      hjob, hlast, ?_, ?_⟩
    · rw [hsound.numbered.generation attempt a ha]
      exact (hsound.numbered.within attempt a _ ha (hjob ▸ hrow)).1
    · refine ⟨_, hafter.defers hidles, ?_⟩
      have hrounded := hdue
      simp only [timestamptz] at hrounded
      rw [hlast]
      show _ < j'.uncounted.nextEligibleAt + 1000 ∧ (_ → j'.uncounted.nextEligibleAt = _)
      rw [hrounded]
      exact timestamptz_add now _

/-- Attempt 1 is lost after half a minute, and its job is not assigned again for
half a second: the hash of the sample adds nothing to one half of the backoff. -/
theorem sample_retry_delay_bounds : ∃ s' reply,
    (Op.reap Sample.seen (31 * second)).exec Sample.sha Sample.assignedWorld.store (31 * second)
      = .ok (s', reply) ∧
    World.Defers Sample.sha ⟨s', 31 * second⟩ 1 (31 * second + 500000000) := by
  have hcheck : ((Op.reap Sample.seen (31 * second)).exec Sample.sha Sample.assignedWorld.store
      (31 * second)).toOption.any (fun x => (x.1.jobs.lookup 1).any (fun j : JobRow =>
        decide (j.state = .retryWait ∧ j.attemptCounter = 1 ∧
          j.spec.spec.retry = Sample.job.spec.retry))) = true := by decide +kernel
  simp only [Option.any_eq_true, decide_eq_true_eq] at hcheck
  obtain ⟨⟨s', reply⟩, hexec, j', hj', hwaits, hcounter, hpolicy⟩ := hcheck
  rw [toOption_eq_some] at hexec
  have hj : Sample.assignedWorld.store.jobs.lookup 1 = some _ := rfl
  obtain ⟨-, attempt, a, -, -, hlast, -, due, hdefers, -, hdue⟩ :=
    (retry_delay_bounds Sample.assigned_reachable (by decide) hexec).2 1 _ j' hj hj'
    (by decide) hwaits
  have hdelay : retryDelay Sample.sha Sample.job.spec.retry 1 attempt = 500000000 := rfl
  rw [hlast, hcounter, hpolicy, hdelay] at hdue
  obtain rfl := hdue (by decide)
  exact ⟨s', reply, hexec, hdefers⟩

namespace Sample

/-- A hash that adds 999 nanoseconds to one half of a backoff. -/
def late : Uuid → ℕ := fun _ => 999

/-- Half a second after the loss of attempt 1. -/
def early : Time := 31 * second + 500000000

/-- Attempt 1 is lost, another session takes over, and attempt 2 is assigned early. -/
theorem assigned_early : (world.run late assigned).toOption.any (fun w =>
    decide (w.clock ≤ 31 * second) &&
    ((Op.reap seen (31 * second)).exec late w.store (31 * second)).toOption.any (fun x =>
      (x.1.jobs.lookup 1).any (fun j : JobRow => decide (j.state = .retryWait ∧
        early < 31 * second + retryDelay late j.spec.spec.retry 1 1)) &&
      ((⟨x.1, 31 * second⟩ : World).run late (seated 2 early)).toOption.any (fun w₁ =>
        decide (w₁.store.attempts.lookup 2 = none) &&
        (w₁.run late [(early, .acquire early early identity ⟨2, 2⟩ ⟨false⟩ 2)]).toOption.any
          (fun w₂ => decide (w₂.clock = early) &&
            (w₂.store.attempts.lookup 2).any (fun a : AttemptRow => decide (a.job = 1))))))
            = true := by
  decide +kernel

end Sample

/-- **A job is assigned before its delay has passed**: the column drops the 999
nanoseconds by which the delay exceeds half a second. -/
theorem retry_before_delay : ∃ w s' reply j, Reachable Sample.late w ∧ w.clock ≤ 31 * second ∧
    (Op.reap Sample.seen (31 * second)).exec Sample.late w.store (31 * second) = .ok (s', reply) ∧
    s'.jobs.lookup 1 = some j ∧ j.state = .retryWait ∧
    ¬ World.Defers Sample.late ⟨s', 31 * second⟩ 1
      (31 * second + retryDelay Sample.late j.spec.spec.retry 1 1) := by
  have hcheck := Sample.assigned_early
  simp only [Option.any_eq_true, Bool.and_eq_true, decide_eq_true_eq] at hcheck
  obtain ⟨w, hw, hle, ⟨s', reply⟩, hreap, ⟨j, hj, hwaits, hearly⟩, w₁, hlater, hnone, w₂, hstep,
    hclock, a, ha, hjob⟩ := hcheck
  rw [toOption_eq_some] at hw hreap hlater hstep
  have hstart : Reachable Sample.late Sample.world := .start _ _ _ _ _
  refine ⟨w, s', reply, j, hstart.run hw, hle, hreap, hj, hwaits, fun hdefers => ?_⟩
  have hdue := hdefers w₁ w₂ 2 a (World.run_steps hlater) (World.run_single hstep) hnone ha hjob
  exact absurd hdue (not_le.mpr (hclock ▸ hearly))

end Dispatch
