import Dispatch.Store.Acquisition
import Mathlib.Tactic.Linarith
import Mathlib.Tactic.Ring

/-!
# Authority on the wire

A worker is never told when its lease ends, only how long it still lasts: the
RPC layer turns the two deadlines of an attempt into whole milliseconds left
at the server's clock, rounded towards zero, and turns an answer with nothing
left into a rejection.
-/

namespace Dispatch

/-- A millisecond, in nanoseconds. -/
def millisecond : ℕ := 1000000

/-- `until.Sub(now).Milliseconds()`. -/
def milliseconds (until_ now : Time) : ℤ := ((until_ : ℤ) - now).tdiv millisecond

/-- What an answer leaves to an attempt: the milliseconds of its lease and of
its phase. -/
structure Remaining where
  authority : AttemptAuthority
  leaseMs : ℕ
  phaseMs : ℕ
  deriving DecidableEq, Repr

/-- The start of `acquisitionResponse`: an assignment with nothing left is
rejected. -/
def WorkAssignment.remaining (a : WorkAssignment) : Except Decision Remaining :=
  let lease := milliseconds a.leaseExpiresAt a.serverTime
  let phase := milliseconds a.phaseDeadline a.serverTime
  if lease ≤ 0 then .error .fenced
  else if phase ≤ 0 then .error .stopRequested
  else .ok ⟨a.authority, lease.toNat, phase.toNat⟩

/-- `LeaseResult`: a member of the answer to a renewal, its times as durations. -/
structure LeaseResult where
  authority : AttemptAuthority
  decision : Decision
  remainingMs : ℕ
  phaseRemainingMs : ℕ
  serverTimeUnixMs : ℕ
  deriving DecidableEq, Repr

/-- One member of `leaseResponse`; `none` is `INVALID_LEASE_RESULT`. -/
def leaseResult (g : LeaseGrant) : Option LeaseResult :=
  let refused (d : Decision) : LeaseResult := ⟨g.authority, d, 0, 0, g.serverTime / millisecond⟩
  if g.authority.generation < 1 ∨ g.serverTime = 0 then none
  else if g.decision = .accepted then
    let lease := milliseconds g.leaseExpiresAt g.serverTime
    let phase := milliseconds g.phaseDeadline g.serverTime
    if initialLease < g.leaseExpiresAt - g.serverTime then none
    else if lease ≤ 0 then some (refused .fenced)
    else if phase ≤ 0 then some (refused .stopRequested)
    else some ⟨g.authority, .accepted, lease.toNat, phase.toNat, g.serverTime / millisecond⟩
  else some (refused g.decision)

/-- `leaseResponse`. -/
def leaseResponse (grants : List LeaseGrant) : Option (List LeaseResult) :=
  if grants.length < 1 ∨ maxLeaseRenewalBatch < grants.length then none
  else grants.mapM leaseResult

theorem milliseconds_add (now left : Time) :
    milliseconds (now + left) now = ((left / millisecond : ℕ) : ℤ) := by
  unfold milliseconds
  rw [Nat.cast_add, add_sub_cancel_left]
  rfl

theorem milliseconds_nonpos {until_ now : Time} (h : until_ ≤ now) :
    milliseconds until_ now ≤ 0 := by
  obtain ⟨excess, rfl⟩ := Nat.exists_eq_add_of_le h
  unfold milliseconds
  have hneg : (until_ : ℤ) - ((until_ + excess : ℕ) : ℤ) = -(excess : ℤ) := by
    rw [Nat.cast_add]
    ring
  rw [hneg, Int.neg_tdiv]
  have : (0 : ℤ) ≤ (excess : ℤ).tdiv millisecond :=
    Int.tdiv_nonneg (Int.natCast_nonneg _) (Int.natCast_nonneg _)
  linarith

/-- **Rounding never adds time.** -/
theorem milliseconds_le {until_ now : Time} (h : 0 < milliseconds until_ now) :
    now + (milliseconds until_ now).toNat * millisecond ≤ until_ := by
  obtain hle | hlt := le_total until_ now
  · exact absurd (milliseconds_nonpos hle) (not_le.mpr h)
  · obtain ⟨left, rfl⟩ := Nat.exists_eq_add_of_le hlt
    rw [milliseconds_add, Int.toNat_natCast]
    exact Nat.add_le_add_left (Nat.div_mul_le_self _ _) _

/-- **What an assignment leaves to an attempt ends by its lease.** -/
theorem WorkAssignment.remaining_le {a : WorkAssignment} {r : Remaining} (h : a.remaining = .ok r) :
    r.authority = a.authority ∧ a.serverTime + r.leaseMs * millisecond ≤ a.leaseExpiresAt := by
  unfold WorkAssignment.remaining at h
  simp only at h
  split_ifs at h with hlease hphase
  obtain rfl := Except.ok.inj h
  exact ⟨rfl, milliseconds_le (not_le.mp hlease)⟩

/-- **What a renewal leaves to an attempt ends by its lease.** -/
theorem leaseResult_le {g : LeaseGrant} {r : LeaseResult} (h : leaseResult g = some r)
    (haccepted : r.decision = .accepted) :
    r.authority = g.authority ∧ g.decision = .accepted ∧
      g.serverTime + r.remainingMs * millisecond ≤ g.leaseExpiresAt := by
  unfold leaseResult at h
  simp only at h
  split_ifs at h with hvalid hdecision hlong hlease hphase <;> obtain rfl := Option.some.inj h
  · exact absurd haccepted (by simp)
  · exact absurd haccepted (by simp)
  · exact ⟨rfl, hdecision, milliseconds_le (not_le.mp hlease)⟩
  · exact absurd haccepted hdecision

end Dispatch
