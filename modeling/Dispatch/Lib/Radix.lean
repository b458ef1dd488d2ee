import Mathlib.Algebra.BigOperators.Group.List.Basic

/-!
# Mixed radix

A number below the product of a list of bases is a list of digits, one below
each base. The last digit varies fastest: the digit at a base is the number
divided by the bases after it, reduced by the base itself.
-/

namespace Radix

/-- The digits of a number, the most significant first. -/
def digits : List ℕ → ℕ → List ℕ
  | [], _ => []
  | b :: bs, i => i / bs.prod % b :: digits bs i

/-- The number of a list of digits. -/
def ofDigits : List ℕ → List ℕ → ℕ
  | _ :: bs, d :: ds => d * bs.prod + ofDigits bs ds
  | _, _ => 0

variable {bases ds : List ℕ} {i : ℕ}

/-- A multiple of the product of the bases does not show in the digits. -/
theorem digits_add_mul (bases : List ℕ) (k i : ℕ) :
    digits bases (k * bases.prod + i) = digits bases i := by
  induction bases generalizing k with
  | nil => rfl
  | cons b bs ih =>
    have hsplit : k * (b :: bs).prod + i = k * b * bs.prod + i := by
      rw [List.prod_cons, Nat.mul_assoc]
    rw [hsplit, digits, digits, ih]
    congr 1
    obtain hzero | hpos := Nat.eq_zero_or_pos bs.prod
    · rw [hzero, Nat.mul_zero, Nat.zero_add]
    · rw [Nat.add_comm, Nat.add_mul_div_right _ _ hpos, Nat.add_mul_mod_self_right]

theorem ofDigits_digits_mod (bases : List ℕ) (i : ℕ) :
    ofDigits bases (digits bases i) = i % bases.prod := by
  induction bases with
  | nil => exact (Nat.mod_one i).symm
  | cons b bs ih =>
    rw [digits, ofDigits, ih, List.prod_cons, Nat.mul_comm b, Nat.mod_mul, Nat.add_comm,
      Nat.mul_comm]

/-- **The digits of a number give it back.** -/
theorem ofDigits_digits (h : i < bases.prod) : ofDigits bases (digits bases i) = i := by
  rw [ofDigits_digits_mod, Nat.mod_eq_of_lt h]

theorem ofDigits_lt (h : List.Forall₂ (· < ·) ds bases) : ofDigits bases ds < bases.prod := by
  induction h with
  | nil => exact Nat.zero_lt_one
  | @cons d b ds bs hd _ ih =>
    rw [ofDigits, List.prod_cons]
    calc d * bs.prod + ofDigits bs ds < d * bs.prod + bs.prod := Nat.add_lt_add_left ih _
      _ = (d + 1) * bs.prod := (Nat.succ_mul d bs.prod).symm
      _ ≤ b * bs.prod := Nat.mul_le_mul_right _ hd

/-- **Digits within their bases are the digits of a number.** -/
theorem digits_ofDigits (h : List.Forall₂ (· < ·) ds bases) :
    digits bases (ofDigits bases ds) = ds := by
  induction h with
  | nil => rfl
  | @cons d b ds bs hd hrest ih =>
    have hlt := ofDigits_lt hrest
    rw [ofDigits, digits, digits_add_mul, ih, Nat.add_comm,
      Nat.add_mul_div_right _ _ (Nat.zero_lt_of_lt hlt), Nat.div_eq_of_lt hlt, Nat.zero_add,
      Nat.mod_eq_of_lt hd]

/-- **Every list of digits within the bases occurs at one number.** -/
theorem existsUnique_digits (h : List.Forall₂ (· < ·) ds bases) :
    ∃! i, i < bases.prod ∧ digits bases i = ds := by
  refine ⟨ofDigits bases ds, ⟨ofDigits_lt h, digits_ofDigits h⟩, ?_⟩
  rintro i ⟨hi, rfl⟩
  exact (ofDigits_digits hi).symm

end Radix
