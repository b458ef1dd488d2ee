import Mathlib.Data.Prod.Lex
import Mathlib.Data.Option.Basic

/-!
# Taking turns

Whoever is served last is remembered, and the turn goes to the next in a linear
order, from the last one upwards and around to the first. `turn cursor x` is
the place of `x` in that order.

The same order, taken from somebody who waits, is what makes the rotation fair:
each turn that passes `p` over goes to somebody nearer to `p`
(`turn_lt_of_passed`). So while `p` could be served and is not, nobody is served
twice.
-/

namespace Rotation

variable {α : Type} [LinearOrder α] {p q c : α} {cursor : Option α} {served : List α}

/-- **The turn of `x` after the cursor**: what lies past the cursor comes
first. -/
def turn (cursor : Option α) (x : α) : Bool ×ₗ α :=
  toLex (cursor.any (fun c => decide (x ≤ c)), x)

theorem eq_of_turn_eq (h : turn cursor p = turn cursor q) : p = q :=
  congrArg (fun x => (ofLex x).2) h

/-- **Turns move towards whoever waits.** -/
theorem turn_lt_of_passed (hc : c ≠ p) (h : turn (some c) q < turn (some c) p) :
    turn (some p) c < turn (some p) q := by
  simp only [turn, Option.any_some, Prod.Lex.toLex_lt_toLex, Bool.lt_iff, decide_eq_false_iff_not,
    decide_eq_true_eq, decide_eq_decide] at h ⊢
  grind

/-- **`p` is passed over**: who was served meanwhile, each nearer to `p` than
the one before. -/
structure Passed (p : α) (cursor : Option α) (served : List α) : Prop where
  last : ∀ x ∈ served, ∃ c ∈ cursor, c ≠ p ∧ turn (some p) x ≤ turn (some p) c
  rising : served.Pairwise (fun x y => turn (some p) x < turn (some p) y)

theorem Passed.start (p : α) (cursor : Option α) : Passed p cursor [] :=
  ⟨fun _ hx => absurd hx List.not_mem_nil, .nil⟩

/-- The next turn goes to `q`, although it could have gone to `p`. -/
theorem Passed.serve (h : Passed p cursor served) (hq : q ≠ p)
    (hturn : turn cursor q ≤ turn cursor p) : Passed p (some q) (served ++ [q]) := by
  have hnearer : ∀ x ∈ served, turn (some p) x < turn (some p) q := by
    intro x hx
    obtain ⟨c, hc, hne, hle⟩ := h.last x hx
    obtain rfl := Option.mem_def.mp hc
    have hpassed := lt_of_le_of_ne hturn fun heq => hq (eq_of_turn_eq heq)
    exact lt_of_le_of_lt hle (turn_lt_of_passed hne hpassed)
  refine ⟨fun x hx => ⟨q, rfl, hq, ?_⟩, ?_⟩
  · obtain hx | hx := List.mem_append.mp hx
    · exact (hnearer x hx).le
    · exact (List.mem_singleton.mp hx ▸ le_refl _)
  · refine List.pairwise_append.mpr ⟨h.rising, List.pairwise_singleton _ _, fun x hx y hy => ?_⟩
    exact List.mem_singleton.mp hy ▸ hnearer x hx

/-- **Nobody is served twice.** -/
theorem Passed.nodup (h : Passed p cursor served) : served.Nodup :=
  h.rising.imp fun hlt heq => absurd (congrArg (turn (some p)) heq) hlt.ne

end Rotation
