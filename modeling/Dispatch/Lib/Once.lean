import Mathlib.Data.Multiset.UnionInter
import Mathlib.Logic.Function.Basic
import Mathlib.Logic.Relation

/-!
# Keys that are saved once

Transactions claim a key before they save a value under it. A key that is
claimed by a transaction that is still open, or saved already, cannot be
claimed; a transaction that ends without a save gives its key back. What was
saved is read back any number of times.

`Once.Step` is that discipline, with a record of the values that were handed
out: those a transaction saved and those that were read. `Once.Sound` is what
it is for: all values handed out for one key are the same, and at most one of
them was saved rather than read.
-/

namespace Dispatch

/-- A value handed out for a key, and whether it was saved for that. -/
structure Once.Answer (κ α : Type) where
  key : κ
  value : α
  saved : Bool
  deriving DecidableEq

/-- Saved values, the keys that open transactions hold, and what was handed
out. -/
structure Once (κ α : Type) where
  saved : κ → Option α
  held : Multiset κ
  answers : List (Once.Answer κ α)

namespace Once

variable {κ α : Type} {o o' : Once κ α}

/-- **The discipline**: a held key has one holder and no value, every answer is
what is saved, and a key was saved once. -/
structure Sound (o : Once κ α) : Prop where
  exclusive : o.held.Nodup
  free : ∀ k ∈ o.held, o.saved k = none
  answers : ∀ a ∈ o.answers, o.saved a.key = some a.value
  once : ((o.answers.filter Answer.saved).map Answer.key).Nodup

/-- **All answers for a key are one.** -/
theorem Sound.agree (h : o.Sound) {a a' : Answer κ α} (ha : a ∈ o.answers) (ha' : a' ∈ o.answers)
    (hkey : a.key = a'.key) : a.value = a'.value := by
  have hsaved := h.answers a ha
  rw [hkey, h.answers a' ha'] at hsaved
  exact (Option.some.inj hsaved).symm

variable [DecidableEq κ]

/-- A key is claimed, given back, saved or read. -/
inductive Step : Once κ α → Once κ α → Prop where
  | claim (saved : κ → Option α) (held : Multiset κ) (answers : List (Answer κ α)) (k : κ)
      (hfree : saved k = none) (hopen : k ∉ held) :
      Step ⟨saved, held, answers⟩ ⟨saved, k ::ₘ held, answers⟩
  | release (saved : κ → Option α) (held : Multiset κ) (answers : List (Answer κ α)) (k : κ) :
      Step ⟨saved, k ::ₘ held, answers⟩ ⟨saved, held, answers⟩
  | save (saved : κ → Option α) (held : Multiset κ) (answers : List (Answer κ α)) (k : κ) (v : α) :
      Step ⟨saved, k ::ₘ held, answers⟩
        ⟨Function.update saved k (some v), held, ⟨k, v, true⟩ :: answers⟩
  | read (saved : κ → Option α) (held : Multiset κ) (answers : List (Answer κ α)) (k : κ) (v : α)
      (hsaved : saved k = some v) :
      Step ⟨saved, held, answers⟩ ⟨saved, held, ⟨k, v, false⟩ :: answers⟩

/-- Any number of steps. -/
def Steps : Once κ α → Once κ α → Prop := Relation.ReflTransGen Step

theorem Step.sound (hstep : Step o o') (h : o.Sound) : o'.Sound := by
  cases hstep with
  | claim saved held answers k hfree hopen =>
    refine ⟨Multiset.nodup_cons.mpr ⟨hopen, h.exclusive⟩, fun k' hk' => ?_, h.answers, h.once⟩
    obtain rfl | hk' := Multiset.mem_cons.mp hk'
    · exact hfree
    · exact h.free k' hk'
  | release saved held answers k =>
    exact ⟨(Multiset.nodup_cons.mp h.exclusive).2,
      fun k' hk' => h.free k' (Multiset.mem_cons_of_mem hk'), h.answers, h.once⟩
  | save saved held answers k v =>
    obtain ⟨hopen, hheld⟩ := Multiset.nodup_cons.mp h.exclusive
    have hfree : saved k = none := h.free k (Multiset.mem_cons_self k held)
    -- Nothing was handed out for a key without a value.
    have hnew : ∀ a ∈ answers, a.key ≠ k := by
      rintro a ha rfl
      exact absurd (hfree.symm.trans (h.answers a ha)) (by simp)
    refine ⟨hheld, fun k' hk' => ?_, fun a ha => ?_, ?_⟩
    · have hne : k' ≠ k := fun heq => hopen (heq ▸ hk')
      simpa only [Function.update_of_ne hne] using h.free k' (Multiset.mem_cons_of_mem hk')
    · obtain rfl | ha := List.mem_cons.mp ha
      · simp only [Function.update_self]
      · simpa only [Function.update_of_ne (hnew a ha)] using h.answers a ha
    · rw [List.filter_cons_of_pos rfl, List.map_cons, List.nodup_cons]
      refine ⟨fun hmem => ?_, h.once⟩
      obtain ⟨a, ha, hkey⟩ := List.mem_map.mp hmem
      exact hnew a (List.mem_of_mem_filter ha) hkey
  | read saved held answers k v hsaved =>
    refine ⟨h.exclusive, h.free, fun a ha => ?_, h.once⟩
    obtain rfl | ha := List.mem_cons.mp ha
    · exact hsaved
    · exact h.answers a ha

theorem Steps.sound (hsteps : Steps o o') (h : o.Sound) : o'.Sound := by
  induction hsteps with
  | refl => exact h
  | tail _ hstep ih => exact hstep.sound ih

end Once

end Dispatch
