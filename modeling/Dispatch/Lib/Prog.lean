import Mathlib.Logic.Relation
import Mathlib.Data.Nat.Notation

/-!
# Programs that can stop anywhere

A program is a tree of calls: it names a command, is given an answer, and goes
on. What a command does and what it answers is left open, so that one text of
a program can be run against any system.

## The rules

An `Arena` says what commands do, what the rest of the system may do between
any two calls, and which invariant holds throughout. `Arena.wp` is the weakest
precondition of a program in an arena: from the states that meet it the
program keeps `F` after each of its calls and ends in `Q`. In the arena of a
program that runs alone, `wp_ran` says what the program ends in and `wp_cut`
what is left of one that stops anywhere.
-/

namespace Dispatch

open Relation

/-- **A program** over commands `C`, each with its type of answers. -/
inductive Prog (C : Type) (R : C → Type) (α : Type) : Type where
  | pure (a : α)
  | call (c : C) (k : R c → Prog C R α)

namespace Prog

variable {C : Type} {R : C → Type} {α β : Type}

/-- One program after another. -/
def bind : Prog C R α → (α → Prog C R β) → Prog C R β
  | .pure a, f => f a
  | .call c k, f => .call c (fun r => (k r).bind f)

instance : Monad (Prog C R) where
  pure := Prog.pure
  bind := Prog.bind

end Prog

/-! ## Runs -/

/-- **A run to the end.** -/
inductive Prog.Ran {C : Type} {R : C → Type} {S α : Type} (does : (c : C) → S → R c → S → Prop) :
    Prog C R α → S → α → S → Prop where
  | pure (a : α) (s : S) : Ran does (.pure a) s a s
  | call {c : C} {k : R c → Prog C R α} {s s' s'' : S} {r : R c} {a : α} :
      does c s r s' → Ran does (k r) s' a s'' → Ran does (.call c k) s a s''

theorem Prog.Ran.mono {C : Type} {R : C → Type} {S α : Type}
    {does does' : (c : C) → S → R c → S → Prop} (hle : ∀ c s r s', does c s r s' → does' c s r s')
    {p : Prog C R α} {s s' : S} {a : α} (h : p.Ran does s a s') : p.Ran does' s a s' := by
  induction h with
  | pure a s => exact .pure a s
  | call hd _ ih => exact .call (hle _ _ _ _ hd) ih

/-- When every call has an answer, a program ends. -/
theorem Prog.exists_ran {C : Type} {R : C → Type} {S α : Type}
    {does : (c : C) → S → R c → S → Prop} (htotal : ∀ c s, ∃ r s', does c s r s') (p : Prog C R α)
    (s : S) : ∃ a s', p.Ran does s a s' := by
  induction p generalizing s with
  | pure a => exact ⟨a, s, .pure a s⟩
  | call c k ih =>
    obtain ⟨r, s', hdoes⟩ := htotal c s
    obtain ⟨a, s'', hran⟩ := ih r s'
    exact ⟨a, s'', .call hdoes hran⟩

/-- **A run that stops anywhere**, between two calls or at an end. -/
inductive Prog.Cut {C : Type} {R : C → Type} {S α : Type} (does : (c : C) → S → R c → S → Prop) :
    Prog C R α → S → S → Prop where
  | here (p : Prog C R α) (s : S) : Cut does p s s
  | call {c : C} {k : R c → Prog C R α} {s s' s'' : S} {r : R c} :
      does c s r s' → Cut does (k r) s' s'' → Cut does (.call c k) s s''

/-- A program may be cut when it has made all its calls. -/
theorem Prog.Ran.cut {C : Type} {R : C → Type} {S α : Type} {does : (c : C) → S → R c → S → Prop}
    {p : Prog C R α} {s s' : S} {a : α} (h : p.Ran does s a s') : p.Cut does s s' := by
  induction h with
  | pure => exact .here _ _
  | call hd _ ih => exact .call hd ih

/-! ## Arenas -/

/-- **What programs run in.** -/
structure Arena (C : Type) (R : C → Type) (S : Type) where
  /-- What a command may answer, and the state it leaves. -/
  does : (c : C) → S → R c → S → Prop
  /-- What happens between two calls. -/
  env : S → S → Prop
  /-- What holds throughout. -/
  inv : S → Prop
  inv_env : ∀ {s s'}, inv s → env s s' → inv s'

namespace Arena

variable {C : Type} {R : C → Type} {S α β : Type} {A : Arena C R S}

theorem inv_envs {s s' : S} (h : A.inv s) (hs : ReflTransGen A.env s s') : A.inv s' := by
  induction hs with
  | refl => exact h
  | tail _ hstep ih => exact A.inv_env ih hstep

/-! ## Weakest preconditions -/

/-- **The states from which a program keeps the invariant and ends in `Q`**,
whatever the environment does between its calls and after its end. -/
def wp (A : Arena C R S) (F : S → Prop) (Q : α → S → Prop) : Prog C R α → S → Prop
  | .pure a, s => A.inv s ∧ ∀ s', ReflTransGen A.env s s' → Q a s'
  | .call c k, s => A.inv s ∧ ∀ s₁, ReflTransGen A.env s s₁ → ∀ r s₂, A.does c s₁ r s₂ →
      F s₂ ∧ A.wp F Q (k r) s₂

/-- A call leads to the weakest precondition of what follows. -/
theorem wp_does {F : S → Prop} {Q : α → S → Prop} {c : C} {k : R c → Prog C R α} {s s' : S}
    {r : R c} (h : A.wp F Q (.call c k) s) (hd : A.does c s r s') : A.wp F Q (k r) s' :=
  (h.2 s .refl r s' hd).2

theorem wp_bind {F : S → Prop} {M : α → S → Prop} {Q : β → S → Prop} {p : Prog C R α}
    {f : α → Prog C R β} {s : S} (h : A.wp F M p s)
    (hf : ∀ a s, A.inv s → M a s → A.wp F Q (f a) s) : A.wp F Q (p.bind f) s := by
  induction p generalizing s with
  | pure a => exact hf a s h.1 (h.2 s .refl)
  | call c k ih => exact ⟨h.1, fun s₁ h₁ r s₂ hd => ⟨(h.2 s₁ h₁ r s₂ hd).1,
    ih r (h.2 s₁ h₁ r s₂ hd).2⟩⟩

theorem wp_mono {F F' : S → Prop} {Q Q' : α → S → Prop} {p : Prog C R α} {s : S}
    (h : A.wp F Q p s) (hF : ∀ s, F s → F' s) (hQ : ∀ a s, A.inv s → Q a s → Q' a s) :
    A.wp F' Q' p s := by
  induction p generalizing s with
  | pure a => exact ⟨h.1, fun s' hs => hQ a s' (inv_envs h.1 hs) (h.2 s' hs)⟩
  | call c k ih =>
    refine ⟨h.1, fun s₁ h₁ r s₂ hd => ?_⟩
    obtain ⟨hkept, hrest⟩ := h.2 s₁ h₁ r s₂ hd
    exact ⟨hF s₂ hkept, ih r hrest⟩

/-! ## Alone -/

/-- **The arena of a program that runs alone.** -/
def alone (does : (c : C) → S → R c → S → Prop) : Arena C R S where
  does := does
  env _ _ := False
  inv _ := True
  inv_env _ h := h.elim

variable {does : (c : C) → S → R c → S → Prop} {F : S → Prop} {Q : α → S → Prop} {s s' : S}

theorem envs_alone (h : ReflTransGen (alone does).env s s') : s' = s := by
  induction h with
  | refl => rfl
  | tail _ hstep _ => exact hstep.elim

theorem alone_pure {a : α} (h : Q a s) : (alone does).wp F Q (.pure a) s :=
  ⟨trivial, fun _ hs => envs_alone hs ▸ h⟩

theorem alone_call {c : C} {k : R c → Prog C R α}
    (h : ∀ r s', does c s r s' → F s' ∧ (alone does).wp F Q (k r) s') :
    (alone does).wp F Q (.call c k) s :=
  ⟨trivial, fun _ hs r s₂ hd => h r s₂ (envs_alone hs ▸ hd)⟩

/-- **What a program ends in.** -/
theorem wp_ran {p : Prog C R α} (h : (alone does).wp F Q p s) {a : α} (hran : p.Ran does s a s') :
    Q a s' := by
  induction hran with
  | pure a s => exact h.2 s .refl
  | call hd _ ih => exact ih (wp_does h hd)

/-- **What is left of a program that stops anywhere.** -/
theorem wp_cut {p : Prog C R α} (h : (alone does).wp F Q p s) (hs : F s) (hcut : p.Cut does s s') :
    F s' := by
  induction hcut with
  | here => exact hs
  | call hd _ ih => exact ih (wp_does h hd) (h.2 _ .refl _ _ hd).1

end Arena

end Dispatch
