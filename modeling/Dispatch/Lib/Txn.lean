import Mathlib.Tactic.Common

/-!
# Fallible transactions

A transaction that may fail is a computation in `Except`: it either throws,
and then nothing of it is kept, or returns its result together with the state
it leaves. `require` is the check that throws, `orThrow` the read that throws
when it finds nothing.

A proof about such a computation starts from the fact that it succeeded.
`bind_ok`, `require_ok` and `orThrow_ok` turn that fact into the
checks that passed and the values that were read, one at a time, so that no
proof has to unfold the monad.
-/

namespace Txn

variable {ε α β : Type}

/-- Continue if the condition holds, throw otherwise. -/
def require (c : Prop) [Decidable c] (e : ε) : Except ε Unit :=
  if c then .ok () else .error e

/-- The value read, or the error for a missing one. -/
def orThrow (o : Option α) (e : ε) : Except ε α :=
  match o with
  | some a => .ok a
  | none => .error e

/-- **A sequence succeeds when both its halves do.** -/
@[simp] theorem bind_ok {x : Except ε α} {f : α → Except ε β} {b : β} :
    (x >>= f) = .ok b ↔ ∃ a, x = .ok a ∧ f a = .ok b := by
  cases x with
  | error e => simp [bind, Except.bind]
  | ok a => simp [bind, Except.bind]

/-- A value returned is the value found. -/
@[simp] theorem pure_ok {a b : α} : (pure a : Except ε α) = .ok b ↔ a = b := by
  simp [pure, Except.pure]

/-- A pair returned is the pair found. -/
theorem pure_pair_ok {a : α} {b : β} {p : α × β} :
    (pure (a, b) : Except ε (α × β)) = .ok p ↔ a = p.1 ∧ b = p.2 := by
  simp [Prod.ext_iff]

/-- Nothing is returned after a throw. -/
@[simp] theorem throw_ok {e : ε} {b : α} :
    ((throw e : Except ε α) = .ok b) ↔ False := by
  simp [throw, throwThe, MonadExceptOf.throw]

@[simp] theorem require_ok {c : Prop} [Decidable c] {e : ε} {u : Unit} :
    require c e = .ok u ↔ c := by
  unfold require
  by_cases h : c <;> simp [h]

@[simp] theorem orThrow_ok {o : Option α} {e : ε} {a : α} :
    orThrow o e = .ok a ↔ o = some a := by
  cases o <;> simp [orThrow]

/-- A computation that has succeeded goes on. -/
theorem ok_bind {a : α} {f : α → Except ε β} : ((.ok a : Except ε α) >>= f) = f a := rfl

theorem require_of {c : Prop} [Decidable c] {e : ε} (h : c) : require c e = .ok () :=
  require_ok.mpr h

theorem require_congr {c d : Prop} [Decidable c] [Decidable d] {e : ε} (h : c ↔ d) :
    require c e = require d e :=
  if_congr h rfl rfl

theorem orThrow_some {a : α} {e : ε} : orThrow (some a) e = .ok a := rfl

theorem toOption_eq_some {x : Except ε α} {a : α} :
    x.toOption = some a ↔ x = .ok a := by
  cases x <;> simp [Except.toOption]

/-- Everything a fallible map returns is the image of something. -/
theorem mem_of_mapM_eq_ok {f : α → Except ε β} {l : List α} {l' : List β} (h : l.mapM f = .ok l')
    {b : β} (hb : b ∈ l') : ∃ a ∈ l, f a = .ok b := by
  induction l generalizing l' with
  | nil =>
    rw [List.mapM_nil, pure_ok] at h
    exact absurd (h ▸ hb) List.not_mem_nil
  | cons a l ih =>
    simp only [List.mapM_cons, bind_ok, pure_ok] at h
    obtain ⟨x, hx, rest, hrest, rfl⟩ := h
    obtain rfl | hb := List.mem_cons.mp hb
    · exact ⟨a, List.mem_cons_self, hx⟩
    · obtain ⟨c, hc, hfc⟩ := ih hrest hb
      exact ⟨c, List.mem_cons_of_mem _ hc, hfc⟩

/-- Everything a fallible map is given has its image in what is returned. -/
theorem exists_mem_of_mapM_eq_ok {f : α → Except ε β} {l : List α} {l' : List β}
    (h : l.mapM f = .ok l') {a : α} (ha : a ∈ l) : ∃ b ∈ l', f a = .ok b := by
  induction l generalizing l' with
  | nil => exact absurd ha List.not_mem_nil
  | cons c l ih =>
    simp only [List.mapM_cons, bind_ok, pure_ok] at h
    obtain ⟨x, hx, rest, hrest, rfl⟩ := h
    obtain rfl | ha := List.mem_cons.mp ha
    · exact ⟨x, List.mem_cons_self, hx⟩
    · obtain ⟨b, hb, hfa⟩ := ih hrest ha
      exact ⟨b, List.mem_cons_of_mem _ hb, hfa⟩

theorem mem_of_mapM_eq_some {f : α → Option β} {l : List α} {l' : List β}
    (h : l.mapM f = some l') {b : β} (hb : b ∈ l') : ∃ a ∈ l, f a = some b := by
  induction l generalizing l' with
  | nil =>
    rw [List.mapM_nil] at h
    exact absurd (Option.some.inj h ▸ hb) List.not_mem_nil
  | cons a l ih =>
    simp only [List.mapM_cons, Option.bind_eq_bind, Option.bind_eq_some_iff, Option.pure_def,
      Option.some.injEq] at h
    obtain ⟨x, hx, rest, hrest, rfl⟩ := h
    obtain rfl | hb := List.mem_cons.mp hb
    · exact ⟨a, List.mem_cons_self, hx⟩
    · obtain ⟨c, hc, hfc⟩ := ih hrest hb
      exact ⟨c, List.mem_cons_of_mem _ hc, hfc⟩

/-- **A loop over a list keeps what each of its turns keeps.** The turn is a
fallible step on a state; the invariant is a relation between the state the
loop started from and the state it has reached. -/
theorem foldlM_invariant {σ : Type} {f : σ → α → Except ε σ} {l : List α} {s s' : σ}
    (P : σ → Prop) (hs : P s)
    (hstep : ∀ t a t', a ∈ l → P t → f t a = .ok t' → P t')
    (h : l.foldlM f s = .ok s') : P s' := by
  induction l generalizing s with
  | nil =>
    rw [List.foldlM_nil, pure_ok] at h
    exact h ▸ hs
  | cons a l ih =>
    rw [List.foldlM_cons, bind_ok] at h
    obtain ⟨t, hfirst, hrest⟩ := h
    have ht : P t := hstep s a t List.mem_cons_self hs hfirst
    exact ih ht (fun u b u' hb => hstep u b u' (List.mem_cons_of_mem _ hb)) hrest

/-- **A loop does to every element what its turn does**, if no other turn
undoes it, given what all turns keep. -/
theorem foldlM_forall_of {σ : Type} {f : σ → α → Except ε σ} {l : List α} {s s' : σ} (P : σ → Prop)
    (Q : α → σ → Prop) (hs : P s) (hstep : ∀ t a t', a ∈ l → P t → f t a = .ok t' → P t')
    (hmake : ∀ t a t', a ∈ l → P t → f t a = .ok t' → Q a t')
    (hkeep : ∀ t a t', P t → f t a = .ok t' → ∀ b, Q b t → Q b t') (h : l.foldlM f s = .ok s') :
    ∀ a ∈ l, Q a s' := by
  induction l generalizing s with
  | nil => exact fun a ha => absurd ha List.not_mem_nil
  | cons a l ih =>
    rw [List.foldlM_cons, bind_ok] at h
    obtain ⟨t, hfirst, hrest⟩ := h
    have ht : P t := hstep s a t List.mem_cons_self hs hfirst
    rintro b (_ | ⟨_, hb⟩)
    · exact (foldlM_invariant (fun u => P u ∧ Q a u) ⟨ht, hmake s a t List.mem_cons_self hs hfirst⟩
        (fun u c u' hc hu hturn => ⟨hstep u c u' (List.mem_cons_of_mem _ hc) hu.1 hturn,
          hkeep u c u' hu.1 hturn a hu.2⟩) hrest).2
    · exact ih ht (fun u c u' hc => hstep u c u' (List.mem_cons_of_mem _ hc))
        (fun u c u' hc => hmake u c u' (List.mem_cons_of_mem _ hc)) hrest b hb

/-- The same where the turns need nothing. -/
theorem foldlM_forall {σ : Type} {f : σ → α → Except ε σ} {l : List α} {s s' : σ}
    (Q : α → σ → Prop) (hmake : ∀ t a t', f t a = .ok t' → Q a t')
    (hkeep : ∀ t a t', f t a = .ok t' → ∀ b, Q b t → Q b t') (h : l.foldlM f s = .ok s') :
    ∀ a ∈ l, Q a s' :=
  foldlM_forall_of (fun _ => True) Q trivial (fun _ _ _ _ _ _ => trivial)
    (fun t a t' _ _ hturn => hmake t a t' hturn) (fun t a t' _ hturn => hkeep t a t' hturn) h

/-- **A loop succeeds** when each of its turns does, from every state the turns
before it may have reached. -/
theorem foldlM_total {σ : Type} {f : σ → α → Except ε σ} {l : List α} {s : σ} (P : σ → Prop)
    (hs : P s) (hturn : ∀ t a, a ∈ l → P t → ∃ t', f t a = .ok t' ∧ P t') :
    ∃ s', l.foldlM f s = .ok s' ∧ P s' := by
  induction l generalizing s with
  | nil => exact ⟨s, rfl, hs⟩
  | cons a l ih =>
    obtain ⟨t, hfirst, ht⟩ := hturn s a List.mem_cons_self hs
    obtain ⟨s', hrest, hs'⟩ := ih ht fun u b hb => hturn u b (List.mem_cons_of_mem _ hb)
    exact ⟨s', by rw [List.foldlM_cons, bind_ok]; exact ⟨t, hfirst, hrest⟩, hs'⟩

/-! ## Errors -/

/-- **The errors a computation can end with** all satisfy a predicate. -/
def Throws (P : ε → Prop) (x : Except ε α) : Prop := ∀ e, x = .error e → P e

namespace Throws

variable {P : ε → Prop}

theorem pure (a : α) : Throws P (Pure.pure a : Except ε α) := by
  intro e h
  cases h

theorem require {c : Prop} [Decidable c] {e : ε} (h : P e) : Throws P (require c e) := by
  intro e' heq
  unfold Txn.require at heq
  split_ifs at heq
  exact Except.error.inj heq ▸ h

theorem orThrow {o : Option α} {e : ε} (h : P e) : Throws P (orThrow o e) := by
  intro e' heq
  cases o with
  | none => exact Except.error.inj heq ▸ h
  | some a => cases heq

theorem bind {x : Except ε α} {f : α → Except ε β} (hx : Throws P x) (hf : ∀ a, Throws P (f a)) :
    Throws P (x >>= f) := by
  intro e h
  cases x with
  | error e' => exact hx e (congrArg Except.error (Except.error.inj h))
  | ok a => exact hf a e h

/-- A loop ends with the errors of its turns. -/
theorem foldlM {σ : Type} {f : σ → α → Except ε σ} (hf : ∀ t a, Throws P (f t a)) (l : List α)
    (s : σ) : Throws P (l.foldlM f s) := by
  induction l generalizing s with
  | nil => exact .pure s
  | cons a l ih =>
    rw [List.foldlM_cons]
    exact .bind (hf s a) ih

end Throws

end Txn
