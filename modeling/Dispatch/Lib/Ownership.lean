import Mathlib.Order.Lattice
import Mathlib.Logic.Function.Basic
import Mathlib.Logic.Relation
import Mathlib.Tactic.Common

/-!
# Leased ownership

Tasks are worked on by holders, one at a time. To take a task a holder is given
a *grant*: a numbered right to the task that lasts until its lease ends and may
be renewed while it lasts, and a *claim* on a place's resources that is held as
long as the grant lives. A grant ends when its holder settles it or when
somebody else takes it away; only then can the task be granted again.

Ending a grant does not stop its holder. What makes it safe to grant a task a
second time is that the first grant has **lapsed**: its holder settled it
itself, its holder was replaced by somebody who answers for that, or its lease
is over. The machine below therefore lets an ended grant's task go back to
waiting only if the grant has lapsed.

A place is run by one holder at a time, and changes hands only when none of
its grants is live.

Two invariants come out of the steps. `Owned` says that a task's current grant
is its only live one, belongs to the holder its place is run by, and carries the
task's own number and claim. `Exclusive`
says that every grant but the newest of a task has lapsed, whatever the task
has been through since.

The types are arbitrary: tasks `J`, grants `A`, places `W`, holders `S`,
resources `R`, and a linear order `T` of times.
-/

namespace Ownership

/-- Where a task is in its life. -/
inductive Phase where
  | waiting
  | owned
  | stopping
  | done
  deriving DecidableEq

/-- Some grant works on the task. -/
def Phase.isOwned : Phase → Bool
  | owned | stopping => true
  | _ => false

/-- **A task**: its phase, the grant that works on it, how many it has had, and what
it needs. -/
structure Task (A R : Type) where
  phase : Phase
  /-- The grant that works on the task. -/
  current : Option A
  /-- How many grants the task has had. -/
  counter : ℕ
  need : R

/-- A request to stop: a waiting task is done, an owned one is to be
stopped by its owner. -/
def Task.stop {A R : Type} (t : Task A R) : Task A R :=
  { t with phase := match t.phase with
    | .waiting => .done
    | .owned => .stopping
    | p => p }

/-- **A grant** of a task to the holder of a place, numbered, with a lease. -/
structure Grant (J W S T : Type) where
  task : J
  place : W
  holder : S
  number : ℕ
  generation : ℕ
  live : Bool
  lease : T

/-- **A claim** on a part of a place. -/
structure Claim (W R : Type) where
  place : W
  amount : R
  held : Bool

/-- **The state**: what is known of every task, grant and claim, and the
evidence that makes a grant lapse before its lease ends. -/
@[ext] structure State (J A W S R T : Type) where
  task : J → Option (Task A R)
  grant : A → Option (Grant J W S T)
  claim : A → Option (Claim W R)
  /-- The holder a place is run by. -/
  seat : W → Option S
  /-- The holder of the grant settled it itself. -/
  settled : A → Prop
  /-- The holder at a place was replaced by someone who answers for it. -/
  replaced : W → S → Prop

variable {J A W S R T : Type}

/-- **The grant no longer protects anything**: settled, taken over, or run
out. -/
def Lapsed [LE T] (s : State J A W S R T) (now : T) (a : A) (g : Grant J W S T) : Prop :=
  s.settled a ∨ s.replaced g.place g.holder ∨ g.lease ≤ now

/-! ## Steps -/

section Steps

variable [DecidableEq J] [DecidableEq A]

/-- The end of a grant: the task goes to `next`, the claim is let go. -/
def State.close (s : State J A W S R T) (j : J) (a : A) (t : Task A R) (g : Grant J W S T)
    (c : Claim W R) (next : Phase) : State J A W S R T :=
  { s with
    task := Function.update s.task j (some { t with phase := next, current := none })
    grant := Function.update s.grant a (some { g with live := false })
    claim := Function.update s.claim a (some { c with held := false }) }

/-- The beginning of a grant. -/
def State.start (s : State J A W S R T) (j : J) (a : A) (w : W) (h : S) (t : Task A R) (lease : T) :
    State J A W S R T :=
  { s with
    task := Function.update s.task j (some { t with
      phase := .owned
      current := some a
      counter := t.counter + 1 })
    grant := Function.update s.grant a
      (some ⟨j, w, h, t.counter + 1, t.counter + 1, true, lease⟩)
    claim := Function.update s.claim a (some ⟨w, t.need, true⟩) }

section Pointwise

variable (s : State J A W S R T) (j j' : J) (a a' : A) (w : W) (h : S) (t : Task A R)
  (g : Grant J W S T) (c : Claim W R) (next : Phase) (lease : T)

@[simp] theorem State.start_task : (s.start j a w h t lease).task j' =
    if j' = j then some { t with phase := .owned, current := some a, counter := t.counter + 1 }
    else s.task j' := Function.update_apply ..

@[simp] theorem State.start_grant : (s.start j a w h t lease).grant a' =
    if a' = a then some ⟨j, w, h, t.counter + 1, t.counter + 1, true, lease⟩ else s.grant a' :=
  Function.update_apply ..

@[simp] theorem State.start_claim : (s.start j a w h t lease).claim a' =
    if a' = a then some ⟨w, t.need, true⟩ else s.claim a' := Function.update_apply ..

@[simp] theorem State.close_task : (s.close j a t g c next).task j' =
    if j' = j then some { t with phase := next, current := none } else s.task j' :=
  Function.update_apply ..

@[simp] theorem State.close_grant : (s.close j a t g c next).grant a' =
    if a' = a then some { g with live := false } else s.grant a' := Function.update_apply ..

@[simp] theorem State.close_claim : (s.close j a t g c next).claim a' =
    if a' = a then some { c with held := false } else s.claim a' := Function.update_apply ..

@[simp] theorem State.start_seat : (s.start j a w h t lease).seat = s.seat := rfl

@[simp] theorem State.close_seat : (s.close j a t g c next).seat = s.seat := rfl

end Pointwise

/-- **What can happen at a time.** -/
inductive Step [DecidableEq W] [LinearOrder T] (now : T) :
    State J A W S R T → State J A W S R T → Prop where
  /-- A new task waits. -/
  | submit (s : State J A W S R T) (j : J) (need : R) (hfresh : s.task j = none) :
      Step now s { s with task := Function.update s.task j (some ⟨.waiting, none, 0, need⟩) }
  /-- A waiting task is granted. -/
  | assign (s : State J A W S R T) (j : J) (a : A) (w : W) (h : S) (t : Task A R) (lease : T)
      (htask : s.task j = some t) (hwait : t.phase = .waiting) (hgrant : s.grant a = none)
      (hseat : s.seat w = some h) :
      Step now s (s.start j a w h t lease)
  /-- A live grant is renewed while its lease lasts. -/
  | renew (s : State J A W S R T) (a : A) (g : Grant J W S T) (lease : T)
      (hgrant : s.grant a = some g) (hlive : g.live = true) (hnow : now < g.lease)
      (hlonger : g.lease ≤ lease) :
      Step now s { s with grant := Function.update s.grant a (some { g with lease := lease }) }
  /-- The current grant of a task ends; the task waits again only if the grant
  has lapsed. -/
  | finish (s : State J A W S R T) (j : J) (a : A) (t : Task A R) (g : Grant J W S T)
      (c : Claim W R) (next : Phase) (htask : s.task j = some t) (hcurrent : t.current = some a)
      (hgrant : s.grant a = some g) (hclaim : s.claim a = some c)
      (hnext : next = .done ∨ next = .waiting ∧ Lapsed s now a g) :
      Step now s (s.close j a t g c next)
  /-- A set of tasks is asked to stop. -/
  | cancel (s : State J A W S R T) (p : J → Bool) :
      Step now s { s with task := fun j => (s.task j).map (fun t => if p j then t.stop else t) }
  /-- A place without live grants is run by somebody else. -/
  | reseat (s : State J A W S R T) (w : W) (h : S)
      (hfree : ∀ a g, s.grant a = some g → g.place = w → g.live = false) :
      Step now s { s with seat := Function.update s.seat w (some h) }
  /-- Evidence is added. -/
  | witness (s : State J A W S R T) (settled : A → Prop) (replaced : W → S → Prop)
      (hsettled : ∀ a, s.settled a → settled a)
      (hreplaced : ∀ w h, s.replaced w h → replaced w h) :
      Step now s { s with settled := settled, replaced := replaced }

end Steps

/-! ## The ownership invariant -/

/-- **Ownership.** A task is owned exactly when it has a current grant; that
grant is live, carries the task's number and holds its claim; nothing else is
live or held; and what is live belongs to the holder its place is run by. -/
structure Owned (s : State J A W S R T) : Prop where
  current : ∀ j t, s.task j = some t → (t.phase.isOwned = true ↔ t.current.isSome = true)
  owner : ∀ j t a, s.task j = some t → t.current = some a →
    ∃ g c, s.grant a = some g ∧ g.task = j ∧ g.live = true ∧ g.number = t.counter ∧
      g.generation = t.counter ∧ s.claim a = some c ∧ c.held = true ∧ c.place = g.place ∧
      c.amount = t.need
  live : ∀ a g, s.grant a = some g → g.live = true →
    ∃ t, s.task g.task = some t ∧ t.current = some a
  held : ∀ a c, s.claim a = some c → c.held = true → ∃ g, s.grant a = some g ∧ g.live = true
  seated : ∀ a g, s.grant a = some g → g.live = true → s.seat g.place = some g.holder
  numbered : ∀ a g, s.grant a = some g → ∃ t, s.task g.task = some t ∧ g.number ≤ t.counter
  distinct : ∀ a b g g', s.grant a = some g → s.grant b = some g' → g.task = g'.task →
    g.number = g'.number → a = b

/-- A request to stop keeps who owns the task. -/
theorem Task.stop_isOwned (t : Task A R) : t.stop.phase.isOwned = t.phase.isOwned := by
  obtain ⟨p, _, _, _⟩ := t
  cases p <;> rfl

section Invariants

variable [DecidableEq J] [DecidableEq A]

omit [DecidableEq A] in
theorem Owned.submit {s : State J A W S R T} (hs : Owned s) (j : J) (need : R)
    (hfresh : s.task j = none) :
    Owned { s with task := Function.update s.task j (some ⟨.waiting, none, 0, need⟩) } := by
  obtain ⟨hcurrent, howner, hlive, hheld, hseated, hnumbered, hdistinct⟩ := hs
  refine ⟨?_, ?_, ?_, hheld, hseated, ?_, hdistinct⟩ <;>
    grind [Function.update_apply, Phase.isOwned]

theorem Owned.assign {s : State J A W S R T} (hs : Owned s) (j : J) (a : A) (w : W) (h : S)
    (t : Task A R) (lease : T) (htask : s.task j = some t) (hwait : t.phase = .waiting)
    (hgrant : s.grant a = none) (hseat : s.seat w = some h) : Owned (s.start j a w h t lease) := by
  -- Nobody owns a waiting task, so nothing else of it is live.
  have hnone : t.current = none := by
    have := hs.current j t htask
    rw [hwait] at this
    simpa [Phase.isOwned] using this
  have hother : ∀ {b g}, s.grant b = some g → b ≠ a := by
    rintro b g hb rfl
    exact absurd (hgrant.symm.trans hb) (by simp)
  obtain ⟨hcurrent, howner, hlive, hheld, hseated, hnumbered, hdistinct⟩ := hs
  refine ⟨?_, ?_, ?_, ?_, ?_, ?_, ?_⟩ <;>
    simp only [State.start_task, State.start_grant, State.start_claim, State.start_seat]
  · grind [Phase.isOwned]
  · intro j' t' b ht' hb
    split_ifs at ht' with hj
    · obtain rfl := Option.some.inj ht'
      obtain rfl : a = b := Option.some.inj hb
      exact ⟨_, _, if_pos rfl, hj.symm, rfl, rfl, rfl, if_pos rfl, rfl, rfl, rfl⟩
    · obtain ⟨g, c, hg, hgtask, hglive, hnum, hgen, hc, hrest⟩ := howner j' t' b ht' hb
      exact ⟨g, c, (if_neg (hother hg)).trans hg, hgtask, hglive, hnum, hgen,
        (if_neg (hother hg)).trans hc, hrest⟩
  · grind
  · intro b c hc hheld'
    split_ifs at hc with hb
    · exact ⟨_, if_pos hb, rfl⟩
    · obtain ⟨g, hg, hglive⟩ := hheld b c hc hheld'
      exact ⟨g, (if_neg hb).trans hg, hglive⟩
  · grind
  · grind
  · grind

omit [DecidableEq J] in
theorem Owned.renew {s : State J A W S R T} (hs : Owned s) (a : A) (g : Grant J W S T) (lease : T)
    (hgrant : s.grant a = some g) :
    Owned { s with grant := Function.update s.grant a (some { g with lease := lease }) } := by
  obtain ⟨hcurrent, howner, hlive, hheld, hseated, hnumbered, hdistinct⟩ := hs
  refine ⟨hcurrent, ?_, ?_, ?_, ?_, ?_, ?_⟩ <;> simp only [Function.update_apply]
  · intro j t b ht hb
    obtain ⟨g', c, hg', hrest⟩ := howner j t b ht hb
    by_cases hba : b = a
    · subst hba
      obtain rfl := Option.mem_unique hgrant hg'
      exact ⟨_, c, if_pos rfl, hrest⟩
    · exact ⟨g', c, (if_neg hba).trans hg', hrest⟩
  · grind
  · intro b c hc hheld'
    obtain ⟨g', hg', hglive⟩ := hheld b c hc hheld'
    by_cases hba : b = a
    · subst hba
      obtain rfl := Option.mem_unique hgrant hg'
      exact ⟨_, if_pos rfl, hglive⟩
    · exact ⟨g', (if_neg hba).trans hg', hglive⟩
  · grind
  · grind
  · grind

theorem Owned.finish {s : State J A W S R T} (hs : Owned s) (j : J) (a : A) (t : Task A R)
    (g : Grant J W S T) (c : Claim W R) (next : Phase) (htask : s.task j = some t)
    (hcurrent : t.current = some a) (hgrant : s.grant a = some g)
    (hnext : next.isOwned = false) : Owned (s.close j a t g c next) := by
  obtain ⟨hiff, howner, hlive, hheld, hseated, hnumbered, hdistinct⟩ := hs
  refine ⟨?_, ?_, ?_, ?_, ?_, ?_, ?_⟩ <;>
    simp only [State.close_task, State.close_grant, State.close_claim, State.close_seat]
  · grind
  · intro j' t' b ht' hb
    split_ifs at ht' with hj
    · obtain rfl := Option.some.inj ht'
      exact absurd hb (by simp)
    · obtain ⟨g', c', hg', hgtask, hglive, hnum, hgen, hc', hrest⟩ := howner j' t' b ht' hb
      -- The grant that ends works on `j`, so it is not the owner of another task.
      have hba : b ≠ a := by
        rintro rfl
        obtain ⟨g'', _, hg'', hgtask'', _⟩ := howner j t b htask hcurrent
        obtain rfl := Option.mem_unique hg' hg''
        exact hj (hgtask.symm.trans hgtask'')
      exact ⟨g', c', (if_neg hba).trans hg', hgtask, hglive, hnum, hgen,
        (if_neg hba).trans hc', hrest⟩
  · grind
  · intro b c' hc' hheld'
    split_ifs at hc' with hb
    · obtain rfl := Option.some.inj hc'
      exact absurd hheld' (by simp)
    · obtain ⟨g', hg', hglive⟩ := hheld b c' hc' hheld'
      exact ⟨g', (if_neg hb).trans hg', hglive⟩
  · grind
  · grind
  · grind

omit [DecidableEq J] [DecidableEq A] in
theorem Owned.cancel {s : State J A W S R T} (hs : Owned s) (p : J → Bool) :
    Owned { s with task := fun j => (s.task j).map (fun t => if p j then t.stop else t) } := by
  have hstop := Task.stop_isOwned (A := A) (R := R)
  obtain ⟨hcurrent, howner, hlive, hheld, hseated, hnumbered, hdistinct⟩ := hs
  refine ⟨?_, ?_, ?_, hheld, hseated, ?_, hdistinct⟩ <;> simp only [Option.map_eq_some_iff]
  · rintro j _ ⟨t, ht, rfl⟩
    have := hcurrent j t ht
    split_ifs
    · rw [hstop]
      exact this
    · exact this
  · rintro j _ a ⟨t, ht, rfl⟩ ha
    have hsame : ∀ t : Task A R, (if p j then t.stop else t).current = t.current ∧
        (if p j then t.stop else t).counter = t.counter ∧
        (if p j then t.stop else t).need = t.need := by
      intro t
      split_ifs <;> exact ⟨rfl, rfl, rfl⟩
    obtain ⟨hc, hn, hr⟩ := hsame t
    rw [hc] at ha
    rw [hn, hr]
    exact howner j t a ht ha
  · intro a g hg hglive
    obtain ⟨t, ht, hcur⟩ := hlive a g hg hglive
    refine ⟨_, ⟨t, ht, rfl⟩, ?_⟩
    split_ifs <;> exact hcur
  · intro a g hg
    obtain ⟨t, ht, hle⟩ := hnumbered a g hg
    refine ⟨_, ⟨t, ht, rfl⟩, ?_⟩
    split_ifs <;> exact hle

omit [DecidableEq J] [DecidableEq A] in
theorem Owned.reseat [DecidableEq W] {s : State J A W S R T} (hs : Owned s) (w : W) (h : S)
    (hfree : ∀ a g, s.grant a = some g → g.place = w → g.live = false) :
    Owned { s with seat := Function.update s.seat w (some h) } := by
  refine ⟨hs.current, hs.owner, hs.live, hs.held, ?_, hs.numbered, hs.distinct⟩
  intro a g hg hlive
  have hplace : g.place ≠ w := fun hw => absurd (hfree a g hg hw) (by simp [hlive])
  exact (Function.update_of_ne hplace ..).trans (hs.seated a g hg hlive)

variable [DecidableEq W] [LinearOrder T]

/-- **Every step keeps ownership.** -/
theorem Owned.step {s s' : State J A W S R T} {now : T} (hs : Owned s) (h : Step now s s') :
    Owned s' := by
  cases h with
  | submit j need hfresh => exact hs.submit j need hfresh
  | assign j a w h t lease htask hwait hgrant hseat =>
    exact hs.assign j a w h t lease htask hwait hgrant hseat
  | renew a g lease hgrant => exact hs.renew a g lease hgrant
  | finish j a t g c next htask hcurrent hgrant hclaim hnext =>
    refine hs.finish j a t g c next htask hcurrent hgrant ?_
    obtain rfl | ⟨rfl, -⟩ := hnext <;> rfl
  | cancel p => exact hs.cancel p
  | reseat w h hfree => exact hs.reseat w h hfree
  | witness settled replaced =>
    exact ⟨hs.current, hs.owner, hs.live, hs.held, hs.seated, hs.numbered, hs.distinct⟩

/-! ## What a step can do to a grant -/

/-- **The life of a grant in one step.** Its identity never changes, it never
comes back to life, and its lease grows only while it is live and lasts. -/
structure Grant.Evolves (now : T) (g g' : Grant J W S T) : Prop where
  task : g'.task = g.task
  place : g'.place = g.place
  holder : g'.holder = g.holder
  number : g'.number = g.number
  generation : g'.generation = g.generation
  live : g'.live = true → g.live = true
  lease : g.lease ≤ g'.lease
  renewed : g.lease < g'.lease → g.live = true ∧ now < g.lease

omit [DecidableEq J] [DecidableEq A] [DecidableEq W] in
theorem Grant.Evolves.refl (now : T) (g : Grant J W S T) : g.Evolves now g :=
  ⟨rfl, rfl, rfl, rfl, rfl, id, le_refl _, fun h => absurd h (lt_irrefl _)⟩

omit [DecidableEq J] [DecidableEq A] [DecidableEq W] in
theorem Grant.Evolves.trans {now : T} {g g' g'' : Grant J W S T} (h : g.Evolves now g')
    (h' : g'.Evolves now g'') : g.Evolves now g'' where
  task := h'.task.trans h.task
  place := h'.place.trans h.place
  holder := h'.holder.trans h.holder
  number := h'.number.trans h.number
  generation := h'.generation.trans h.generation
  live hl := h.live (h'.live hl)
  lease := h.lease.trans h'.lease
  renewed hlt := by
    -- The first of the two renewals is the one that counts.
    by_cases hfirst : g.lease < g'.lease
    · exact h.renewed hfirst
    · have heq : g'.lease = g.lease := le_antisymm (not_lt.mp hfirst) h.lease
      obtain ⟨hlive, hnow⟩ := h'.renewed (heq ▸ hlt)
      exact ⟨h.live hlive, heq ▸ hnow⟩

/-- **No step forgets a grant.** -/
theorem Step.evolves {s s' : State J A W S R T} {now : T} (h : Step now s s') {a : A}
    {g : Grant J W S T} (hg : s.grant a = some g) :
    ∃ g', s'.grant a = some g' ∧ g.Evolves now g' := by
  cases h with
  | submit | cancel | reseat | witness => exact ⟨g, hg, .refl now g⟩
  | assign j b w h t lease htask hwait hgrant =>
    have hab : a ≠ b := by
      rintro rfl
      exact absurd (hgrant.symm.trans hg) (by simp)
    exact ⟨g, by rw [State.start_grant, if_neg hab, hg], .refl now g⟩
  | renew b g₀ lease hgrant hlive hnow hlonger =>
    by_cases hab : a = b
    · subst hab
      obtain rfl := Option.mem_unique hgrant hg
      exact ⟨_, Function.update_self .., rfl, rfl, rfl, rfl, rfl, id, hlonger,
        fun _ => ⟨hlive, hnow⟩⟩
    · exact ⟨g, (Function.update_of_ne hab ..).trans hg, .refl now g⟩
  | finish j b t g₀ c next htask hcurrent hgrant =>
    by_cases hab : a = b
    · subst hab
      obtain rfl := Option.mem_unique hgrant hg
      exact ⟨{ g₀ with live := false }, by rw [State.close_grant, if_pos rfl], rfl, rfl, rfl, rfl,
        rfl, fun hf => absurd hf (by simp), le_refl _, fun hlt => absurd hlt (lt_irrefl _)⟩
    · exact ⟨g, by rw [State.close_grant, if_neg hab, hg], .refl now g⟩

/-- Evidence is never withdrawn. -/
theorem Step.settled_mono {s s' : State J A W S R T} {now : T} (h : Step now s s') {a : A}
    (ha : s.settled a) : s'.settled a := by
  cases h with
  | witness settled replaced hsettled hreplaced => exact hsettled a ha
  | submit | assign | renew | finish | cancel | reseat => exact ha

theorem Step.replaced_mono {s s' : State J A W S R T} {now : T} (h : Step now s s') {w : W} {k : S}
    (hk : s.replaced w k) : s'.replaced w k := by
  cases h with
  | witness settled replaced hsettled hreplaced => exact hreplaced w k hk
  | submit | assign | renew | finish | cancel | reseat => exact hk

/-- **A lapsed grant stays lapsed.** -/
theorem Lapsed.step {s s' : State J A W S R T} {now : T} (h : Step now s s') {a : A}
    {g g' : Grant J W S T} (hlapsed : Lapsed s now a g) (hg : g.Evolves now g') :
    Lapsed s' now a g' := by
  obtain hsettled | hreplaced | hlease := hlapsed
  · exact .inl (h.settled_mono hsettled)
  · refine .inr (.inl ?_)
    rw [hg.place, hg.holder]
    exact h.replaced_mono hreplaced
  · -- A lease that is over cannot have been renewed.
    have hsame : ¬ g.lease < g'.lease := fun hlt => not_lt.mpr hlease (hg.renewed hlt).2
    exact .inr (.inr ((not_lt.mp hsame).trans hlease))

omit [DecidableEq J] [DecidableEq A] [DecidableEq W] in
theorem Lapsed.later {s : State J A W S R T} {now later : T} {a : A} {g : Grant J W S T}
    (h : Lapsed s now a g) (hle : now ≤ later) : Lapsed s later a g :=
  h.imp_right (fun h => h.imp_right (fun h => h.trans hle))

/-! ## Exclusion -/

/-- The task may be, or has been, granted to somebody else since. -/
def Superseded (s : State J A W S R T) (g : Grant J W S T) : Prop :=
  ∃ t, s.task g.task = some t ∧ (t.phase = .waiting ∨ g.number < t.counter)

/-- **Exclusion**: a superseded grant has lapsed. -/
def Exclusive (s : State J A W S R T) (now : T) : Prop :=
  ∀ a g, s.grant a = some g → Superseded s g → Lapsed s now a g

omit [DecidableEq J] [DecidableEq A] [DecidableEq W] in
theorem Exclusive.later {s : State J A W S R T} {now later : T} (h : Exclusive s now)
    (hle : now ≤ later) : Exclusive s later :=
  fun a g hg hsup => (h a g hg hsup).later hle

/-- **A grant that a step supersedes has lapsed.** -/
theorem Exclusive.superseded {s s' : State J A W S R T} {now : T} (hs : Owned s)
    (hx : Exclusive s now) (h : Step now s s') {a : A} {g g' : Grant J W S T}
    (hg : s.grant a = some g) (hev : g.Evolves now g') (hsup : Superseded s' g') :
    Lapsed s now a g := by
  obtain ⟨t', ht', hcase⟩ := hsup
  rw [hev.task] at ht'
  rw [hev.number] at hcase
  cases h with
  | submit j need hfresh =>
    obtain ⟨t, ht, -⟩ := hs.numbered a g hg
    have hne : g.task ≠ j := by
      rintro rfl
      exact absurd (hfresh.symm.trans ht) (by simp)
    exact hx a g hg ⟨t', (Function.update_of_ne hne ..).symm.trans ht', hcase⟩
  | assign j b w k t lease htask hwait hgrant =>
    rw [State.start_task] at ht'
    split_ifs at ht' with hj
    · exact hx a g hg ⟨t, hj ▸ htask, .inl hwait⟩
    · exact hx a g hg ⟨t', ht', hcase⟩
  | renew | reseat | witness => exact hx a g hg ⟨t', ht', hcase⟩
  | finish j b t g₀ c next htask hcurrent hgrant hclaim hnext =>
    rw [State.close_task] at ht'
    split_ifs at ht' with hj
    · obtain rfl := Option.some.inj ht'
      obtain ⟨g₁, _, hg₁, htask₁, -, hnumber, -⟩ := hs.owner j t b htask hcurrent
      by_cases hab : a = b
      · -- The grant that ends is the newest, so the task waits again.
        subst hab
        obtain rfl := Option.mem_unique hg hg₁
        obtain rfl := Option.mem_unique hg hgrant
        obtain hwait | hlt := hcase
        · obtain rfl | ⟨-, hlapsed⟩ := hnext
          · exact absurd hwait (by simp)
          · exact hlapsed
        · exact absurd hnumber (Nat.ne_of_lt hlt)
      · obtain ⟨t₀, ht₀, hle⟩ := hs.numbered a g hg
        obtain rfl := Option.some.inj (htask.symm.trans (hj ▸ ht₀))
        have hne : g.number ≠ t.counter := fun heq =>
          hab (hs.distinct a b g g₁ hg hg₁ (hj.trans htask₁.symm) (heq.trans hnumber.symm))
        exact hx a g hg ⟨t, ht₀, .inr (Nat.lt_of_le_of_ne hle hne)⟩
    · exact hx a g hg ⟨t', ht', hcase⟩
  | cancel p =>
    obtain ⟨t, ht, rfl⟩ := Option.map_eq_some_iff.mp ht'
    refine hx a g hg ⟨t, ht, ?_⟩
    split_ifs at hcase
    · obtain ⟨phase, _, _, _⟩ := t
      cases phase <;> simp_all [Task.stop]
    · exact hcase

/-- A grant that a step makes is the newest of its task. -/
theorem Step.new_grant {s s' : State J A W S R T} {now : T} (h : Step now s s') {a : A}
    {g' : Grant J W S T} (hg : s.grant a = none) (hg' : s'.grant a = some g') :
    ¬ Superseded s' g' := by
  cases h with
  | submit | cancel | reseat | witness => exact absurd (hg.symm.trans hg') (by simp)
  | assign j b w k t lease htask hwait hgrant =>
    rw [State.start_grant] at hg'
    split_ifs at hg' with hab
    · obtain rfl := Option.some.inj hg'
      rintro ⟨t', ht', hcase⟩
      rw [State.start_task, if_pos rfl] at ht'
      obtain rfl := Option.some.inj ht'
      simp at hcase
    · exact absurd (hg.symm.trans hg') (by simp)
  | renew b g₀ lease hgrant =>
    simp only [Function.update_apply] at hg'
    split_ifs at hg' with hab
    · exact absurd (hg.symm.trans (hab ▸ hgrant)) (by simp)
    · exact absurd (hg.symm.trans hg') (by simp)
  | finish j b t g₀ c next htask hcurrent hgrant =>
    rw [State.close_grant] at hg'
    split_ifs at hg' with hab
    · exact absurd (hg.symm.trans (hab ▸ hgrant)) (by simp)
    · exact absurd (hg.symm.trans hg') (by simp)

/-- **Every step keeps exclusion.** -/
theorem Exclusive.step {s s' : State J A W S R T} {now : T} (hs : Owned s) (hx : Exclusive s now)
    (h : Step now s s') : Exclusive s' now := by
  intro a g' hg' hsup
  cases hg : s.grant a with
  | none => exact absurd hsup (h.new_grant hg hg')
  | some g =>
    obtain ⟨g'', hg'', hev⟩ := h.evolves hg
    obtain rfl := Option.mem_unique hg' hg''
    exact (hx.superseded hs h hg hev hsup).step h hev

/-! ## Sequences of steps -/

/-- Any number of steps at one time. -/
abbrev Steps (now : T) : State J A W S R T → State J A W S R T → Prop :=
  Relation.ReflTransGen (Step now)

theorem Owned.steps {s s' : State J A W S R T} {now : T} (hs : Owned s) (h : Steps now s s') :
    Owned s' := by
  induction h with
  | refl => exact hs
  | tail _ hstep ih => exact ih.step hstep

theorem Exclusive.steps {s s' : State J A W S R T} {now : T} (hs : Owned s) (hx : Exclusive s now)
    (h : Steps now s s') : Exclusive s' now := by
  induction h with
  | refl => exact hx
  | tail hsteps hstep ih => exact Exclusive.step (hs.steps hsteps) ih hstep

theorem Steps.evolves {s s' : State J A W S R T} {now : T} (h : Steps now s s') {a : A}
    {g : Grant J W S T} (hg : s.grant a = some g) :
    ∃ g', s'.grant a = some g' ∧ g.Evolves now g' := by
  induction h with
  | refl => exact ⟨g, hg, .refl now g⟩
  | tail _ hstep ih =>
    obtain ⟨g', hg', hev⟩ := ih
    obtain ⟨g'', hg'', hev'⟩ := hstep.evolves hg'
    exact ⟨g'', hg'', hev.trans hev'⟩

/-- A lapsed grant stays lapsed, whatever follows. -/
theorem Lapsed.steps {s s' : State J A W S R T} {now : T} (h : Steps now s s') {a : A}
    {g : Grant J W S T} (hg : s.grant a = some g) (hlapsed : Lapsed s now a g) :
    ∃ g', s'.grant a = some g' ∧ Lapsed s' now a g' := by
  induction h with
  | refl => exact ⟨g, hg, hlapsed⟩
  | tail _ hstep ih =>
    obtain ⟨g', hg', hlapsed'⟩ := ih
    obtain ⟨g'', hg'', hev⟩ := hstep.evolves hg'
    exact ⟨g'', hg'', hlapsed'.step hstep hev⟩

end Invariants

end Ownership
