import Mathlib.Algebra.GroupWithZero.Nat
import Mathlib.Algebra.Order.BigOperators.Group.List
import Mathlib.Algebra.Ring.Int.Defs
import Mathlib.Data.List.AList
import Mathlib.Data.List.Dedup
import Mathlib.Data.List.Sort

/-!
# Keyed tables

A relational table with a primary key is a finite partial function that can
also be scanned. Mathlib's `AList` is that object: association lists with
pairwise distinct keys, with `lookup`, `insert` and their laws. What a
relational program needs on top of it are the statements of its query
language: an update of every row that satisfies a condition, the rows a
condition selects, and an insertion that fails on a taken key.

Every one of them is characterised by what it does to `lookup`
(`lookup_update`, `lookup_modify`, `lookup_insertNew`) or by `mem_select`, so
that a proof about a program over tables reasons on lookups and never on the
list underneath.

Four notions serve proofs about tables over time: a table `Extends` another if
it still has all its rows, it `Turns` into another if its rows move and new ones
are added, it is `SameOn` some rows if no such row comes, goes or changes, and
`total` adds up a weight over the rows, so that
an insertion adds one term and a rewriting that makes no row heavier does not
make the table heavier.
-/

/-- **A table**: rows of type `α` under pairwise distinct keys of type `κ`. -/
abbrev Table (κ α : Type) : Type := AList (fun _ : κ => α)

namespace Table

variable {κ α : Type}

/-- Equality of tables is equality of their entries. Unlike Mathlib's instance,
this one evaluates. -/
instance [DecidableEq κ] [DecidableEq α] : DecidableEq (Table κ α) := fun t u =>
  decidable_of_iff (t.entries = u.entries) AList.ext_iff.symm

/-- Rewrite every row, the key being part of what the new row may depend
on. -/
def update (t : Table κ α) (f : κ → α → α) : Table κ α where
  entries := t.entries.map (fun e => ⟨e.1, f e.1 e.2⟩)
  nodupKeys := by
    have hkeys : (t.entries.map (fun e => (⟨e.1, f e.1 e.2⟩ : Sigma (fun _ : κ => α)))).keys
        = t.entries.keys := by
      simp only [List.keys, List.map_map]
      rfl
    rw [List.NodupKeys, hkeys]
    exact t.nodupKeys

/-- The rows a condition selects, with their keys, in table order. -/
def select (t : Table κ α) (p : κ → α → Bool) : List (κ × α) :=
  (t.entries.filter (fun e => p e.1 e.2)).map (fun e => (e.1, e.2))

variable [DecidableEq κ]

/-- Rewrite the row of one key, if there is one. -/
def modify (t : Table κ α) (k : κ) (f : α → α) : Table κ α :=
  t.update (fun k' r => if k' = k then f r else r)

/-- A modification is an update. -/
theorem modify_eq_update (t : Table κ α) (k : κ) (f : α → α) :
    t.modify k f = t.update (fun k' r => if k' = k then f r else r) := rfl

/-- Insert a row under a key that must not be taken. -/
def insertNew (t : Table κ α) (k : κ) (r : α) : Option (Table κ α) :=
  if (t.lookup k).isSome then none else some (AList.insert k r t)

/-- A list of entries rewritten row by row is looked up row by row. -/
theorem dlookup_map_row (f : κ → α → α) (k : κ) (l : List (Sigma (fun _ : κ => α))) :
    List.dlookup k (l.map (fun e => (⟨e.1, f e.1 e.2⟩ : Sigma (fun _ : κ => α))))
      = (List.dlookup k l).map (f k) := by
  induction l with
  | nil => rfl
  | cons e l ih =>
    obtain ⟨k', r⟩ := e
    by_cases h : k = k'
    · subst h
      simp only [List.map_cons, List.dlookup_cons_eq, Option.map_some]
    · simp only [List.map_cons]
      rw [List.dlookup_cons_ne _ _ h, List.dlookup_cons_ne _ _ h, ih]

/-- **An update is pointwise.** -/
@[simp] theorem lookup_update (t : Table κ α) (f : κ → α → α) (k : κ) :
    AList.lookup k (t.update f) = (AList.lookup k t).map (f k) :=
  dlookup_map_row f k t.entries

/-- A modification touches the row of its own key and no other. -/
@[simp] theorem lookup_modify (t : Table κ α) (k k' : κ) (f : α → α) :
    AList.lookup k' (t.modify k f)
      = if k' = k then (AList.lookup k' t).map f else AList.lookup k' t := by
  rw [modify, lookup_update]
  by_cases h : k' = k
  · simp only [h, if_true]
  · simp only [h, if_false]
    exact Option.map_id'

omit [DecidableEq κ] in
/-- Two rewritings in a row are one. -/
theorem update_update (t : Table κ α) (f g : κ → α → α) :
    (t.update f).update g = t.update (fun k r => g k (f k r)) := by
  refine AList.ext ?_
  simp only [update, List.map_map]
  rfl

/-- A rewriting is determined by the rows that are there. -/
theorem update_congr {t : Table κ α} {f g : κ → α → α}
    (h : ∀ k r, AList.lookup k t = some r → f k r = g k r) : t.update f = t.update g := by
  refine AList.ext (List.map_congr_left fun e he => ?_)
  rw [h e.1 e.2 (AList.mem_lookup_iff.mpr he)]

/-- A rewriting that changes no row changes nothing. -/
theorem update_eq_self {t : Table κ α} {f : κ → α → α}
    (h : ∀ k r, AList.lookup k t = some r → f k r = r) : t.update f = t := by
  refine AList.ext ((List.map_congr_left fun e he => ?_).trans (List.map_id _))
  rw [h e.1 e.2 (AList.mem_lookup_iff.mpr he)]
  rfl

/-- A rewriting of a table with a new row. -/
theorem update_insert {t : Table κ α} {k : κ} (r : α) (f : κ → α → α)
    (hfree : AList.lookup k t = none) :
    update (AList.insert k r t) f = AList.insert k (f k r) (t.update f) := by
  have hnot : k ∉ t := AList.lookup_eq_none.mp hfree
  have hnot' : k ∉ t.update f := by
    rw [← AList.lookup_eq_none, lookup_update, hfree]
    rfl
  refine AList.ext ?_
  rw [AList.entries_insert_of_notMem hnot']
  change (AList.insert k r t).entries.map (fun e => (⟨e.1, f e.1 e.2⟩ : Sigma (fun _ : κ => α))) = _
  rw [AList.entries_insert_of_notMem hnot]
  rfl

/-- Lookup after an insertion, both cases at once. -/
@[simp] theorem lookup_insert_ite (t : Table κ α) (k k' : κ) (r : α) :
    AList.lookup k' (AList.insert k r t) = if k' = k then some r else AList.lookup k' t := by
  by_cases h : k' = k
  · subst h
    rw [AList.lookup_insert, if_pos rfl]
  · rw [AList.lookup_insert_ne h, if_neg h]

theorem insertNew_of_free {t : Table κ α} {k : κ} (r : α) (h : AList.lookup k t = none) :
    t.insertNew k r = some (AList.insert k r t) := by
  rw [insertNew, h]
  rfl

/-- **An insertion that succeeds found its key free.** -/
theorem insertNew_eq_some {t t' : Table κ α} {k : κ} {r : α}
    (h : t.insertNew k r = some t') :
    AList.lookup k t = none ∧ t' = AList.insert k r t := by
  unfold insertNew at h
  split at h
  · exact absurd h (by simp)
  · rename_i hfree
    exact ⟨by simpa using hfree, (Option.some.inj h).symm⟩

/-- **What a selection returns** are the rows of the table that satisfy the
condition. -/
theorem mem_select (t : Table κ α) (p : κ → α → Bool) (k : κ) (r : α) :
    (k, r) ∈ t.select p ↔ AList.lookup k t = some r ∧ p k r = true := by
  unfold select
  rw [List.mem_map]
  constructor
  · rintro ⟨⟨k', r'⟩, he, heq⟩
    obtain ⟨rfl, rfl⟩ := Prod.mk.inj heq
    rw [List.mem_filter] at he
    exact ⟨AList.mem_lookup_iff.mpr he.1, he.2⟩
  · rintro ⟨hl, hp⟩
    exact ⟨⟨k, r⟩, List.mem_filter.mpr ⟨AList.mem_lookup_iff.mp hl, hp⟩, rfl⟩

/-- A selection is determined by the rows that are there. -/
theorem select_congr {t : Table κ α} {p q : κ → α → Bool}
    (h : ∀ k r, AList.lookup k t = some r → p k r = q k r) : t.select p = t.select q := by
  unfold select
  rw [List.filter_congr fun e he => h e.1 e.2 (AList.mem_lookup_iff.mpr he)]

/-- A new row is selected first. -/
theorem select_insert {t : Table κ α} {k : κ} (r : α) (p : κ → α → Bool)
    (hfree : AList.lookup k t = none) :
    select (AList.insert k r t) p = if p k r then (k, r) :: t.select p else t.select p := by
  have hnot : k ∉ t := AList.lookup_eq_none.mp hfree
  unfold select
  rw [AList.entries_insert_of_notMem hnot, List.filter_cons]
  split_ifs <;> rfl

omit [DecidableEq κ] in
/-- The keys a selection returns are pairwise distinct. -/
theorem nodup_select_keys (t : Table κ α) (p : κ → α → Bool) :
    ((t.select p).map Prod.fst).Nodup := by
  have hsub : ((t.select p).map Prod.fst).Sublist t.entries.keys := by
    unfold select
    rw [List.map_map]
    exact List.Sublist.map Sigma.fst List.filter_sublist
  exact hsub.nodup t.nodupKeys

/-! ## Restriction -/

/-- The rows that satisfy a condition, and no others. -/
def restrict (t : Table κ α) (p : κ → α → Bool) : Table κ α where
  entries := t.entries.filter (fun e => p e.1 e.2)
  nodupKeys := List.NodupKeys.sublist List.filter_sublist t.nodupKeys

theorem lookup_restrict {t : Table κ α} {p : κ → α → Bool} {k : κ} {r : α} :
    AList.lookup k (t.restrict p) = some r ↔ AList.lookup k t = some r ∧ p k r = true := by
  calc AList.lookup k (t.restrict p) = some r
      ↔ Sigma.mk k r ∈ t.entries.filter (fun e => p e.1 e.2) := AList.mem_lookup_iff
    _ ↔ Sigma.mk k r ∈ t.entries ∧ p k r = true := List.mem_filter
    _ ↔ AList.lookup k t = some r ∧ p k r = true := and_congr_left' AList.mem_lookup_iff.symm

/-! ## Groups -/

/-- `GROUP BY`: one row for each key that occurs, with what its rows come to. -/
def groupBy {β γ : Type} (rows : List (κ × β)) (aggregate : List β → γ) :
    List (κ × γ) :=
  (rows.map Prod.fst).dedup.map (fun k =>
    (k, aggregate ((rows.filter (fun x => decide (x.1 = k))).map Prod.snd)))

/-- A key that does not occur has no group. -/
theorem lookup_groupBy {β γ : Type} (rows : List (κ × β)) (aggregate : List β → γ)
    (k : κ) : (groupBy rows aggregate).lookup k = if k ∈ rows.map Prod.fst then
      some (aggregate ((rows.filter (fun x => decide (x.1 = k))).map Prod.snd)) else none := by
  have hkeys : ∀ ks : List κ, (ks.map (fun k =>
      (k, aggregate ((rows.filter (fun x => decide (x.1 = k))).map Prod.snd)))).lookup k =
      if k ∈ ks then some (aggregate ((rows.filter (fun x => decide (x.1 = k))).map Prod.snd))
      else none := by
    intro ks
    induction ks with
    | nil => rfl
    | cons k' ks ih =>
      rw [List.map_cons, List.lookup_cons, ih]
      by_cases heq : k = k'
      · subst heq
        simp
      · rw [beq_eq_false_iff_ne.mpr heq]
        simp [heq]
  rw [groupBy, hkeys]
  simp only [List.mem_dedup]

/-- **An outer join with a group**: what is missing counts as the value of no
rows. -/
theorem lookup_groupBy_getD {β γ : Type} (rows : List (κ × β))
    (aggregate : List β → γ) (k : κ) : ((groupBy rows aggregate).lookup k).getD (aggregate []) =
      aggregate ((rows.filter (fun x => decide (x.1 = k))).map Prod.snd) := by
  rw [lookup_groupBy]
  by_cases hk : k ∈ rows.map Prod.fst
  · rw [if_pos hk]
    rfl
  · rw [if_neg hk]
    have hnone : rows.filter (fun x => decide (x.1 = k)) = [] := by
      rw [List.filter_eq_nil_iff]
      intro x hx heq
      exact hk (List.mem_map.mpr ⟨x, hx, of_decide_eq_true heq⟩)
    rw [hnone]
    rfl

/-- Counting for each key of a list what falls on it is counting what falls on
any. -/
theorem sum_count_keys {β : Type} {keys : List κ} (hkeys : keys.Nodup)
    (key : β → κ) (p : β → Bool) (l : List β) :
    (keys.map (fun k => (l.filter (fun a => p a && decide (key a = k))).length)).sum =
      (l.filter (fun a => p a && decide (key a ∈ keys))).length := by
  induction l with
  | nil => simp
  | cons a l ih =>
    have hone : (keys.map (fun k => if key a = k then 1 else 0)).sum =
        if key a ∈ keys then 1 else 0 := by
      clear ih
      induction keys with
      | nil => rfl
      | cons k keys ih =>
        rw [List.nodup_cons] at hkeys
        rw [List.map_cons, List.sum_cons, ih hkeys.2]
        by_cases heq : key a = k
        · simp [heq, hkeys.1]
        · simp [heq]
    cases hp : p a with
    | false => simpa [List.filter_cons, hp] using ih
    | true =>
      have hstep : ∀ k, ((a :: l).filter (fun a => p a && decide (key a = k))).length =
          (if key a = k then 1 else 0)
          + (l.filter (fun a => p a && decide (key a = k))).length := by
        intro k
        by_cases heq : key a = k <;> simp [hp, heq, Nat.add_comm]
      simp only [hstep, List.sum_map_add, hone, ih]
      by_cases hmem : key a ∈ keys <;> simp [hp, hmem, Nat.add_comm]

/-! ## Ordered selections -/

/-- **Sorting does not show the order before**, if the order tells the members
apart. -/
theorem insertionSort_congr {α : Type} {r : α → α → Prop} [DecidableRel r] [Std.Total r]
    [IsTrans α r]
    {l l' : List α} (h : l.Perm l') (hanti : ∀ a ∈ l, ∀ b ∈ l, r a b → r b a → a = b) :
    l.insertionSort r = l'.insertionSort r := by
  refine List.Perm.eq_of_pairwise (fun a b ha hb hab hba => ?_) (List.pairwise_insertionSort r l)
    (List.pairwise_insertionSort r l')
    ((List.perm_insertionSort r l).trans (h.trans (List.perm_insertionSort r l').symm))
  rw [List.mem_insertionSort] at ha hb
  exact hanti a ha b (h.mem_iff.mpr hb) hab hba

section Ordered

variable {β γ : Type} [LinearOrder β] [LinearOrder γ]

/-- `ORDER BY f, g`. -/
def OrderBy {α : Type} (f : α → β) (g : α → γ) (x y : α) : Prop := f x < f y ∨ f x = f y ∧ g x ≤ g y

instance {α : Type} (f : α → β) (g : α → γ) : DecidableRel (OrderBy f g) :=
  fun x y => inferInstanceAs (Decidable (f x < f y ∨ f x = f y ∧ g x ≤ g y))

instance {α : Type} (f : α → β) (g : α → γ) : Std.Total (OrderBy f g) := ⟨fun x y => by
  obtain hlt | heq | hgt := lt_trichotomy (f x) (f y)
  · exact .inl (.inl hlt)
  · exact (le_total (g x) (g y)).imp (fun h => .inr ⟨heq, h⟩) (fun h => .inr ⟨heq.symm, h⟩)
  · exact .inr (.inl hgt)⟩

instance {α : Type} (f : α → β) (g : α → γ) : IsTrans α (OrderBy f g) := ⟨fun x y z hxy hyz => by
  obtain hlt | ⟨heq, hle⟩ := hxy
  · obtain hlt' | ⟨heq', -⟩ := hyz
    · exact .inl (hlt.trans hlt')
    · exact .inl (heq' ▸ hlt)
  · obtain hlt' | ⟨heq', hle'⟩ := hyz
    · exact .inl (heq ▸ hlt')
    · exact .inr ⟨heq.trans heq', hle.trans hle'⟩⟩

/-- Rows that come before each other are level. -/
theorem OrderBy.level {α : Type} {f : α → β} {g : α → γ} {x y : α} (h : OrderBy f g x y)
    (h' : OrderBy f g y x) : f x = f y ∧ g x = g y := by
  obtain hlt | ⟨heq, hle⟩ := h
  · obtain hlt' | ⟨heq', -⟩ := h'
    · exact absurd hlt' hlt.not_gt
    · exact absurd heq' hlt.ne'
  · obtain hlt' | ⟨-, hle'⟩ := h'
    · exact absurd heq hlt'.ne'
    · exact ⟨heq, le_antisymm hle hle'⟩

/-- The rows a condition selects, in the order of two of their columns. -/
def ordered (t : Table κ α) (p : κ → α → Bool) (f : κ × α → β) (g : κ × α → γ) : List (κ × α) :=
  (t.select p).insertionSort (OrderBy f g)

theorem mem_ordered {t : Table κ α} {p : κ → α → Bool} {f : κ × α → β} {g : κ × α → γ} {k : κ}
    {r : α} : (k, r) ∈ t.ordered p f g ↔ AList.lookup k t = some r ∧ p k r = true := by
  rw [ordered, List.mem_insertionSort, mem_select]

/-- **An ordered selection is determined by its rows**, if the columns tell them
apart. -/
theorem ordered_congr {t u : Table κ α} {p q : κ → α → Bool} {f : κ × α → β} {g : κ × α → γ}
    (h : ∀ k r, AList.lookup k t = some r ∧ p k r = true ↔ AList.lookup k u = some r ∧ q k r = true)
    (hkey : ∀ k r k' r', p k r = true → p k' r' = true → f (k, r) = f (k', r') →
      g (k, r) = g (k', r') → k = k') : t.ordered p f g = u.ordered q f g := by
  have hperm : (t.select p).Perm (u.select q) :=
    (List.perm_ext_iff_of_nodup (nodup_select_keys t p).of_map (nodup_select_keys u q).of_map).mpr
      fun x => by rw [mem_select, mem_select, h]
  refine insertionSort_congr hperm ?_
  rintro ⟨k, r⟩ hx ⟨k', r'⟩ hy hxy hyx
  rw [mem_select] at hx hy
  obtain ⟨hf, hg⟩ := hxy.level hyx
  obtain rfl := hkey _ _ _ _ hx.2 hy.2 hf hg
  rw [Option.some.inj (hx.1.symm.trans hy.1)]

omit [DecidableEq κ] in
theorem pairwise_ordered (t : Table κ α) (p : κ → α → Bool) (f : κ × α → β) (g : κ × α → γ) :
    (t.ordered p f g).Pairwise (fun x y => OrderBy f g x y ∧ x.1 ≠ y.1) := by
  refine (List.pairwise_insertionSort _ _).and ?_
  have hkeys : ((t.ordered p f g).map Prod.fst).Nodup :=
    ((List.perm_insertionSort (OrderBy f g) (t.select p)).map Prod.fst).nodup_iff.mpr
      (nodup_select_keys t p)
  exact List.pairwise_map.mp hkeys

/-- A further condition leaves the order as it is. -/
theorem filter_ordered (t : Table κ α) (p : κ → α → Bool) (q : κ × α → Bool) (f : κ × α → β)
    (g : κ × α → γ) (hkey : ∀ k r k' r', p k r = true → p k' r' = true →
      f (k, r) = f (k', r') → g (k, r) = g (k', r') → k = k') :
    (t.ordered p f g).filter q = t.ordered (fun k r => p k r && q (k, r)) f g := by
  have hnodup : (t.ordered p f g).Nodup :=
    (pairwise_ordered t p f g).imp fun h heq => h.2 (congrArg Prod.fst heq)
  have hnodup' : (t.ordered (fun k r => p k r && q (k, r)) f g).Nodup :=
    (pairwise_ordered t _ f g).imp fun h heq => h.2 (congrArg Prod.fst heq)
  have hperm : ((t.ordered p f g).filter q).Perm
      (t.ordered (fun k r => p k r && q (k, r)) f g) := by
    refine (List.perm_ext_iff_of_nodup (hnodup.filter q) hnodup').mpr fun x => ?_
    rw [List.mem_filter, mem_ordered, mem_ordered, Bool.and_eq_true, and_assoc]
  refine hperm.eq_of_pairwise ?_ ((List.pairwise_insertionSort _ _).filter q)
    (List.pairwise_insertionSort _ _)
  rintro ⟨k, r⟩ ⟨k', r'⟩ hx hy hxy hyx
  rw [List.mem_filter, mem_ordered] at hx
  rw [mem_ordered, Bool.and_eq_true] at hy
  obtain ⟨hf, hg⟩ := hxy.level hyx
  obtain rfl := hkey _ _ _ _ hx.1.2 hy.2.1 hf hg
  rw [Option.some.inj (hx.1.1.symm.trans hy.1)]

end Ordered

/-! ## Renaming -/

section Rename

variable {κ' β : Type} [DecidableEq κ']

omit [DecidableEq κ] [DecidableEq κ'] in
theorem keys_map_rename (σ : κ ≃ κ') (f : α → β) (l : List (Sigma (fun _ : κ => α))) :
    (l.map (fun e => (⟨σ e.1, f e.2⟩ : Sigma (fun _ : κ' => β)))).keys = l.keys.map σ := by
  simp only [List.keys, List.map_map]
  rfl

/-- Give every key another name, and rewrite the rows to match. -/
def rename (σ : κ ≃ κ') (f : α → β) (t : Table κ α) : Table κ' β where
  entries := t.entries.map (fun e => ⟨σ e.1, f e.2⟩)
  nodupKeys := by
    rw [List.NodupKeys, keys_map_rename]
    exact t.nodupKeys.map σ.injective

/-- **A renamed table is looked up under the old name.** -/
@[simp] theorem lookup_rename (σ : κ ≃ κ') (f : α → β) (t : Table κ α) (k : κ') :
    AList.lookup k (t.rename σ f) = (AList.lookup (σ.symm k) t).map f := by
  show List.dlookup k (t.entries.map (fun e => (⟨σ e.1, f e.2⟩ : Sigma (fun _ : κ' => β))))
    = (List.dlookup (σ.symm k) t.entries).map f
  induction t.entries with
  | nil => rfl
  | cons e l ih =>
    obtain ⟨k', r⟩ := e
    rw [List.map_cons]
    by_cases h : k = σ k'
    · subst h
      rw [σ.symm_apply_apply, List.dlookup_cons_eq, List.dlookup_cons_eq, Option.map_some]
    · rw [List.dlookup_cons_ne _ _ h,
        List.dlookup_cons_ne _ _ (fun heq => h (σ.symm_apply_eq.mp heq)), ih]

omit [DecidableEq κ] [DecidableEq κ'] in
theorem select_rename (σ : κ ≃ κ') (f : α → β) (t : Table κ α) (p : κ' → β → Bool) :
    (t.rename σ f).select p
      = (t.select (fun k r => p (σ k) (f r))).map (fun e => (σ e.1, f e.2)) := by
  unfold select rename
  rw [List.filter_map, List.map_map, List.map_map]
  rfl

end Rename

/-! ## Tables over time -/

/-- Every row of `t` is a row of `u`. -/
def Extends (t u : Table κ α) : Prop :=
  ∀ k r, AList.lookup k t = some r → AList.lookup k u = some r

theorem Extends.refl (t : Table κ α) : t.Extends t := fun _ _ h => h

theorem Extends.trans {t u v : Table κ α} (h : t.Extends u) (h' : u.Extends v) : t.Extends v :=
  fun k r hr => h' k r (h k r hr)

/-- A row under a free key is added to what is there. -/
theorem Extends.insert {t : Table κ α} {k : κ} (r : α) (hfree : AList.lookup k t = none) :
    t.Extends (AList.insert k r t) := by
  intro k' r' hr'
  have hne : k' ≠ k := by
    rintro rfl
    exact absurd (hfree.symm.trans hr') (by simp)
  rw [lookup_insert_ite, if_neg hne, hr']

/-- **A table after another**: every row of `t` is still there, moved by `R`,
and every other row of `u` is new and as `N` says. -/
structure Turns (R : α → α → Prop) (N : κ → α → Prop) (t u : Table κ α) : Prop where
  kept : ∀ k r, AList.lookup k t = some r → ∃ r', AList.lookup k u = some r' ∧ R r r'
  found : ∀ k r', AList.lookup k u = some r' →
    (∃ r, AList.lookup k t = some r ∧ R r r') ∨ AList.lookup k t = none ∧ N k r'

section Turns

variable {R : α → α → Prop} {N : κ → α → Prop}

/-- A rewriting moves every row. -/
theorem Turns.update {t : Table κ α} {f : κ → α → α}
    (h : ∀ k r, AList.lookup k t = some r → R r (f k r)) : t.Turns R N (t.update f) where
  kept k r hr := ⟨f k r, by rw [lookup_update, hr]; rfl, h k r hr⟩
  found k r' hr' := by
    rw [lookup_update, Option.map_eq_some_iff] at hr'
    obtain ⟨r, hr, rfl⟩ := hr'
    exact .inl ⟨r, hr, h k r hr⟩

theorem Turns.same (hR : ∀ r, R r r) (t : Table κ α) : t.Turns R N t where
  kept _ r hr := ⟨r, hr, hR r⟩
  found _ r' hr' := .inl ⟨r', hr', hR r'⟩

theorem Turns.imp {R' : α → α → Prop} {t u : Table κ α} (h : t.Turns R N u)
    (hR : ∀ r r', R r r' → R' r r') : t.Turns R' N u where
  kept k r hr := by
    obtain ⟨r', hr', hmove⟩ := h.kept k r hr
    exact ⟨r', hr', hR r r' hmove⟩
  found k r' hr' := (h.found k r' hr').imp (fun ⟨r, hr, hmove⟩ => ⟨r, hr, hR r r' hmove⟩) id

/-- A modification moves one row. -/
theorem Turns.modify (hR : ∀ r, R r r) {t : Table κ α} {k : κ} {f : α → α}
    (h : ∀ r, AList.lookup k t = some r → R r (f r)) : t.Turns R N (t.modify k f) := by
  refine .update fun k' r hr => ?_
  split_ifs with hk
  · exact h r (hk ▸ hr)
  · exact hR r

/-- A new row. -/
theorem Turns.insert (hR : ∀ r, R r r) {t : Table κ α} {k : κ} {r : α}
    (hfree : AList.lookup k t = none) (h : N k r) : t.Turns R N (AList.insert k r t) where
  kept k' r' hr' := ⟨r', Extends.insert r hfree k' r' hr', hR r'⟩
  found k' r' hr' := by
    rw [lookup_insert_ite] at hr'
    split_ifs at hr' with hk
    · obtain rfl := Option.some.inj hr'
      exact .inr ⟨hk ▸ hfree, hk ▸ h⟩
    · exact .inl ⟨r', hr', hR r'⟩

/-- What every new row has and no move takes away, every row has. -/
theorem Turns.forall {P : α → Prop} {t u : Table κ α} (h : t.Turns R N u)
    (hR : ∀ k r r', AList.lookup k t = some r → R r r' → P r → P r') (hN : ∀ k r, N k r → P r)
    (ht : ∀ k r, AList.lookup k t = some r → P r) :
    ∀ k r, AList.lookup k u = some r → P r := by
  intro k r' hr'
  obtain ⟨r, hr, hmove⟩ | ⟨-, hnew⟩ := h.found k r' hr'
  · exact hR k r r' hr hmove (ht k r hr)
  · exact hN k r' hnew

end Turns

section SameOn

variable {P : κ → α → Prop}

/-- **The rows `P` speaks of are the same in both tables**: none of them is
changed, added or removed. -/
def SameOn (P : κ → α → Prop) (t u : Table κ α) : Prop :=
  ∀ k r, P k r → (AList.lookup k u = some r ↔ AList.lookup k t = some r)

theorem SameOn.refl (t : Table κ α) : t.SameOn P t := fun _ _ _ => Iff.rfl

theorem SameOn.trans {t u v : Table κ α} (h : t.SameOn P u) (h' : u.SameOn P v) : t.SameOn P v :=
  fun k r hr => (h' k r hr).trans (h k r hr)

theorem SameOn.restrict {t : Table κ α} {p : κ → α → Bool} (h : ∀ k r, P k r → p k r = true) :
    t.SameOn P (t.restrict p) := by
  intro k r hr
  rw [lookup_restrict]
  exact ⟨And.left, fun hlookup => ⟨hlookup, h k r hr⟩⟩

theorem SameOn.insert {t : Table κ α} {k : κ} {r : α} (hfree : AList.lookup k t = none)
    (h : ¬ P k r) : t.SameOn P (AList.insert k r t) := by
  intro k' r' hr'
  rw [lookup_insert_ite]
  split_ifs with hk
  · subst hk
    refine ⟨fun hnew => ?_, fun hold => ?_⟩
    · obtain rfl := Option.some.inj hnew
      exact absurd hr' h
    · exact absurd (hfree.symm.trans hold) (by simp)
  · exact Iff.rfl

/-- A rewriting leaves a row alone, or `P` speaks of it neither before nor
after. -/
theorem SameOn.update {t : Table κ α} {f : κ → α → α}
    (h : ∀ k r, AList.lookup k t = some r → f k r = r ∨ ¬ P k r ∧ ¬ P k (f k r)) :
    t.SameOn P (t.update f) := by
  intro k r' hr'
  rw [lookup_update, Option.map_eq_some_iff]
  refine ⟨?_, fun hr => ⟨r', hr, ?_⟩⟩
  · rintro ⟨r, hr, rfl⟩
    obtain hsame | ⟨-, hnot⟩ := h k r hr
    · rw [hsame]
      exact hr
    · exact absurd hr' hnot
  · exact (h k r' hr).resolve_right fun hnot => hnot.1 hr'

theorem SameOn.modify {t : Table κ α} {k : κ} {f : α → α}
    (h : ∀ r, AList.lookup k t = some r → ¬ P k r ∧ ¬ P k (f r)) :
    t.SameOn P (t.modify k f) := by
  refine .update fun k' r hr => ?_
  split_ifs with hk
  · subst hk
    exact .inr (h r hr)
  · exact .inl rfl

/-- A key all of whose rows `P` speaks of. -/
theorem SameOn.lookup_eq {t u : Table κ α} (h : t.SameOn P u) {k : κ} (hk : ∀ r, P k r) :
    AList.lookup k u = AList.lookup k t :=
  Option.ext fun r => h k r (hk r)

theorem SameOn.ordered_eq {β γ : Type} [LinearOrder β] [LinearOrder γ] {t u : Table κ α}
    {p : κ → α → Bool} {f : κ × α → β} {g : κ × α → γ} (h : t.SameOn P u)
    (hp : ∀ k r, p k r = true → P k r)
    (hkey : ∀ k r k' r', p k r = true → p k' r' = true → f (k, r) = f (k', r') →
      g (k, r) = g (k', r') → k = k') : u.ordered p f g = t.ordered p f g :=
  ordered_congr (fun k r => and_congr_left fun hr => h k r (hp k r hr)) hkey

end SameOn

section Total

variable {M : Type} [AddCommMonoid M]

/-- **The sum of a weight over the rows.** -/
def total (t : Table κ α) (f : κ → α → M) : M := (t.entries.map (fun e => f e.1 e.2)).sum

/-- A new row adds its own weight. -/
theorem total_insert {t : Table κ α} {k : κ} (r : α) (f : κ → α → M)
    (hfree : AList.lookup k t = none) :
    total (AList.insert k r t) f = f k r + total t f := by
  have hnot : k ∉ t := AList.lookup_eq_none.mp hfree
  rw [total, AList.entries_insert_of_notMem hnot, List.map_cons, List.sum_cons]
  rfl

/-- A table without a row that weighs has no weight. -/
theorem total_eq_zero {t : Table κ α} {f : κ → α → M}
    (h : ∀ k r, AList.lookup k t = some r → f k r = 0) : total t f = 0 := by
  unfold total
  refine List.sum_eq_zero fun x hx => ?_
  obtain ⟨e, he, rfl⟩ := List.mem_map.mp hx
  exact h e.1 e.2 (AList.mem_lookup_iff.mpr he)

omit [DecidableEq κ] in
/-- The weight of the rows a condition selects. -/
theorem sum_map_select (t : Table κ α) (p : κ → α → Bool) (f : κ → α → M) :
    ((t.select p).map (fun x => f x.1 x.2)).sum
    = t.total (fun k r => if p k r then f k r else 0) := by
  unfold select total
  induction t.entries with
  | nil => rfl
  | cons e l ih =>
    by_cases hp : p e.1 e.2 = true
    · simp only [List.filter_cons, hp, if_true, List.map_cons, List.sum_cons]
      rw [ih]
    · simp only [List.filter_cons, hp, List.map_cons, List.sum_cons]
      simpa using ih

variable [PartialOrder M] [IsOrderedAddMonoid M]

/-- **A rewriting that makes no row heavier** makes the table no heavier. -/
theorem total_update_le {t : Table κ α} {g : κ → α → α} {f : κ → α → M}
    (h : ∀ k r, AList.lookup k t = some r → f k (g k r) ≤ f k r) :
    total (t.update g) f ≤ total t f := by
  unfold total update
  rw [List.map_map]
  exact List.sum_le_sum fun e he => h e.1 e.2 (AList.mem_lookup_iff.mpr he)

end Total

end Table
