import Mathlib.Data.List.Basic
import Mathlib.Algebra.BigOperators.Group.List.Basic
import Mathlib.Algebra.GroupWithZero.Nat

/-!
# JSON texts and their sizes

A JSON value and its text under a style: how a string's characters are
escaped, and what stands between elements and after a key. Two programs that
store and send the same value under different styles produce texts of
different sizes, so a bound on one text says nothing about the other until the
two sizes are related; `size` is the length in bytes of the text, computed
piece by piece (`size_arr`, `size_obj`), which is what such a comparison
needs.

Object members are written in the order they are listed. Encoders that sort
them produce a permutation of the text, of the same size. A store may keep a
value and forget that order: `Reordered` relates a value to what such a store
gives back, and `Corresponds.lookup` says that a reader who asks for members by
their keys does not notice.
-/

/-- A JSON value. Numbers are kept as the text they are written with. -/
inductive Json where
  | null
  | bool (b : Bool)
  | num (text : String)
  | str (s : String)
  | arr (xs : List Json)
  | obj (members : List (String × Json))

namespace Json

/-- **A text style**: the escape of one character, and the separators. -/
structure Style where
  /-- What one character of a string becomes. -/
  escape : Char → List Char
  /-- Between two elements or members. -/
  comma : List Char
  /-- Between a key and its value. -/
  colon : List Char

/-- A string between its quotes. -/
def quote (st : Style) (s : String) : List Char :=
  '"' :: (s.toList.flatMap st.escape ++ ['"'])

mutual

/-- **The text of a value.** -/
def encode (st : Style) : Json → List Char
  | null => "null".toList
  | bool b => (if b then "true" else "false").toList
  | num text => text.toList
  | str s => quote st s
  | arr xs => '[' :: (encodeElements st xs ++ [']'])
  | obj ms => '{' :: (encodeMembers st ms ++ ['}'])

/-- The elements of an array, separated. -/
def encodeElements (st : Style) : List Json → List Char
  | [] => []
  | [x] => encode st x
  | x :: y :: xs => encode st x ++ st.comma ++ encodeElements st (y :: xs)

/-- The members of an object, separated. -/
def encodeMembers (st : Style) : List (String × Json) → List Char
  | [] => []
  | [(k, v)] => quote st k ++ st.colon ++ encode st v
  | (k, v) :: m :: ms =>
    quote st k ++ st.colon ++ encode st v ++ st.comma ++ encodeMembers st (m :: ms)

end

/-- The member of an object under a key. -/
def member (key : String) : Json → Option Json
  | obj ms => ms.lookup key
  | _ => none

/-- The length in bytes of a text. -/
def utf8Length (cs : List Char) : ℕ := (cs.map Char.utf8Size).sum

/-- **The size of a value's text in bytes.** -/
def size (st : Style) (v : Json) : ℕ := utf8Length (encode st v)

@[simp] theorem utf8Length_nil : utf8Length [] = 0 := rfl

@[simp] theorem utf8Length_cons (c : Char) (cs : List Char) :
    utf8Length (c :: cs) = c.utf8Size + utf8Length cs := rfl

@[simp] theorem utf8Length_append (cs ds : List Char) :
    utf8Length (cs ++ ds) = utf8Length cs + utf8Length ds := by
  rw [utf8Length, List.map_append, List.sum_append]
  rfl

/-- The size of an array's elements: their own sizes and the separators. -/
theorem utf8Length_encodeElements (st : Style) (xs : List Json) :
    utf8Length (encodeElements st xs)
      = (xs.map (size st)).sum + (xs.length - 1) * utf8Length st.comma := by
  induction xs with
  | nil => simp [encodeElements]
  | cons x xs ih =>
    cases xs with
    | nil => simp [encodeElements, size]
    | cons y ys =>
      rw [encodeElements, utf8Length_append, utf8Length_append, ih]
      simp only [List.map_cons, List.sum_cons, List.length_cons, Nat.add_sub_cancel]
      rw [Nat.succ_mul]
      show size st x + _ + _ = _
      omega

/-- The size of an object's members: keys, values and separators. -/
theorem utf8Length_encodeMembers (st : Style) (ms : List (String × Json)) :
    utf8Length (encodeMembers st ms)
      = (ms.map (fun m => utf8Length (quote st m.1) + utf8Length st.colon + size st m.2)).sum
        + (ms.length - 1) * utf8Length st.comma := by
  induction ms with
  | nil => simp [encodeMembers]
  | cons m ms ih =>
    obtain ⟨k, v⟩ := m
    cases ms with
    | nil => simp [encodeMembers, size, Nat.add_assoc]
    | cons m' ms =>
      rw [encodeMembers, utf8Length_append, utf8Length_append, utf8Length_append,
        utf8Length_append, ih]
      simp only [List.map_cons, List.sum_cons, List.length_cons, Nat.add_sub_cancel]
      rw [Nat.succ_mul]
      show _ + _ + size st v + _ + _ = _
      omega

/-- **The size of an array.** -/
theorem size_arr (st : Style) (xs : List Json) :
    size st (.arr xs)
      = 2 + (xs.map (size st)).sum + (xs.length - 1) * utf8Length st.comma := by
  have hbrackets : Char.utf8Size '[' = 1 ∧ Char.utf8Size ']' = 1 := by decide
  rw [size, encode, utf8Length_cons, utf8Length_append, utf8Length_encodeElements,
    utf8Length_cons, utf8Length_nil, hbrackets.1, hbrackets.2]
  omega

/-- **The size of an object.** -/
theorem size_obj (st : Style) (ms : List (String × Json)) :
    size st (.obj ms)
      = 2 + (ms.map (fun m => utf8Length (quote st m.1) + utf8Length st.colon
          + size st m.2)).sum + (ms.length - 1) * utf8Length st.comma := by
  have hbraces : Char.utf8Size '{' = 1 ∧ Char.utf8Size '}' = 1 := by decide
  rw [size, encode, utf8Length_cons, utf8Length_append, utf8Length_encodeMembers,
    utf8Length_cons, utf8Length_nil, hbraces.1, hbraces.2]
  omega

/-- The size of an object, the names of its members apart from their values. -/
theorem size_obj_of_names (st : Style) (names : List String) {ms : List (String × Json)}
    (h : ms.map Prod.fst = names) :
    size st (.obj ms)
      = 2 + (names.map (fun k => utf8Length (quote st k) + utf8Length st.colon)).sum
        + (ms.map (fun m => size st m.2)).sum + (names.length - 1) * utf8Length st.comma := by
  rw [size_obj, List.sum_map_add, ← h, List.map_map, List.length_map]
  simp only [Function.comp_def]
  omega

/-- The size of a string whose characters are all written with `n` bytes. -/
theorem size_str (st : Style) {cs : List Char} {n : ℕ}
    (h : ∀ c ∈ cs, utf8Length (st.escape c) = n) :
    size st (.str (String.ofList cs)) = 2 + cs.length * n := by
  have hbody : utf8Length (cs.flatMap st.escape) = cs.length * n := by
    induction cs with
    | nil => simp
    | cons c cs ih =>
      rw [List.flatMap_cons, utf8Length_append, h c List.mem_cons_self,
        ih fun d hd => h d (List.mem_cons_of_mem c hd), List.length_cons, Nat.succ_mul,
        Nat.add_comm]
  have hquote : Char.utf8Size '"' = 1 := by decide
  rw [size, encode, quote, String.toList_ofList, utf8Length_cons, utf8Length_append, hbody,
    utf8Length_cons, utf8Length_nil, hquote]
  omega

/-- No member is larger than its object. -/
theorem size_le_size_obj (st : Style) {ms : List (String × Json)} {k : String} {v : Json}
    (h : (k, v) ∈ ms) : size st v ≤ size st (.obj ms) := by
  obtain ⟨before, after, rfl⟩ := List.append_of_mem h
  rw [size_obj]
  simp only [List.map_append, List.map_cons, List.sum_append, List.sum_cons]
  omega

/-- **Another value in a member's place**: the sizes differ by those of the two
values. -/
theorem size_obj_replace (st : Style) (ms ns : List (String × Json)) (k : String) (v w : Json) :
    size st (.obj (ms ++ (k, v) :: ns)) + size st w
      = size st (.obj (ms ++ (k, w) :: ns)) + size st v := by
  rw [size_obj, size_obj]
  simp only [List.map_append, List.map_cons, List.sum_append, List.sum_cons, List.length_append,
    List.length_cons]
  omega

/-- **One member more**: its key, its value and the separators. -/
theorem size_obj_insert (st : Style) {ms ns : List (String × Json)} (h : ms ++ ns ≠ [])
    (k : String) (v : Json) :
    size st (.obj (ms ++ (k, v) :: ns)) = size st (.obj (ms ++ ns))
      + utf8Length (quote st k) + utf8Length st.colon + size st v + utf8Length st.comma := by
  have hcommas : (ms ++ (k, v) :: ns).length - 1 = (ms ++ ns).length - 1 + 1 := by
    have hpos : 0 < (ms ++ ns).length := List.length_pos_iff.mpr h
    rw [List.length_append] at hpos ⊢
    rw [List.length_cons, List.length_append]
    omega
  rw [size_obj, size_obj, hcommas, Nat.succ_mul]
  simp only [List.map_append, List.map_cons, List.sum_append, List.sum_cons]
  omega

/-! ## Integers -/

/-- A run of decimal digits. -/
def parseNat (ds : List Char) : Option ℕ :=
  if ds ≠ [] ∧ ds.all Char.isDigit then some (Nat.ofDigitChars 10 ds 0) else none

/-- The integer a number's text writes out: a sign and digits, without a
fraction or an exponent. -/
def parseInt (text : String) : Option ℤ :=
  match text.toList with
  | '-' :: ds => (parseNat ds).map (fun n : ℕ => -(n : ℤ))
  | ds => (parseNat ds).map (fun n : ℕ => (n : ℤ))

theorem parseNat_toDigits (n : ℕ) : parseNat (Nat.toDigits 10 n) = some n := by
  have hdigits : (Nat.toDigits 10 n).all Char.isDigit = true :=
    List.all_eq_true.mpr fun c hc => Nat.isDigit_of_mem_toDigits (by decide) (by decide) hc
  rw [parseNat, if_pos ⟨Nat.toDigits_ne_nil, hdigits⟩,
    Nat.ofDigitChars_toDigits (by decide) (by decide)]

/-- **An integer is read back from its text.** -/
theorem parseInt_toString (n : ℤ) : parseInt (toString n) = some n := by
  rw [Int.toString_eq_repr, Int.repr_eq_if]
  split_ifs with hn
  · have hhead : ∀ ds, Nat.toDigits 10 n.toNat ≠ '-' :: ds := by
      intro ds hds
      have hdash : '-'.isDigit = true :=
        Nat.isDigit_of_mem_toDigits (by decide) (by decide) (hds ▸ List.mem_cons_self)
      exact absurd hdash (by decide)
    unfold parseInt
    rw [Nat.toList_repr]
    split
    · rename_i ds hds
      exact absurd hds (hhead ds)
    · rw [parseNat_toDigits, Option.map_some, Int.toNat_of_nonneg hn]
  · have htext : ("-" ++ (-n).toNat.repr).toList = '-' :: Nat.toDigits 10 (-n).toNat := by
      rw [String.toList_append, Nat.toList_repr]
      rfl
    unfold parseInt
    rw [htext]
    simp only [parseNat_toDigits, Option.map_some, Option.some.injEq]
    omega

/-! ## Values up to the order of members -/

/-- Two lists of members agree, in whatever order the second is listed. -/
inductive Corresponds (R : Json → Json → Prop) :
    List (String × Json) → List (String × Json) → Prop where
  | nil : Corresponds R [] []
  | cons {k : String} {v w : Json} {ms ns ns' : List (String × Json)} (h : R v w)
      (hrest : Corresponds R ms (ns ++ ns')) :
      Corresponds R ((k, v) :: ms) (ns ++ (k, w) :: ns')

/-- **The same value**, its objects listed in another order at any depth. -/
inductive Reordered : Json → Json → Prop where
  | null : Reordered .null .null
  | bool (b : Bool) : Reordered (.bool b) (.bool b)
  | num (text : String) : Reordered (.num text) (.num text)
  | str (s : String) : Reordered (.str s) (.str s)
  | arr {xs ys : List Json} (h : List.Forall₂ Reordered xs ys) : Reordered (.arr xs) (.arr ys)
  | obj {ms ns : List (String × Json)} (h : Corresponds Reordered ms ns) :
      Reordered (.obj ms) (.obj ns)

mutual

theorem Reordered.refl : (v : Json) → Reordered v v
  | .null => .null
  | .bool b => .bool b
  | .num text => .num text
  | .str s => .str s
  | .arr xs => .arr (Reordered.refl_elements xs)
  | .obj ms => .obj (Reordered.refl_members ms)

theorem Reordered.refl_elements : (xs : List Json) → List.Forall₂ Reordered xs xs
  | [] => .nil
  | x :: xs => .cons (Reordered.refl x) (Reordered.refl_elements xs)

theorem Reordered.refl_members : (ms : List (String × Json)) → Corresponds Reordered ms ms
  | [] => .nil
  | (k, v) :: ms => @Corresponds.cons _ k v v ms [] ms (Reordered.refl v)
    (Reordered.refl_members ms)

end

variable {R : Json → Json → Prop} {ms ns : List (String × Json)}

/-- The keys are the same. -/
theorem Corresponds.keys (h : Corresponds R ms ns) :
    (ns.map Prod.fst).Perm (ms.map Prod.fst) := by
  induction h with
  | nil => exact .refl _
  | cons _ _ ih =>
    rw [List.map_append, List.map_cons, List.map_cons]
    exact List.perm_middle.trans (.cons _ (List.map_append ▸ ih))

/-- **A key finds the same value**, where keys are distinct. -/
theorem Corresponds.lookup (h : Corresponds R ms ns) (hnodup : (ms.map Prod.fst).Nodup)
    (key : String) : Option.Rel R (ms.lookup key) (ns.lookup key) := by
  induction h with
  | nil => exact .none
  | @cons k v w ms ns ns' hvalue hrest ih =>
    rw [List.map_cons, List.nodup_cons] at hnodup
    have hih := ih hnodup.2
    rw [List.lookup_append] at hih
    rw [List.lookup_append, List.lookup_cons, List.lookup_cons]
    by_cases hkey : key = k
    · subst hkey
      -- No other member of the second list has the key.
      have hfresh : ns.lookup key = none := by
        refine List.lookup_eq_none_iff.mpr fun m hm => bne_iff_ne.mpr fun heq => hnodup.1 ?_
        have hmem : key ∈ (ns ++ ns').map Prod.fst :=
          List.mem_map.mpr ⟨m, List.mem_append_left _ hm, heq.symm⟩
        exact hrest.keys.mem_iff.mp hmem
      rw [hfresh, beq_self_eq_true]
      exact .some hvalue
    · rw [beq_eq_false_iff_ne.mpr hkey]
      exact hih

/-- Where no key occurs twice, the members are what a lookup finds. -/
theorem lookup_eq_some_iff {ms : List (String × Json)} (hnodup : (ms.map Prod.fst).Nodup)
    {key : String} {v : Json} : ms.lookup key = some v ↔ (key, v) ∈ ms := by
  induction ms with
  | nil => simp
  | cons m ms ih =>
    obtain ⟨k, u⟩ := m
    rw [List.map_cons, List.nodup_cons] at hnodup
    rw [List.lookup_cons, List.mem_cons, Prod.mk.injEq, ← ih hnodup.2]
    by_cases hk : key = k
    · subst hk
      have hnot : ms.lookup key ≠ some v := fun h =>
        hnodup.1 (List.mem_map.mpr ⟨_, (ih hnodup.2).mp h, rfl⟩)
      simp [hnot, eq_comm]
    · rw [beq_eq_false_iff_ne.mpr hk]
      simp [hk]

/-- Where the values are the same, only the order differs. -/
theorem Corresponds.perm (h : Corresponds R ms ns)
    (hvalues : ∀ m ∈ ms, ∀ w, R m.2 w → w = m.2) : ns.Perm ms := by
  induction h with
  | nil => exact .refl _
  | cons hvalue _ ih =>
    rw [hvalues _ List.mem_cons_self _ hvalue]
    exact List.perm_middle.trans
      (.cons _ (ih fun m hm => hvalues m (List.mem_cons_of_mem _ hm)))

end Json
