import Dispatch.Lib.Radix
import Dispatch.Spec.Decoding
import Dispatch.Spec.Sweep
import Mathlib.Algebra.BigOperators.Ring.List
import Mathlib.Data.String.Basic

/-!
# The expansion of a sweep

The children of a sweep are counted and made in two loops. The first goes over
the matrix, in whatever order the map is iterated, and multiplies the numbers of
values after a check that the product stays within the limit. The second goes
over the indices and, for each, from the last key to the first, takes the value
at the remainder and goes on with the quotient.

The second loop computes the digits of the index (`Radix.digits`) over the
numbers of values of the sorted keys. So every combination of value positions is
one child. The first loop accepts by a condition on the entries and their
product, so that the order it goes in does not show.
-/

namespace Dispatch

open Txn

variable {s : Sweep}

variable {env : Table String String} {s' : Sweep} {jobs : List Job}

/-- The matrix in the order of its keys. -/
def Sweep.sortedMatrix (s : Sweep) : List (String × List String) :=
  (s.matrix.entries.map (fun e => (e.1, e.2))).insertionSort (fun a b => a.1 ≤ b.1)

/-- The numbers of values, key by key. -/
def Sweep.sizes (s : Sweep) : List ℕ := s.sortedMatrix.map (fun x => x.2.length)

/-! ## Counting -/

/-- What the first loop asks of one key and its values. -/
def matrixEntry (e : Sigma (fun _ : String => List String)) : Prop :=
  (envPattern e.1 ∧ ¬ hasTextPrefix e.1 "DISPATCH_" ∧ e.2 ≠ []) ∧
    ∀ v ∈ e.2, v.utf8ByteSize ≤ 8192 ∧ ¬ hasNul v

theorem one_le_prod_lengths {l : List (Sigma (fun _ : String => List String))}
    (h : ∀ e ∈ l, matrixEntry e) : 1 ≤ (l.map (fun e => e.2.length)).prod := by
  refine Nat.pos_of_ne_zero (List.prod_ne_zero fun hzero => ?_)
  obtain ⟨e, he, hempty⟩ := List.mem_map.mp hzero
  exact (h e he).1.2.2 (List.length_eq_zero_iff.mp hempty)

/-- **The count of a matrix** is the product of the numbers of values, if every
entry is in order and the product is within the limit; and from any accepted
start, no product on the way is past the limit. -/
theorem countMatrix_eq_ok_iff {n c : ℕ} (hn : 1 ≤ n ∧ n ≤ maxSweepJobs)
    {l : List (Sigma (fun _ : String => List String))} :
    countMatrix n l = .ok c ↔ (∀ e ∈ l, matrixEntry e) ∧
      c = n * (l.map (fun e => e.2.length)).prod ∧ c ≤ maxSweepJobs := by
  induction l generalizing n with
  | nil =>
    simp only [countMatrix, Except.ok.injEq, List.map_nil, List.prod_nil, Nat.mul_one]
    exact ⟨by rintro rfl; exact ⟨by simp, rfl, hn.2⟩, fun h => h.2.1.symm⟩
  | cons e l ih =>
    obtain ⟨k, values⟩ := e
    rw [List.forall_mem_cons, List.map_cons, List.prod_cons, ← Nat.mul_assoc]
    simp only [countMatrix, bind_ok, require_ok, exists_and_left, exists_const]
    constructor
    · rintro ⟨⟨hk, hown, hsome, hle⟩, hvalues, hrest⟩
      have hle' := (Nat.le_div_iff_mul_le hn.1).mp hle
      have hpos := List.length_pos_iff.mpr hsome
      rw [Nat.mul_comm] at hle'
      obtain ⟨hentries, hc⟩ := (ih ⟨Nat.mul_pos hn.1 hpos, hle'⟩).mp hrest
      exact ⟨⟨⟨⟨hk, hown, hsome⟩, hvalues⟩, hentries⟩, hc⟩
    · rintro ⟨⟨⟨⟨hk, hown, hsome⟩, hvalues⟩, hentries⟩, hc, hlimit⟩
      have hpos := List.length_pos_iff.mpr hsome
      have hle : n * values.length ≤ maxSweepJobs :=
        (Nat.le_mul_of_pos_right _ (one_le_prod_lengths hentries)).trans (hc ▸ hlimit)
      refine ⟨⟨hk, hown, hsome, (Nat.le_div_iff_mul_le hn.1).mpr (Nat.mul_comm n _ ▸ hle)⟩, hvalues,
        ?_⟩
      exact (ih ⟨Nat.mul_pos hn.1 hpos, hle⟩).mpr ⟨hentries, hc, hlimit⟩

/-! ## Digits -/

/-- The environment that the second loop makes, from the last key to the
first. -/
def assignDigits (env : Table String String) (i : ℕ) :
    List (String × List String) → Table String String
  | [] => env
  | (k, values) :: rest =>
    AList.insert k (values.getD (i / (rest.map (fun x => x.2.length)).prod % values.length) "")
      (assignDigits env i rest)

theorem matrixEnv_append (env : Table String String) (i : ℕ) (l l' : List (String × List String)) :
    matrixEnv env i (l ++ l') =
      matrixEnv (matrixEnv env i l) (i / (l.map (fun x => x.2.length)).prod) l' := by
  induction l generalizing env i with
  | nil => simp [matrixEnv]
  | cons x l ih =>
    obtain ⟨k, values⟩ := x
    rw [List.cons_append, matrixEnv, matrixEnv, ih, List.map_cons, List.prod_cons,
      Nat.div_div_eq_div_mul]

/-- **The loop assigns the digits.** -/
theorem matrixEnv_reverse (env : Table String String) (i : ℕ) (l : List (String × List String)) :
    matrixEnv env i l.reverse = assignDigits env i l := by
  induction l with
  | nil => rfl
  | cons x l ih =>
    obtain ⟨k, values⟩ := x
    rw [List.reverse_cons, matrixEnv_append, ih, List.map_reverse, List.prod_reverse]
    rfl

/-- A key of the matrix has the value at its digit. -/
theorem lookup_assignDigits {i m : ℕ} {l : List (String × List String)}
    (hkeys : (l.map Prod.fst).Nodup) (hsome : ∀ x ∈ l, x.2 ≠ []) {k : String} {values : List String}
    (hm : l[m]? = some (k, values)) :
    ∃ d v, (Radix.digits (l.map (fun x => x.2.length)) i)[m]? = some d ∧ values[d]? = some v ∧
      (assignDigits env i l).lookup k = some v := by
  induction l generalizing m with
  | nil => simp at hm
  | cons x l ih =>
    rw [List.map_cons, List.nodup_cons] at hkeys
    cases m with
    | zero =>
      obtain rfl := Option.some.inj hm
      have hpos := List.length_pos_iff.mpr (hsome _ List.mem_cons_self)
      have hlt := Nat.mod_lt (i / (l.map (fun x => x.2.length)).prod) hpos
      refine ⟨_, _, rfl, List.getElem?_eq_getElem hlt, ?_⟩
      rw [assignDigits, Table.lookup_insert_ite, if_pos rfl, List.getD_eq_getElem?_getD,
        List.getElem?_eq_getElem hlt, Option.getD_some]
    | succ m =>
      rw [List.getElem?_cons_succ] at hm
      obtain ⟨d, v, hd, hv, hlookup⟩ :=
        ih hkeys.2 (fun x hx => hsome x (List.mem_cons_of_mem _ hx)) hm
      refine ⟨d, v, hd, hv, ?_⟩
      have hne : k ≠ x.1 := by
        rintro rfl
        exact hkeys.1 (List.mem_map.mpr ⟨_, List.mem_of_getElem? hm, rfl⟩)
      rw [assignDigits, Table.lookup_insert_ite, if_neg hne, hlookup]

/-- Another key has the value of the template. -/
theorem lookup_assignDigits_of_notMem {i : ℕ}
    {l : List (String × List String)} {k : String} (hk : k ∉ l.map Prod.fst) :
    (assignDigits env i l).lookup k = env.lookup k := by
  induction l with
  | nil => rfl
  | cons x l ih =>
    rw [List.map_cons, List.mem_cons, not_or] at hk
    rw [assignDigits, Table.lookup_insert_ite, if_neg hk.1, ih hk.2]

/-! ## The order of the maps -/

theorem assignDigits_perm {env' : Table String String} (h : env'.entries.Perm env.entries) (i : ℕ)
    (l : List (String × List String)) :
    (assignDigits env' i l).entries.Perm (assignDigits env i l).entries := by
  induction l with
  | nil => exact h
  | cons x l ih => exact AList.perm_insert ih

/-- **A listing of the same sweep**: its maps may come in another order. -/
structure Sweep.Relisted (s s' : Sweep) : Prop where
  metadata : ∃ labels : Table String String, labels.entries.Perm s.metadata.labels.entries ∧
    s'.metadata = { s.metadata with labels := labels }
  jobTemplate : s.jobTemplate.Relisted s'.jobTemplate
  matrix : s'.matrix.entries.Perm s.matrix.entries
  rest : (s'.apiVersion, s'.kind, s'.maxConcurrent, s'.failFast, s'.cancelRunningOnFailure) =
    (s.apiVersion, s.kind, s.maxConcurrent, s.failFast, s.cancelRunningOnFailure)

theorem Sweep.Relisted.symm (h : s.Relisted s') : s'.Relisted s := by
  obtain ⟨labels, hlabels, hmetadata⟩ := h.metadata
  refine ⟨⟨s.metadata.labels, ?_, ?_⟩, h.jobTemplate.symm, h.matrix.symm, h.rest.symm⟩
  · rw [hmetadata]
    exact hlabels.symm
  · rw [hmetadata]

/-- Sorting the keys forgets the order of the map. -/
theorem Sweep.Relisted.sortedMatrix (h : s.Relisted s') :
    s'.sortedMatrix = s.sortedMatrix := by
  refine Table.insertionSort_congr (h.matrix.map _) fun a ha b hb hab hba => ?_
  obtain ⟨e, he, rfl⟩ := List.mem_map.mp ha
  obtain ⟨e', he', rfl⟩ := List.mem_map.mp hb
  obtain rfl := s'.matrix.nodupKeys.eq_of_fst_eq he he' (String.le_antisymm hab hba)
  rfl

/-! ## What is accepted -/

/-- What a sweep is checked for before its children are made. -/
structure Sweep.Accepted (s : Sweep) : Prop where
  head : s.apiVersion = Dispatch.apiVersion ∧ s.kind = "Sweep"
  metadata : s.metadata.validate = .ok ()
  project : s.metadata.project = s.jobTemplate.metadata.project
  template : s.jobTemplate.isValid = true
  policy : 1 ≤ s.maxConcurrent ∧ s.maxConcurrent ≤ maxSweepJobs ∧
    (s.cancelRunningOnFailure → s.failFast)
  parameters : s.matrix.entries ≠ [] ∧ s.matrix.entries.length ≤ 32
  entries : ∀ e ∈ s.matrix.entries, matrixEntry e
  limit : s.sizes.prod ≤ maxSweepJobs

theorem Sweep.perm_sortedMatrix (s : Sweep) :
    s.sortedMatrix.Perm (s.matrix.entries.map (fun e => (e.1, e.2))) :=
  List.perm_insertionSort _ _

theorem Sweep.prod_sizes (s : Sweep) :
    s.sizes.prod = (s.matrix.entries.map (fun e => e.2.length)).prod := by
  rw [Sweep.sizes, (s.perm_sortedMatrix.map _).prod_eq, List.map_map]
  rfl

/-- **What an expansion is**: the checks pass, and the children of all indices
below the product are collected. -/
theorem Sweep.expand_eq_ok_iff : s.expand = .ok jobs ↔ s.Accepted ∧
    collectChildren 0 ((List.range s.sizes.prod).map (s.child s.sortedMatrix)) = .ok jobs := by
  have hone : 1 ≤ 1 ∧ 1 ≤ maxSweepJobs := by decide
  simp only [Sweep.expand, bind_ok, require_ok, exists_and_left, exists_const,
    countMatrix_eq_ok_iff hone, Nat.one_mul]
  constructor
  · rintro ⟨hhead, _, hmetadata, hproject, _, htemplate, hpolicy, hparameters, c,
      ⟨hentries, hc, hlimit⟩, hjobs⟩
    rw [← s.prod_sizes] at hc
    obtain rfl := hc
    exact ⟨⟨hhead, hmetadata, hproject, Job.isValid_iff.mpr htemplate, hpolicy, hparameters,
      hentries, hlimit⟩, hjobs⟩
  · rintro ⟨h, hjobs⟩
    exact ⟨h.head, (), h.metadata, h.project, (), Job.isValid_iff.mp h.template, h.policy,
      h.parameters, _, ⟨h.entries, s.prod_sizes, h.limit⟩, hjobs⟩

/-- **The checks do not see the order.** -/
theorem Sweep.Relisted.accepted (h : s.Relisted s') (hs : s.Accepted) :
    s'.Accepted := by
  obtain ⟨labels, hlabels, hmetadata⟩ := h.metadata
  obtain ⟨labels', -, hmetadata'⟩ := h.jobTemplate.metadata
  have hrest := h.rest
  simp only [Prod.mk.injEq] at hrest
  obtain ⟨hversion, hkind, hmax, hfast, hcancel⟩ := hrest
  have hsizes : s'.sizes = s.sizes := by rw [Sweep.sizes, Sweep.sizes, h.sortedMatrix]
  exact {
    head := ⟨hversion.trans hs.head.1, hkind.trans hs.head.2⟩
    metadata := hmetadata ▸ Metadata.validate_relisted hlabels hs.metadata
    project := by rw [hmetadata, hmetadata']; exact hs.project
    template := h.jobTemplate.isValid hs.template
    policy := by rw [hmax, hfast, hcancel]; exact hs.policy
    parameters := ⟨fun hnil => hs.parameters.1 (hnil ▸ h.matrix).nil_eq.symm,
      h.matrix.length_eq ▸ hs.parameters.2⟩
    entries := fun e he => hs.entries e (h.matrix.mem_iff.mp he)
    limit := hsizes ▸ hs.limit }

theorem Job.Relisted.canonical {j j' : Job} (h : j.Relisted j') :
    j.canonical.Relisted j'.canonical := by
  obtain ⟨version, kind, metadata, spec⟩ := j'
  obtain ⟨⟨rfl, rfl⟩, ⟨labels, hlabels, rfl⟩, env, placement, henv, hplacement, rfl⟩ := h
  exact ⟨⟨rfl, rfl⟩, ⟨labels, hlabels, rfl⟩, env, placement, henv, hplacement, rfl⟩

theorem Sweep.Relisted.child (h : s.Relisted s') (matrix : List (String × List String))
    (i : ℕ) : (s.child matrix i).Relisted (s'.child matrix i) := by
  obtain ⟨hhead, hmetadata, env, placement, henv, hplacement, hspec⟩ := h.jobTemplate.canonical
  refine ⟨hhead, hmetadata, matrixEnv env i matrix.reverse, placement, ?_, hplacement, ?_⟩
  · simp only [Sweep.child, matrixEnv_reverse]
    exact assignDigits_perm henv i matrix
  · simp only [Sweep.child, hspec]

/-- Children that are listed otherwise are collected alike. -/
theorem collectChildren_relisted {total : ℕ} {l l' : List Job}
    (hl : List.Forall₂ Job.Relisted l l') (h : collectChildren total l = .ok jobs) :
    collectChildren total l' = .ok l' := by
  induction hl generalizing total jobs with
  | nil => rfl
  | @cons child child' rest rest' hchild _ ih =>
    simp only [collectChildren, bind_ok, require_ok, pure_ok] at h ⊢
    obtain ⟨u, hvalid, u', hsize, tail, htail, -⟩ := h
    have hvalid' := Job.isValid_iff.mp (hchild.isValid (Job.isValid_iff.mpr hvalid))
    rw [← hchild.canonicalSize] at hsize htail
    exact ⟨u, hvalid', u', hsize, rest', ih htail, rfl⟩

/-- **Acceptance and result do not depend on the order of the maps.** -/
theorem Sweep.Relisted.expand (h : s.Relisted s')
    (hs : s.expand = .ok jobs) :
    ∃ jobs', s'.expand = .ok jobs' ∧ List.Forall₂ Job.Relisted jobs jobs' := by
  obtain ⟨haccepted, hjobs⟩ := Sweep.expand_eq_ok_iff.mp hs
  have hsizes : s'.sizes = s.sizes := by rw [Sweep.sizes, Sweep.sizes, h.sortedMatrix]
  have hchildren : List.Forall₂ Job.Relisted ((List.range s.sizes.prod).map
      (s.child s.sortedMatrix)) ((List.range s.sizes.prod).map (s'.child s.sortedMatrix)) := by
    rw [List.forall₂_map_left_iff, List.forall₂_map_right_iff, List.forall₂_same]
    exact fun i _ => h.child s.sortedMatrix i
  have hjobs' : collectChildren 0 ((List.range s'.sizes.prod).map (s'.child s'.sortedMatrix)) =
      .ok ((List.range s.sizes.prod).map (s'.child s.sortedMatrix)) := by
    rw [hsizes, h.sortedMatrix]
    exact collectChildren_relisted hchildren hjobs
  refine ⟨_, Sweep.expand_eq_ok_iff.mpr ⟨h.accepted haccepted, hjobs'⟩, ?_⟩
  rw [collectChildren_eq_ok hjobs]
  exact hchildren

/-! ## Children -/

theorem Sweep.sortedMatrix_keys (s : Sweep) :
    (s.sortedMatrix.map Prod.fst).Pairwise (· < ·) := by
  have hle : (s.sortedMatrix.map Prod.fst).Pairwise (· ≤ ·) :=
    List.pairwise_map.mpr (List.pairwise_insertionSort _ _)
  have hnodup : (s.sortedMatrix.map Prod.fst).Nodup := by
    rw [(s.perm_sortedMatrix.map Prod.fst).nodup_iff, List.map_map]
    exact s.matrix.nodupKeys
  exact (hle.and hnodup).imp fun h => lt_of_le_of_ne h.1 h.2

theorem Sweep.Accepted.values (h : s.Accepted) : ∀ x ∈ s.sortedMatrix, x.2 ≠ [] := by
  intro x hx
  obtain ⟨e, he, rfl⟩ := List.mem_map.mp (s.perm_sortedMatrix.mem_iff.mp hx)
  exact (h.entries e he).1.2.2

/-- A sweep has between one and a thousand children. -/
theorem Sweep.length_expand (h : s.expand = .ok jobs) :
    1 ≤ jobs.length ∧ jobs.length ≤ maxSweepJobs := by
  obtain ⟨haccepted, hjobs⟩ := Sweep.expand_eq_ok_iff.mp h
  rw [collectChildren_eq_ok hjobs, List.length_map, List.length_range]
  exact ⟨s.prod_sizes ▸ one_le_prod_lengths haccepted.entries, haccepted.limit⟩

/-- **The expansion of a sweep is a mixed-radix count.** There are as many
children as the product of the numbers of values, at most a thousand. The child
at an index is the canonical template, whose text is read back as it is, with
each key of the matrix set to the value at its digit of the index over the sorted
keys, the last key varying fastest; and every combination of value positions is
the digits of one index. Acceptance and result do not depend on the order in
which the maps are iterated, and whatever entries the count has gone through, its
product is within the limit. -/
theorem expand_mixedRadix (s : Sweep) :
    (∀ l n, countMatrix 1 l = .ok n →
      n = (l.map (fun e => e.2.length)).prod ∧ 1 ≤ n ∧ n ≤ maxSweepJobs) ∧
    (∀ s', s.Relisted s' →
      ((∃ jobs', s'.expand = .ok jobs') ↔ ∃ jobs, s.expand = .ok jobs) ∧
      ∀ jobs jobs', s.expand = .ok jobs → s'.expand = .ok jobs' →
        List.Forall₂ Job.Relisted jobs jobs') ∧
    ∀ jobs, s.expand = .ok jobs →
      s.sortedMatrix.Perm (s.matrix.entries.map (fun e => (e.1, e.2))) ∧
      (s.sortedMatrix.map Prod.fst).Pairwise (· < ·) ∧
      jobs.length = (s.matrix.entries.map (fun e => e.2.length)).prod ∧
      jobs.length ≤ maxSweepJobs ∧
      (∃ template, Job.ofJson s.jobTemplate.canonical.toJson = some template ∧
        s.jobTemplate.canonical.Relisted template) ∧
      (∀ (i : ℕ) (job : Job), jobs[i]? = some job → ∃ env,
        job = { s.jobTemplate.canonical with
          spec := { s.jobTemplate.canonical.spec with env := env } } ∧
        (∀ (m : ℕ) (k : String) (values : List String), s.sortedMatrix[m]? = some (k, values) →
          ∃ (d : ℕ) (v : String), (Radix.digits s.sizes i)[m]? = some d ∧ values[d]? = some v ∧
            env.lookup k = some v) ∧
        ∀ k, k ∉ s.sortedMatrix.map Prod.fst →
          env.lookup k = s.jobTemplate.canonical.spec.env.lookup k) ∧
      ∀ positions, List.Forall₂ (· < ·) positions s.sizes →
        ∃! i, i < jobs.length ∧ Radix.digits s.sizes i = positions := by
  refine ⟨fun l n hn => ?_, fun s' h => ⟨⟨?_, ?_⟩, fun jobs jobs' hjobs hjobs' => ?_⟩,
    fun jobs hexpand => ?_⟩
  · have hone : 1 ≤ 1 ∧ 1 ≤ maxSweepJobs := by decide
    obtain ⟨hentries, hprod, hlimit⟩ := (countMatrix_eq_ok_iff hone).mp hn
    rw [Nat.one_mul] at hprod
    exact ⟨hprod, hprod ▸ one_le_prod_lengths hentries, hlimit⟩
  · rintro ⟨jobs', hjobs'⟩
    obtain ⟨jobs, hjobs, -⟩ := h.symm.expand hjobs'
    exact ⟨jobs, hjobs⟩
  · rintro ⟨jobs, hjobs⟩
    obtain ⟨jobs', hjobs', -⟩ := h.expand hjobs
    exact ⟨jobs', hjobs'⟩
  · obtain ⟨jobs'', hjobs'', hsame⟩ := h.expand hjobs
    obtain rfl := Except.ok.inj (hjobs''.symm.trans hjobs')
    exact hsame
  · obtain ⟨haccepted, hjobs⟩ := Sweep.expand_eq_ok_iff.mp hexpand
    obtain rfl := collectChildren_eq_ok hjobs
    have hlength : ((List.range s.sizes.prod).map (s.child s.sortedMatrix)).length
        = s.sizes.prod := by
      rw [List.length_map, List.length_range]
    refine ⟨s.perm_sortedMatrix, s.sortedMatrix_keys, hlength.trans s.prod_sizes,
      hlength.trans_le haccepted.limit, ?_, fun i job hi => ?_, fun positions hpositions => ?_⟩
    · exact Job.ofJson_reordered
        (Job.machine_of_isValid (Job.isValid_canonical haccepted.template)) (.refl _)
    · rw [List.getElem?_map, Option.map_eq_some_iff] at hi
      obtain ⟨i', hi', rfl⟩ := hi
      obtain ⟨_, heq⟩ := List.getElem?_eq_some_iff.mp hi'
      obtain rfl : i = i' := by simpa using heq
      refine ⟨_, rfl, fun m k values hm => ?_, fun k hk => ?_⟩
      · rw [matrixEnv_reverse]
        exact lookup_assignDigits (s.sortedMatrix_keys.imp ne_of_lt) haccepted.values hm
      · rw [matrixEnv_reverse]
        exact lookup_assignDigits_of_notMem hk
    · rw [hlength]
      exact Radix.existsUnique_digits hpositions

namespace Sample

/-- Two keys, with one and two values. -/
def grid : Sweep where
  apiVersion := apiVersion
  kind := "Sweep"
  metadata := ⟨"s", "p", ∅⟩
  jobTemplate := job
  matrix := AList.insert "RATE" ["1", "2"] (AList.insert "MODE" ["a"] ∅)
  maxConcurrent := 2
  failFast := false
  cancelRunningOnFailure := false

end Sample

/-- The grid has two children, and one of them has the first mode and the second
rate. -/
theorem grid_expand : ∃ jobs, Sample.grid.expand = .ok jobs ∧ jobs.length = 2 ∧
    ∃! i, i < jobs.length ∧ Radix.digits Sample.grid.sizes i = [0, 1] := by
  obtain ⟨jobs, hjobs⟩ : ∃ jobs, Sample.grid.expand = .ok jobs := by
    have hok : Sample.grid.expand.isOk = true := by decide +kernel
    cases hexpand : Sample.grid.expand with
    | error e => simp [hexpand, Except.isOk, Except.toBool] at hok
    | ok jobs => exact ⟨jobs, rfl⟩
  obtain ⟨-, -, hexpands⟩ := expand_mixedRadix Sample.grid
  obtain ⟨-, -, hlength, -, -, -, hunique⟩ := hexpands jobs hjobs
  refine ⟨jobs, hjobs, hlength.trans (by decide +kernel), hunique [0, 1] ?_⟩
  have hsizes : Sample.grid.sizes = [1, 2] := by decide +kernel
  rw [hsizes]
  exact .cons (by decide) (.cons (by decide) .nil)

end Dispatch
