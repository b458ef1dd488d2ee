import Dispatch.Ledger.Invariants
import Dispatch.Store.Footprint

/-!
# Idempotency keys

A request to create something is saved under its project, its endpoint and the
key its client chose. `Store.receipt` is what a request under that key is
answered with: the hash of the first request, the identifier of what it made
and, for a sweep, the identifiers of its children in order.

The children are read from the jobs each time, so that a receipt stands is a
fact about all transactions: a job joins a sweep only with the sweep itself,
and no two children have one index (`Store.Rolled`).
-/

namespace Dispatch

open Txn

variable {id project : Uuid} {w : World} {reply : Reply} {key : Uuid × Endpoint × String}
  {fresh : ℕ → Uuid} {requestHash : String} {index : ℕ} {bindings : List DatasetBinding}
  {v : Receipt}

variable {sha : Uuid → ℕ} {op : Op} {now : Time} {s s' : Store}

/-! ## The children of a sweep -/

/-- `id` is the child of the sweep at the index. -/
def Store.Child (s : Store) (sweep : Uuid) (index : ℕ) (id : Uuid) : Prop :=
  ∃ j, s.jobs.lookup id = some j ∧ j.sweep = some (sweep, index)

/-- **No two children have one index.** -/
def Store.Rolled (s : Store) (sweep : Uuid) : Prop :=
  ∀ index id id', s.Child sweep index id → s.Child sweep index id' → id = id'

/-- The children of a sweep with their indices, as they are sorted. -/
def Store.roll (s : Store) (sweep : Uuid) : List (ℕ × Uuid) :=
  (sweepChildren s sweep).map (fun x => ((x.2.sweep.map Prod.snd).getD 0, x.1))

theorem Store.roll_ids (s : Store) (sweep : Uuid) :
    (s.roll sweep).map Prod.snd = sweepChildIDs s sweep := by
  rw [Store.roll, List.map_map]
  rfl

theorem Store.mem_roll {sweep : Uuid} {x : ℕ × Uuid} :
    x ∈ s.roll sweep ↔ s.Child sweep x.1 x.2 := by
  rw [Store.roll, List.mem_map]
  constructor
  · rintro ⟨⟨id, j⟩, hx, rfl⟩
    rw [sweepChildren, List.mem_insertionSort, Table.mem_select, decide_eq_true_eq,
      Option.map_eq_some_iff] at hx
    obtain ⟨hj, ⟨_, index⟩, hsweep, rfl⟩ := hx
    refine ⟨j, hj, ?_⟩
    simp only [hsweep, Option.map_some, Option.getD_some]
  · rintro ⟨j, hj, hsweep⟩
    refine ⟨(x.2, j), ?_, ?_⟩
    · rw [sweepChildren, List.mem_insertionSort, Table.mem_select, decide_eq_true_eq, hsweep]
      exact ⟨hj, rfl⟩
    · simp only [hsweep, Option.map_some, Option.getD_some]

theorem Store.roll_sorted (s : Store) (sweep : Uuid) :
    (s.roll sweep).Pairwise (fun x y => x.1 ≤ y.1) :=
  (List.pairwise_insertionSort (fun x y : Uuid × JobRow =>
    (x.2.sweep.map Prod.snd).getD 0 ≤ (y.2.sweep.map Prod.snd).getD 0) _).map _ fun _ _ h => h

theorem Store.roll_nodup (s : Store) (sweep : Uuid) : (s.roll sweep).Nodup := by
  refine List.Nodup.of_map Prod.snd ?_
  rw [Store.roll_ids, sweepChildIDs, sweepChildren,
    ((List.perm_insertionSort ..).map Prod.fst).nodup_iff]
  exact Table.nodup_select_keys ..

/-- **The roll is the only list of the children in the order of their
indices.** -/
theorem Store.roll_eq {sweep : Uuid} {l : List (ℕ × Uuid)} (hl : l.Pairwise (fun x y => x.1 < y.1))
    (hmem : ∀ x, x ∈ l ↔ s.Child sweep x.1 x.2) : s.roll sweep = l := by
  have hindices : (l.map Prod.fst).Nodup := List.pairwise_map.mpr (hl.imp ne_of_lt)
  have hperm : (s.roll sweep).Perm l :=
    (List.perm_ext_iff_of_nodup (s.roll_nodup sweep) hindices.of_map).mpr fun x => by
      rw [Store.mem_roll, hmem]
  refine hperm.eq_of_pairwise (fun x y hx hy hle hge => ?_) (s.roll_sorted sweep)
    (hl.imp le_of_lt)
  exact List.inj_on_of_nodup_map hindices (hperm.mem_iff.mp hx) hy (le_antisymm hle hge)

/-- Without two children at one index the roll is strictly sorted. -/
theorem Store.Rolled.sorted {sweep : Uuid} (h : s.Rolled sweep) :
    (s.roll sweep).Pairwise (fun x y => x.1 < y.1) := by
  refine ((s.roll_sorted sweep).and (s.roll_nodup sweep)).imp_of_mem fun hx hy hxy => ?_
  refine lt_of_le_of_ne hxy.1 fun hindex => hxy.2 (Prod.ext hindex ?_)
  exact h _ _ _ (Store.mem_roll.mp hx) (hindex ▸ Store.mem_roll.mp hy)

/-- **The children of a sweep are read alike** while no child is added. -/
theorem sweepChildIDs_congr {sweep : Uuid} (hrolled : s.Rolled sweep)
    (hsame : ∀ index id, s'.Child sweep index id ↔ s.Child sweep index id) :
    sweepChildIDs s' sweep = sweepChildIDs s sweep := by
  rw [← Store.roll_ids, ← Store.roll_ids, Store.roll_eq hrolled.sorted fun x => ?_]
  rw [Store.mem_roll, hsame]

/-- The children are numbered from zero. -/
theorem sweepChildIDs_range {sweep : Uuid} {n : ℕ}
    (h : ∀ index id, s.Child sweep index id ↔ index < n ∧ id = fresh index) :
    sweepChildIDs s sweep = (List.range n).map fresh := by
  have hroll : s.roll sweep = (List.range n).map (fun i => (i, fresh i)) := by
    refine Store.roll_eq (List.pairwise_lt_range.map _ fun _ _ h => h) fun x => ?_
    rw [h, List.mem_map]
    constructor
    · rintro ⟨i, hi, rfl⟩
      exact ⟨List.mem_range.mp hi, rfl⟩
    · rintro ⟨hlt, hid⟩
      exact ⟨x.1, List.mem_range.mpr hlt, Prod.ext rfl hid.symm⟩
  rw [← Store.roll_ids, hroll, List.map_map]
  rfl

/-! ## Who joins a sweep -/

/-- Children on the ledger. -/
theorem Store.child_iff {sweep : Uuid} : s.Child sweep index id ↔
    ∃ j, s.toLedger.jobs.lookup id = some j ∧ j.sweep = some (sweep, index) := by
  constructor
  · rintro ⟨j, hj, hsweep⟩
    exact ⟨j.uncounted, Store.toLedger_job hj, hsweep⟩
  · rintro ⟨j, hj, hsweep⟩
    obtain ⟨k, hk, rfl⟩ := Store.job_of_toLedger hj
    exact ⟨k, hk, hsweep⟩

/-- **A job joins a sweep only with the sweep.** -/
theorem Ledger.Steps.joins {l l' : Ledger} (h : Ledger.Steps sha op now l l') {j' : JobRow}
    {x : Uuid × ℕ} (hj' : l'.jobs.lookup id = some j') (hx : j'.sweep = some x) :
    (∃ j, l.jobs.lookup id = some j ∧ j.sweep = some x) ∨ l.sweeps.lookup x.1 = none := by
  induction h generalizing j' with
  | refl => exact .inl ⟨j', hj', hx⟩
  | tail hsteps hstep ih =>
    obtain ⟨j, hj, hmoves⟩ | ⟨-, hadmitted⟩ := hstep.jobs.found id j' hj'
    · exact ih hj (hmoves.later.sweep ▸ hx)
    · refine .inr ?_
      by_contra hne
      obtain ⟨row, hrow⟩ := Option.ne_none_iff_exists'.mp hne
      have hnew := (hadmitted.sweep x hx).1
      exact absurd (hnew.symm.trans (Ledger.Steps.later hsteps |>.sweeps _ _ hrow)) (by simp)

/-- **The children of a sweep stay what they are.** -/
theorem Reachable.exec_child (h : Reachable sha w) (hle : w.clock ≤ now)
    (hexec : op.exec sha w.store now = .ok (s', reply)) {sweep : Uuid}
    (hsweep : w.store.sweeps.lookup sweep ≠ none) :
    s'.Child sweep index id ↔ w.store.Child sweep index id := by
  have hsteps := h.exec_ledger hle hexec
  rw [Store.child_iff, Store.child_iff]
  constructor
  · rintro ⟨j', hj', hx⟩
    exact (hsteps.joins hj' hx).resolve_right hsweep
  · rintro ⟨j, hj, hx⟩
    obtain ⟨j', hj', hlater⟩ := hsteps.later.jobs id j hj
    exact ⟨j', hj', hlater.sweep.trans hx⟩

/-- A sweep that is not there has no children. -/
theorem Reachable.not_child (h : Reachable sha w) {sweep : Uuid}
    (hnone : w.store.sweeps.lookup sweep = none) : ¬ w.store.Child sweep index id := by
  rw [Store.child_iff]
  rintro ⟨j, hj, hx⟩
  exact h.ledger_sound.keyed.sweep id j hj _ hx hnone

/-- **One more child.** -/
structure Enlists (t t' : Store) (sweep : Uuid) (index : ℕ) (id : Uuid) : Prop where
  child : ∀ x i c, t'.Child x i c ↔ t.Child x i c ∨ c = id ∧ x = sweep ∧ i = index
  sweeps : t'.sweeps = t.sweeps
  keys : t'.idempotency = t.idempotency

theorem Enrols.enlists {t t' : Store} {sweep : Uuid} {row : JobRow} (h : Enrols t t' id row)
    (hsweep : row.sweep = some (sweep, index)) (hkeys : t'.idempotency = t.idempotency) :
    Enlists t t' sweep index id := by
  refine ⟨fun x i c => ?_, h.sweeps, hkeys⟩
  rw [Store.child_iff, Store.child_iff, h.jobs]
  by_cases hc : c = id
  · subst hc
    have hnone : t.toLedger.jobs.lookup c = none := Store.toLedger_job_none.mpr h.new
    simp only [Table.lookup_insert_ite, if_pos, hnone, Option.some.injEq, exists_eq_left', true_and,
      reduceCtorEq, false_and, exists_false, false_or]
    change row.sweep = some (x, i) ↔ _
    rw [hsweep, Option.some.injEq, Prod.mk.injEq]
    exact and_congr eq_comm eq_comm
  · simp only [Table.lookup_insert_ite, hc, ↓reduceIte, false_and, or_false]

theorem insertChild_enlists {sweep : Uuid} {child : Job × ℕ}
    (h : insertChild now project sweep fresh bindings s child = .ok s') :
    Enlists s s' sweep child.2 (fresh child.2) := by
  simp only [insertChild, bind_ok, require_ok] at h
  obtain ⟨-, -, inserted, hinserted, hbound⟩ := h
  refine (insertInputs_binds (insertJob_enrols hinserted) hbound).1.enlists rfl ?_
  exact (insertInputs_writes hbound .idempotency (by decide)).trans
    (insertJob_writes hinserted .idempotency (by decide))

theorem insertRetry_enlists {source sweep : Uuid} {parent : (Uuid × JobRow) × ℕ}
    (h : insertRetry now source sweep fresh s parent = .ok s') :
    Enlists s s' sweep parent.2 (fresh parent.2) := by
  refine (insertRetry_enrols h).enlists rfl ?_
  simp only [insertRetry, bind_ok] at h
  obtain ⟨admitted, hadmitted, hcopied⟩ := h
  have hkeys : admitted.idempotency = s.idempotency :=
    insertJob_writes hadmitted .idempotency (by decide)
  refine foldlM_invariant (fun u : Store => u.idempotency = s.idempotency) hkeys
    (fun u x u' _ hu hturn => ?_) hcopied
  obtain ⟨-, rfl⟩ := copyInput_eq_ok hturn
  exact hu

/-- **All children**: one at each index. -/
theorem enlist_all {α : Type} {f : Store → α × ℕ → Except StoreError Store} {l : List α}
    {sweep : Uuid} (hf : ∀ t x t', f t x = .ok t' → Enlists t t' sweep x.2 (fresh x.2))
    (hnone : ∀ i c, ¬ s.Child sweep i c) (h : l.zipIdx.foldlM f s = .ok s') :
    (s'.sweeps = s.sweeps ∧ s'.idempotency = s.idempotency) ∧
      ∀ i c, s'.Child sweep i c ↔ i < l.length ∧ c = fresh i := by
  refine ⟨?_, fun i c => ⟨fun hchild => ?_, ?_⟩⟩
  · exact foldlM_invariant (fun t => t.sweeps = s.sweeps ∧ t.idempotency = s.idempotency) ⟨rfl, rfl⟩
      (fun t x t' _ ht hturn =>
        ⟨(hf t x t' hturn).sweeps.trans ht.1, (hf t x t' hturn).keys.trans ht.2⟩) h
  · refine foldlM_invariant (fun t => ∀ i c, t.Child sweep i c → i < l.length ∧ c = fresh i)
      (fun i c hc => absurd hc (hnone i c)) (fun t x t' hx ht hturn i c hc => ?_) h i c hchild
    obtain hc | ⟨rfl, -, rfl⟩ := ((hf t x t' hturn).child sweep i c).mp hc
    · exact ht i c hc
    · exact ⟨by simpa using (List.mem_zipIdx hx).2.1, rfl⟩
  · rintro ⟨hlt, rfl⟩
    refine foldlM_forall (fun x t => t.Child sweep x.2 (fresh x.2))
      (fun t x t' hturn => ((hf t x t' hturn).child ..).mpr (.inr ⟨rfl, rfl, rfl⟩))
      (fun t x t' hturn y hy => ((hf t x t' hturn).child ..).mpr (.inl hy)) h (l[i], i) ?_
    exact List.mem_zipIdx_iff_getElem?.mpr (List.getElem?_eq_getElem hlt)

/-! ## Receipts -/

/-- The children a request of the endpoint is answered with. -/
def Store.children (s : Store) : Endpoint → Uuid → List Uuid
  | .jobs, _ => []
  | .sweeps, id => sweepChildIDs s id
  | .retry _, id => sweepChildIDs s id

/-- What a request was answered with. -/
structure Receipt where
  requestHash : String
  id : Uuid
  children : List Uuid
  deriving DecidableEq, Repr

/-- **The receipt of a key**: what a request under it is answered with. -/
def Store.receipt (s : Store) (key : Uuid × Endpoint × String) : Option Receipt :=
  (s.idempotency.lookup key).map (fun saved =>
    ⟨saved.requestHash, saved.response, s.children key.2.1 saved.response⟩)

theorem Store.receipt_eq_some :
    s.receipt key = some v ↔ s.idempotency.lookup key = some ⟨v.requestHash, v.id⟩ ∧
      s.children key.2.1 v.id = v.children := by
  rw [Store.receipt, Option.map_eq_some_iff]
  constructor
  · rintro ⟨saved, hsaved, rfl⟩
    exact ⟨hsaved, rfl⟩
  · rintro ⟨hsaved, hchildren⟩
    exact ⟨_, hsaved, by rw [hchildren]⟩

theorem Store.receipt_eq_none : s.receipt key = none ↔ s.idempotency.lookup key = none
    := Option.map_eq_none_iff

/-- What a reply names: what was made, and its children. -/
def Reply.named : Reply → Option (Uuid × List Uuid)
  | .job r => some (r.id, [])
  | .sweep r => some (r.id, r.childIDs)
  | .sweepRetry r => some (r.id, r.children.map Prod.fst)
  | _ => none

/-- The identifier names something that the endpoint makes. -/
def Store.Made (s : Store) (key : Uuid × Endpoint × String) (id : Uuid) : Prop :=
  match key.2.1 with
  | .jobs => s.jobs.lookup id ≠ none
  | .sweeps => s.sweeps.lookup id ≠ none
  | .retry sweep => ∃ row, s.sweeps.lookup id = some row ∧ row.project = key.1 ∧
      row.parentSweep = some sweep

/-- The identifier is new, and nothing else of its kind is. -/
def Store.OnlyNew (s s' : Store) (key : Uuid × Endpoint × String) (id : Uuid) : Prop :=
  if key.2.1 = .jobs then
    s'.sweeps = s.sweeps ∧ s.jobs.lookup id = none ∧
      ∀ other, other ≠ id → s'.jobs.lookup other = s.jobs.lookup other
  else s.sweeps.lookup id = none ∧ ∀ other, other ≠ id →
    s'.sweeps.lookup other = s.sweeps.lookup other

/-- **What a creation does**: the key is new and names what was made, which is
the only new job or sweep, and the children of a new sweep have an index
each. -/
structure Store.Makes (s s' : Store) (key : Uuid × Endpoint × String) (receipt : Receipt) :
    Prop where
  free : s.idempotency.lookup key = none
  keys : s'.idempotency = AList.insert key ⟨receipt.requestHash, receipt.id⟩ s.idempotency
  made : s'.Made key receipt.id
  only : s.OnlyNew s' key receipt.id
  children : s'.children key.2.1 receipt.id = receipt.children
  rolled : ∀ sweep, s.sweeps.lookup sweep = none → s'.sweeps.lookup sweep ≠ none → s'.Rolled sweep

/-- **What a request does**: it is answered with what is saved under its key,
or it makes what it is answered with. -/
def Store.Serves (s s' : Store) (key : Uuid × Endpoint × String) (receipt : Receipt)
    (replayed : Bool) : Prop :=
  replayed = true ∧ s' = s ∧ s.receipt key = some receipt ∨
    replayed = false ∧ s.Makes s' key receipt

theorem lookupSubmission_receipt {project key : String} {x : Uuid × ProjectRow} {record : JobRecord}
    (hproject : projectNamed s project = some x)
    (h : lookupSubmission s project key requestHash = .ok record) :
    record.replayed = true ∧
      s.receipt (x.1, .jobs, key) = some ⟨requestHash, record.id, []⟩ := by
  simp only [lookupSubmission, bind_ok, orThrow_ok, require_ok, pure_ok] at h
  obtain ⟨y, hy, saved, hsaved, j, -, -, hhash, rfl⟩ := h
  obtain rfl := Option.mem_unique hproject hy
  refine ⟨rfl, ?_⟩
  rw [Store.receipt, hsaved, Option.map_some, hhash]
  rfl

theorem lookupSweepSubmission_receipt {project key : String} {x : Uuid × ProjectRow}
    {record : SweepRecord} (hproject : projectNamed s project = some x)
    (h : lookupSweepSubmission s project key requestHash = .ok record) :
    record.replayed = true ∧
      s.receipt (x.1, .sweeps, key) = some ⟨requestHash, record.id, record.childIDs⟩ := by
  simp only [lookupSweepSubmission, bind_ok, orThrow_ok, require_ok, pure_ok] at h
  obtain ⟨y, hy, saved, hsaved, row, -, -, hhash, rfl⟩ := h
  obtain rfl := Option.mem_unique hproject hy
  refine ⟨rfl, ?_⟩
  rw [Store.receipt, hsaved, Option.map_some, hhash]
  rfl

/-- **A submission of a job.** -/
theorem submitJobResolved_serves {key : String} {job : Job} {record : JobRecord}
    (h : submitJobResolved s now id key requestHash job bindings = .ok (s', record)) :
    ∃ x, projectNamed s job.metadata.project = some x ∧
      s.Serves s' (x.1, .jobs, key) ⟨requestHash, record.id, []⟩ record.replayed := by
  simp only [submitJobResolved, bind_ok, require_ok, orThrow_ok] at h
  obtain ⟨-, -, -, -, -, -, x, hproject, h⟩ := h
  refine ⟨x, hproject, ?_⟩
  split at h
  · simp only [bind_ok, pure_pair_ok] at h
    obtain ⟨_, hfound, rfl, rfl⟩ := h
    obtain ⟨hreplayed, hreceipt⟩ := lookupSubmission_receipt hproject hfound
    exact .inl ⟨hreplayed, rfl, hreceipt⟩
  · rename_i hfree
    simp only [bind_ok, pure_pair_ok] at h
    obtain ⟨-, -, -, -, admitted, hadmitted, bound, hbound, rfl, rfl⟩ := h
    have he := (insertInputs_binds (insertJob_enrols hadmitted) hbound).1
    have hjobs : bound.jobs = admitted.jobs := insertInputs_writes hbound .jobs (by decide)
    refine .inr ⟨rfl, hfree, ?_, ?_, ⟨he.sweeps, he.new, fun other hother => ?_⟩, rfl,
      fun sweep hnone hsome => ?_⟩
    · exact (insertInputs_writes hbound .idempotency (by decide)).trans
        (insertJob_writes hadmitted .idempotency (by decide))
    · intro hnone
      have hrow : bound.toLedger.jobs.lookup id = none := Store.toLedger_job_none.mpr hnone
      rw [he.jobs, Table.lookup_insert_ite, if_pos rfl] at hrow
      exact absurd hrow (by simp)
    · simp only [Store.insertJob, bind_ok, orThrow_ok, pure_ok] at hadmitted
      obtain ⟨-, -, jobs, hinsert, events, -, rfl⟩ := hadmitted
      obtain ⟨-, rfl⟩ := Table.insertNew_eq_some hinsert
      rw [hjobs]
      exact (Table.lookup_insert_ite ..).trans (if_neg hother)
    · exact absurd (he.sweeps ▸ hnone) hsome

/-- A sweep with its children, after its key and row. -/
theorem Store.Makes.sweep {α : Type} {f : Store → α × ℕ → Except StoreError Store} {l : List α}
    {row : SweepRow} {sweeps : Table Uuid SweepRow} {keyed : Store}
    (hfree : s.idempotency.lookup key = none) (hsweeps : s.sweeps.insertNew id row = some sweeps)
    (hkey : key.2.1 ≠ .jobs) (hmade : ∀ t : Store, t.sweeps.lookup id = some row → t.Made key id)
    (hchildren : ∀ t : Store, t.children key.2.1 id = sweepChildIDs t id)
    (hf : ∀ t x t', f t x = .ok t' → Enlists t t' id x.2 (fresh x.2))
    (hnone : ∀ i c, s.sweeps.lookup id = none → ¬ s.Child id i c) (hkeyed : keyed = { s with
      idempotency := AList.insert key ⟨requestHash, id⟩ s.idempotency
      sweeps := sweeps }) (h : l.zipIdx.foldlM f keyed = .ok s') :
    s.Makes s' key ⟨requestHash, id, (List.range l.length).map fresh⟩ := by
  obtain ⟨hid, rfl⟩ := Table.insertNew_eq_some hsweeps
  have hempty : ∀ i c, ¬ keyed.Child id i c := by
    rintro i c ⟨j, hj, hx⟩
    rw [hkeyed] at hj
    exact hnone i c hid ⟨j, hj, hx⟩
  obtain ⟨⟨hrows, hkeys⟩, hroll⟩ := enlist_all hf hempty h
  rw [hkeyed] at hrows hkeys
  have hrow : s'.sweeps.lookup id = some row := by
    rw [hrows]
    exact (Table.lookup_insert_ite ..).trans (if_pos rfl)
  refine ⟨hfree, hkeys, hmade s' hrow, ?_, ?_, fun sweep hnew hsome index c c' hc hc' => ?_⟩
  · rw [Store.OnlyNew, if_neg hkey]
    refine ⟨hid, fun other hother => ?_⟩
    rw [hrows]
    exact (Table.lookup_insert_ite ..).trans (if_neg hother)
  · rw [hchildren, sweepChildIDs_range hroll]
  · obtain rfl : sweep = id := by
      by_contra hne
      rw [hrows, Table.lookup_insert_ite, if_neg hne] at hsome
      exact hsome hnew
    exact ((hroll index c).mp hc).2.trans ((hroll index c').mp hc').2.symm

/-- **A submission of a sweep.** -/
theorem submitSweepResolved_serves {key : String} {sweep : Sweep} {record : SweepRecord}
    (hnone : ∀ sweep i c, s.sweeps.lookup sweep = none → ¬ s.Child sweep i c)
    (h : submitSweepResolved s now id fresh key requestHash sweep bindings = .ok (s', record)) :
    ∃ x, projectNamed s sweep.metadata.project = some x ∧
      s.Serves s' (x.1, .sweeps, key) ⟨requestHash, record.id, record.childIDs⟩
        record.replayed := by
  simp only [submitSweepResolved, bind_ok, require_ok, orThrow_ok] at h
  obtain ⟨-, -, children, -, -, -, x, hproject, h⟩ := h
  refine ⟨x, hproject, ?_⟩
  split at h
  · simp only [bind_ok, pure_pair_ok] at h
    obtain ⟨_, hfound, rfl, rfl⟩ := h
    obtain ⟨hreplayed, hreceipt⟩ := lookupSweepSubmission_receipt hproject hfound
    exact .inl ⟨hreplayed, rfl, hreceipt⟩
  · rename_i hfree
    simp only [bind_ok, orThrow_ok, pure_pair_ok] at h
    obtain ⟨-, -, -, -, -, -, sweeps, hsweeps, admitted, hadmitted, rfl, rfl⟩ := h
    refine .inr ⟨rfl, Store.Makes.sweep hfree hsweeps (by simp) (fun t ht => ?_) (fun _ => rfl)
      (fun t child t' hturn => insertChild_enlists hturn) (hnone id) rfl hadmitted⟩
    change t.sweeps.lookup id ≠ none
    simp [ht]

theorem sweepRetryChildren_ids (s : Store) (sweep : Uuid) :
    (sweepRetryChildren s sweep).map Prod.fst = sweepChildIDs s sweep := by
  rw [sweepRetryChildren, List.map_map]
  rfl

/-- **A retry of a sweep.** -/
theorem retrySweep_serves {sweep : Uuid} {key : String} {record : SweepRetryRecord}
    (hnone : ∀ sweep i c, s.sweeps.lookup sweep = none → ¬ s.Child sweep i c)
    (hhash : ∀ saved, s.idempotency.lookup (project, .retry sweep, key) = some saved →
      saved.requestHash = toString sweep)
    (h : retrySweep s now id fresh project sweep key = .ok (s', record)) :
    s.Serves s' (project, .retry sweep, key)
      ⟨toString sweep, record.id, record.children.map Prod.fst⟩ record.replayed := by
  simp only [retrySweep, bind_ok, require_ok] at h
  obtain ⟨-, -, h⟩ := h
  split at h
  · rename_i hfound
    obtain ⟨rfl, rfl⟩ := pure_pair_ok.mp h
    simp only [lookupSweepRetry, bind_ok, orThrow_ok, require_ok, pure_ok] at hfound
    obtain ⟨saved, hsaved, row, -, -, -, rfl⟩ := hfound
    refine .inl ⟨rfl, rfl, ?_⟩
    rw [Store.receipt, hsaved, Option.map_some, hhash saved hsaved, sweepRetryChildren_ids]
    rfl
  · simp only [bind_ok, orThrow_ok, require_ok, pure_pair_ok] at h
    obtain ⟨source, hsource, -, hproject, -, -, -, -, p, -, -, -, -, -, document, -, -, hfree, -, -,
      sweeps, hsweeps, admitted, hadmitted, rfl, rfl⟩ := h
    have hmakes := Store.Makes.sweep (Option.isNone_iff_eq_none.mp hfree) hsweeps
      (by simp) (fun t ht => ⟨_, ht, hproject, rfl⟩) (fun _ => rfl)
      (fun t x t' hturn => insertRetry_enlists hturn) (hnone id) rfl hadmitted
    have hchildren := (sweepRetryChildren_ids admitted id).trans hmakes.children
    refine .inr ⟨rfl, ?_⟩
    rw [hchildren]
    exact hmakes
  · exact absurd h (by simp)

/-! ## What stands -/

/-- **The keys of a store**: each names what was made under it, and the
children of every sweep have an index each. -/
structure Store.Keyed (s : Store) : Prop where
  rolled : ∀ sweep, s.sweeps.lookup sweep ≠ none → s.Rolled sweep
  made : ∀ key saved, s.idempotency.lookup key = some saved → s.Made key saved.response
  retries : ∀ project sweep key saved,
    s.idempotency.lookup (project, .retry sweep, key) = some saved →
    saved.requestHash = toString sweep

/-- The requests that create something under a key. -/
def Op.submits : Op → Bool
  | .submitJob .. => true
  | .submitSweep .. => true
  | .retrySweep .. => true
  | _ => false

/-- The key and the hash of a request. -/
def Op.keyed (s : Store) : Op → Option ((Uuid × Endpoint × String) × String)
  | .submitJob _ key requestHash job _ =>
    (projectNamed s job.metadata.project).map (fun x => ((x.1, .jobs, key), requestHash))
  | .submitSweep _ _ key requestHash sweep _ =>
    (projectNamed s sweep.metadata.project).map (fun x => ((x.1, .sweeps, key), requestHash))
  | .retrySweep _ _ project sweep key => some ((project, .retry sweep, key), toString sweep)
  | _ => none

/-- **A request that creates something** is answered with what its key names. -/
theorem Reachable.exec_serves (h : Reachable sha w) (hkeyed : w.store.Keyed)
    (hexec : op.exec sha w.store now = .ok (s', reply)) (hsubmits : op.submits = true) :
    ∃ key requestHash id children replayed, op.keyed w.store = some (key, requestHash) ∧
      reply.named = some (id, children) ∧
      w.store.Serves s' key ⟨requestHash, id, children⟩ replayed := by
  have hnone : ∀ sweep i c, w.store.sweeps.lookup sweep = none → ¬ w.store.Child sweep i c :=
    fun _ _ _ hsweep => h.not_child hsweep
  cases op with
  | submitJob id key requestHash job bindings =>
    simp only [Op.exec, bind_ok, pure_pair_ok] at hexec
    obtain ⟨⟨t, record⟩, hjob, rfl, rfl⟩ := hexec
    obtain ⟨x, hproject, hserves⟩ := submitJobResolved_serves hjob
    refine ⟨_, _, _, _, _, ?_, rfl, hserves⟩
    rw [Op.keyed, hproject]
    rfl
  | submitSweep id fresh key requestHash sweep bindings =>
    simp only [Op.exec, bind_ok, pure_pair_ok] at hexec
    obtain ⟨⟨t, record⟩, hsweep, rfl, rfl⟩ := hexec
    obtain ⟨x, hproject, hserves⟩ := submitSweepResolved_serves hnone hsweep
    refine ⟨_, _, _, _, _, ?_, rfl, hserves⟩
    rw [Op.keyed, hproject]
    rfl
  | retrySweep id fresh project sweep key =>
    simp only [Op.exec, bind_ok, pure_pair_ok] at hexec
    obtain ⟨⟨t, record⟩, hretry, rfl, rfl⟩ := hexec
    exact ⟨_, _, _, _, _, rfl, rfl,
      retrySweep_serves hnone (hkeyed.retries project sweep key) hretry⟩
  | _ => exact absurd hsubmits (by simp [Op.submits])

/-- No other transaction touches keys and sweeps. -/
theorem Op.exec_unkeyed (hexec : op.exec sha s now = .ok (s', reply))
    (hsubmits : op.submits = false) : s'.idempotency = s.idempotency ∧ s'.sweeps = s.sweeps := by
  constructor
  · refine op.exec_writes hexec .idempotency ?_
    cases op with
    | submitJob | submitSweep | retrySweep => exact absurd hsubmits (by simp [Op.submits])
    | _ => simp only [Op.footprint]; decide
  · refine op.exec_writes hexec .sweeps ?_
    cases op with
    | submitJob | submitSweep | retrySweep => exact absurd hsubmits (by simp [Op.submits])
    | _ => simp only [Op.footprint]; decide

/-- What was made stays. -/
theorem Store.Made.later (h : s.Made key id) (hlater : s.toLedger.Later s'.toLedger) :
    s'.Made key id := by
  obtain ⟨project, endpoint, name⟩ := key
  cases endpoint with
  | jobs =>
    obtain ⟨j, hj⟩ := Option.ne_none_iff_exists'.mp h
    obtain ⟨j', hj', -⟩ := hlater.jobs id _ (Store.toLedger_job hj)
    obtain ⟨k, hk, -⟩ := Store.job_of_toLedger hj'
    exact fun hnone => absurd (hk.symm.trans hnone) (by simp)
  | sweeps =>
    obtain ⟨row, hrow⟩ := Option.ne_none_iff_exists'.mp h
    exact fun hnone => absurd ((hlater.sweeps _ _ hrow).symm.trans hnone) (by simp)
  | retry sweep =>
    obtain ⟨row, hrow, hrest⟩ := h
    exact ⟨row, hlater.sweeps _ _ hrow, hrest⟩

/-- A sweep that was made is there. -/
theorem Store.Made.sweep (h : s.Made key id) (hkey : key.2.1 ≠ .jobs) : s.sweeps.lookup id ≠ none
    := by
  obtain ⟨project, endpoint, name⟩ := key
  cases endpoint with
  | jobs => exact absurd rfl hkey
  | sweeps => exact h
  | retry sweep =>
    obtain ⟨row, hrow, -⟩ := h
    simp [hrow]

/-- The hash of a retry is that of the sweep it names. -/
theorem Op.keyed_retry {sweep : Uuid} {key : String}
    (h : op.keyed s = some ((project, .retry sweep, key), requestHash)) :
    requestHash = toString sweep := by
  cases op with
  | submitJob | submitSweep =>
    rw [Op.keyed, Option.map_eq_some_iff] at h
    obtain ⟨x, -, hx⟩ := h
    simp only [Prod.mk.injEq, reduceCtorEq, false_and, and_false] at hx
  | retrySweep =>
    simp only [Op.keyed, Option.some.injEq, Prod.mk.injEq, Endpoint.retry.injEq] at h
    exact h.2 ▸ h.1.2.1 ▸ rfl
  | _ => exact absurd h (by simp [Op.keyed])

theorem Store.Keyed.step (hkeyed : w.store.Keyed) (h : Reachable sha w) (hle : w.clock ≤ now)
    (hexec : op.exec sha w.store now = .ok (s', reply)) : s'.Keyed := by
  have hlater := (h.exec_ledger hle hexec).later
  have hrolled : ∀ sweep, w.store.sweeps.lookup sweep ≠ none → s'.Rolled sweep := by
    intro sweep hsweep index id id' hid hid'
    exact hkeyed.rolled sweep hsweep index id id' ((h.exec_child hle hexec hsweep).mp hid)
      ((h.exec_child hle hexec hsweep).mp hid')
  cases hsubmits : op.submits with
  | false =>
    obtain ⟨hkeys, hsweeps⟩ := op.exec_unkeyed hexec hsubmits
    refine ⟨fun sweep hsweep => hrolled sweep (hsweeps ▸ hsweep), fun key saved hsaved => ?_, ?_⟩
    · exact (hkeyed.made key saved (hkeys ▸ hsaved)).later hlater
    · rw [hkeys]
      exact hkeyed.retries
  | true =>
    obtain ⟨key, requestHash, id, children, replayed, hkey, -, hserves⟩ :=
      h.exec_serves hkeyed hexec hsubmits
    obtain ⟨-, rfl, -⟩ | ⟨-, hmakes⟩ := hserves
    · exact hkeyed
    refine ⟨fun sweep hsweep => ?_, fun key' saved hsaved => ?_,
      fun project sweep name saved hsaved => ?_⟩
    · by_cases hold : w.store.sweeps.lookup sweep = none
      · exact hmakes.rolled sweep hold hsweep
      · exact hrolled sweep hold
    · rw [hmakes.keys, Table.lookup_insert_ite] at hsaved
      split_ifs at hsaved with heq
      · obtain rfl := Option.some.inj hsaved
        exact heq ▸ hmakes.made
      · exact (hkeyed.made key' saved hsaved).later hlater
    · rw [hmakes.keys, Table.lookup_insert_ite] at hsaved
      split_ifs at hsaved with heq
      · obtain rfl := Option.some.inj hsaved
        exact Op.keyed_retry (heq ▸ hkey)
      · exact hkeyed.retries project sweep name saved hsaved

/-- **Runs keep the keys in order.** -/
theorem Reachable.keyed (h : Reachable sha w) : w.store.Keyed := by
  induction h with
  | start projects workers credentials workerProjects clock =>
    exact ⟨fun _ hsweep => absurd rfl hsweep,
      fun _ _ hsaved => absurd hsaved (by simp [Store.provisioned]),
      fun _ _ _ _ hsaved => absurd hsaved (by simp [Store.provisioned])⟩
  | step hw hstep ih =>
    obtain ⟨hle, op, reply, hexec⟩ := hstep
    exact ih.step hw hle hexec

/-- The receipt of a key that stays is read alike. -/
theorem Reachable.exec_receipt (h : Reachable sha w) (hle : w.clock ≤ now)
    (hexec : op.exec sha w.store now = .ok (s', reply)) {saved : IdempotencyRow}
    (hsaved : w.store.idempotency.lookup key = some saved)
    (hkept : s'.idempotency.lookup key = some saved) : s'.receipt key = w.store.receipt key := by
  have hchildren : s'.children key.2.1 saved.response
      = w.store.children key.2.1 saved.response := by
    have hmade := h.keyed.made key saved hsaved
    have hsweep : key.2.1 ≠ .jobs →
        sweepChildIDs s' saved.response = sweepChildIDs w.store saved.response := by
      intro hkey
      have hsome := hmade.sweep hkey
      exact sweepChildIDs_congr (h.keyed.rolled _ hsome) fun _ _ => h.exec_child hle hexec hsome
    obtain ⟨project, endpoint, name⟩ := key
    cases endpoint with
    | jobs => rfl
    | sweeps => exact hsweep (by simp)
    | retry sweep => exact hsweep (by simp)
  rw [Store.receipt, Store.receipt, hkept, hsaved, Option.map_some, Option.map_some, hchildren]

/-- No key is taken back. -/
theorem Reachable.exec_extends (h : Reachable sha w)
    (hexec : op.exec sha w.store now = .ok (s', reply)) :
    w.store.idempotency.Extends s'.idempotency := by
  cases hsubmits : op.submits with
  | false => exact (op.exec_unkeyed hexec hsubmits).1 ▸ .refl _
  | true =>
    obtain ⟨key, requestHash, id, children, replayed, -, -, hserves⟩ :=
      h.exec_serves h.keyed hexec hsubmits
    obtain ⟨-, rfl, -⟩ | ⟨-, hmakes⟩ := hserves
    · exact .refl _
    · exact hmakes.keys ▸ .insert _ hmakes.free

/-- **A receipt stands.** -/
theorem Reachable.receipt_stands (h : Reachable sha w) (hle : w.clock ≤ now)
    (hexec : op.exec sha w.store now = .ok (s', reply)) (hv : w.store.receipt key = some v) :
    s'.receipt key = some v := by
  have hsaved := (Store.receipt_eq_some.mp hv).1
  exact (h.exec_receipt hle hexec hsaved (h.exec_extends hexec _ _ hsaved)).trans hv

/-- Without a submission there are no new receipts. -/
theorem Reachable.receipt_same (h : Reachable sha w) (hle : w.clock ≤ now)
    (hexec : op.exec sha w.store now = .ok (s', reply)) (hsubmits : op.submits = false) :
    s'.receipt = w.store.receipt := by
  funext key
  have hkeys := (op.exec_unkeyed hexec hsubmits).1
  cases hv : w.store.receipt key with
  | none => rw [Store.receipt_eq_none, hkeys, ← Store.receipt_eq_none, hv]
  | some v => exact h.receipt_stands hle hexec hv

/-- **A creation adds its own receipt** and no other. -/
theorem Reachable.receipt_made (h : Reachable sha w) (hle : w.clock ≤ now)
    (hexec : op.exec sha w.store now = .ok (s', reply)) (hmakes : w.store.Makes s' key v) :
    s'.receipt = Function.update w.store.receipt key (some v) := by
  funext key'
  by_cases hkey : key' = key
  · subst hkey
    rw [Function.update_self, Store.receipt_eq_some, hmakes.keys]
    exact ⟨(Table.lookup_insert_ite ..).trans (if_pos rfl), hmakes.children⟩
  · rw [Function.update_of_ne hkey]
    cases hv : w.store.receipt key' with
    | none =>
      rw [Store.receipt_eq_none, hmakes.keys, Table.lookup_insert_ite, if_neg hkey,
        ← Store.receipt_eq_none, hv]
    | some v => exact h.receipt_stands hle hexec hv

end Dispatch
