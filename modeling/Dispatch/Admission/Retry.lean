import Dispatch.Admission.Keys
import Dispatch.Spec.Expansion

/-!
# The retry of a sweep

A retry makes a sweep of its own from the children of a finished sweep that did
not succeed. It copies rows: the documents, the columns read from them and the
bindings of the inputs, under new identifiers and with indices counted from zero
in the order of the old ones. Nothing of the source is written.

`insertRetry` is one turn of that copy. What it leaves alone is what the later
turns need, so the copy of all children is read off after the last turn
(`retried_all`); `RetryCopies` is what the whole request then amounts to.
-/

namespace Dispatch

open Txn

variable {sha : Uuid → ℕ} {now : Time} {s s' : Store} {source sweep : Uuid} {fresh : ℕ → Uuid}

variable {x : (Uuid × JobRow) × ℕ} {t : Store} {w' : World}

/-! ## One child -/

/-- The bindings of a parent that are copied. -/
def parentInputs (s : Store) (x : (Uuid × JobRow) × ℕ) (position : ℕ) : Option JobInputRow :=
  (s.jobInputs.lookup (x.1.1, position)).filter (fun r => decide (r.project = x.1.2.project))

theorem insertRetry_jobs
    (h : insertRetry now source sweep fresh s x = .ok s') :
    s.jobs.lookup (fresh x.2) = none ∧
      s'.jobs = AList.insert (fresh x.2) (retriedRow now sweep x) s.jobs := by
  simp only [insertRetry, bind_ok] at h
  obtain ⟨admitted, hadmitted, hcopied⟩ := h
  have hjobs : s'.jobs = admitted.jobs := by
    refine foldlM_invariant (fun u : Store => u.jobs = admitted.jobs) rfl
      (fun u y u' _ hu hturn => ?_) hcopied
    obtain ⟨-, rfl⟩ := copyInput_eq_ok hturn
    exact hu
  simp only [Store.insertJob, bind_ok, orThrow_ok, pure_ok] at hadmitted
  obtain ⟨-, -, jobs, hinsert, events, -, rfl⟩ := hadmitted
  obtain ⟨hfree, rfl⟩ := Table.insertNew_eq_some hinsert
  exact ⟨hfree, hjobs⟩

/-- **A child gets the bindings of its parent**, and no other job gets any. -/
theorem insertRetry_inputs
    (h : insertRetry now source sweep fresh s x = .ok s')
    (hnone : ∀ position, s.jobInputs.lookup (fresh x.2, position) = none) (k : Uuid × ℕ) :
    s'.jobInputs.lookup k =
      if k.1 = fresh x.2 then parentInputs s x k.2 else s.jobInputs.lookup k := by
  obtain ⟨⟨parent, j⟩, index⟩ := x
  simp only [insertRetry, bind_ok] at h
  obtain ⟨admitted, hadmitted, hcopied⟩ := h
  have hsame : admitted.jobInputs = s.jobInputs := by
    simp only [Store.insertJob, bind_ok, pure_ok] at hadmitted
    obtain ⟨-, -, jobs, -, events, -, rfl⟩ := hadmitted
    rfl
  have hmem : ∀ {k r}, (k, r) ∈ s.jobInputs.select
      (fun k r => decide (k.1 = parent) && decide (r.project = j.project)) ↔
      s.jobInputs.lookup k = some r ∧ k.1 = parent ∧ r.project = j.project := by
    intro k r
    rw [Table.mem_select, Bool.and_eq_true, decide_eq_true_eq, decide_eq_true_eq]
  -- What is there afterwards was there before or was copied; what was copied is there.
  have hfrom : ∀ k r, s'.jobInputs.lookup k = some r →
      s.jobInputs.lookup k = some r ∨
        k.1 = fresh index ∧ parentInputs s ((parent, j), index) k.2 = some r := by
    refine foldlM_invariant (fun u : Store => ∀ k r, u.jobInputs.lookup k = some r →
      s.jobInputs.lookup k = some r ∨
        k.1 = fresh index ∧ parentInputs s ((parent, j), index) k.2 = some r)
      (fun k r hr => .inl (hsame ▸ hr)) (fun u y u' hy hu hturn k r hr => ?_) hcopied
    obtain ⟨-, rfl⟩ := copyInput_eq_ok hturn
    rw [Table.lookup_insert_ite] at hr
    split_ifs at hr with hk
    · obtain ⟨⟨parent', position⟩, row⟩ := y
      obtain ⟨hrow, rfl, hproject⟩ := hmem.mp hy
      obtain rfl := Option.some.inj hr
      refine .inr ⟨congrArg Prod.fst hk, ?_⟩
      rw [show k.2 = position from congrArg Prod.snd hk]
      exact Option.filter_eq_some_iff.mpr ⟨hrow, decide_eq_true hproject⟩
    · exact hu k r hr
  have hkept : s.jobInputs.Extends s'.jobInputs := by
    refine foldlM_invariant (fun u : Store => s.jobInputs.Extends u.jobInputs)
      (hsame ▸ .refl _) (fun u y u' _ hu hturn => ?_) hcopied
    obtain ⟨hfree, rfl⟩ := copyInput_eq_ok hturn
    exact hu.trans (.insert _ hfree)
  have hcopies : ∀ y ∈ s.jobInputs.select
      (fun k r => decide (k.1 = parent) && decide (r.project = j.project)),
      s'.jobInputs.lookup (fresh index, y.1.2) = some y.2 := by
    refine foldlM_forall (fun y (u : Store) => u.jobInputs.lookup (fresh index, y.1.2) = some y.2)
      (fun u y u' hturn => ?_) (fun u y u' hturn z hz => ?_) hcopied
    all_goals obtain ⟨hfree, rfl⟩ := copyInput_eq_ok hturn
    · exact (Table.lookup_insert_ite ..).trans (if_pos rfl)
    · exact Table.Extends.insert _ hfree _ _ hz
  refine Option.ext fun r => ⟨fun hr => ?_, fun hr => ?_⟩
  · obtain hold | ⟨hk, hparent⟩ := hfrom k r hr
    · have hk : k.1 ≠ fresh index := fun hk => by
        have hfree := hnone k.2
        rw [← hk, show (k.1, k.2) = k from rfl, hold] at hfree
        exact absurd hfree (by simp)
      rwa [if_neg hk]
    · rwa [if_pos hk]
  · split_ifs at hr with hk
    · obtain ⟨hrow, hproject⟩ := Option.filter_eq_some_iff.mp hr
      have hcopy := hcopies ((parent, k.2), r) (hmem.mpr ⟨hrow, rfl, of_decide_eq_true hproject⟩)
      rwa [show (fresh index, k.2) = k from Prod.ext hk.symm rfl] at hcopy
    · exact hkept k r hr

/-! ## All children -/

/-- **What the turns of a retry keep**: rows that were there, and no binding
without its job. -/
structure Retrying (s t : Store) : Prop where
  jobs : s.jobs.Extends t.jobs
  inputs : ∀ k, s.jobs.lookup k.1 ≠ none → t.jobInputs.lookup k = s.jobInputs.lookup k
  known : ∀ k r, t.jobInputs.lookup k = some r → t.jobs.lookup k.1 ≠ none

theorem Retrying.fresh_inputs (h : Retrying s t) {id : Uuid}
    (hid : t.jobs.lookup id = none) (position : ℕ) : t.jobInputs.lookup (id, position) = none := by
  by_contra hsome
  obtain ⟨r, hr⟩ := Option.ne_none_iff_exists'.mp hsome
  exact h.known _ r hr hid

theorem Retrying.step {t' : Store} (h : Retrying s t)
    (hturn : insertRetry now source sweep fresh t x = .ok t') : Retrying s t' := by
  obtain ⟨hfree, hjobs⟩ := insertRetry_jobs hturn
  have hinputs := insertRetry_inputs hturn (h.fresh_inputs hfree)
  refine ⟨?_, fun k hk => ?_, fun k r hr => ?_⟩
  · rw [hjobs]
    exact h.jobs.trans (.insert _ hfree)
  · have hne : k.1 ≠ fresh x.2 := by
      intro heq
      obtain ⟨j, hj⟩ := Option.ne_none_iff_exists'.mp hk
      exact absurd ((h.jobs _ _ hj).symm.trans (heq ▸ hfree)) (by simp)
    rw [hinputs, if_neg hne, h.inputs k hk]
  · rw [hjobs, Table.lookup_insert_ite]
    split_ifs with hk
    · simp
    · rw [hinputs, if_neg hk] at hr
      exact h.known k r hr

/-- **Every child is a copy of its parent**, after the last turn. -/
theorem retried_all {parents : List (Uuid × JobRow)}
    (h : parents.zipIdx.foldlM (insertRetry now source sweep fresh) s = .ok s')
    (hknown : ∀ k r, s.jobInputs.lookup k = some r → s.jobs.lookup k.1 ≠ none)
    (hparents : ∀ x ∈ parents, s.jobs.lookup x.1 = some x.2) :
    Retrying s s' ∧ ∀ x ∈ parents.zipIdx, s.jobs.lookup (fresh x.2) = none ∧
      s'.jobs.lookup (fresh x.2) = some (retriedRow now sweep x) ∧
      ∀ position, s'.jobInputs.lookup (fresh x.2, position) = parentInputs s x position := by
  have hstart : Retrying s s := ⟨.refl _, fun _ _ => rfl, hknown⟩
  refine ⟨foldlM_invariant (Retrying s) hstart (fun t x t' _ ht hturn => ht.step hturn) h,
    foldlM_forall_of (Retrying s) (fun x (t : Store) => s.jobs.lookup (fresh x.2) = none ∧
      t.jobs.lookup (fresh x.2) = some (retriedRow now sweep x) ∧
      ∀ position, t.jobInputs.lookup (fresh x.2, position) = parentInputs s x position) hstart
    (fun t x t' _ ht hturn => ht.step hturn) (fun t x t' hx ht hturn => ?_)
    (fun t x t' ht hturn y hy => ?_) h⟩
  · obtain ⟨hfree, hjobs⟩ := insertRetry_jobs hturn
    refine ⟨?_, ?_, fun position => ?_⟩
    · by_contra hsome
      obtain ⟨j, hj⟩ := Option.ne_none_iff_exists'.mp hsome
      exact absurd ((ht.jobs _ _ hj).symm.trans hfree) (by simp)
    · rw [hjobs, Table.lookup_insert_ite, if_pos rfl]
    · have hparent := hparents x.1 (List.fst_mem_of_mem_zipIdx hx)
      rw [insertRetry_inputs hturn (ht.fresh_inputs hfree), if_pos rfl, parentInputs, parentInputs,
        ht.inputs (x.1.1, position) (by simp [hparent])]
  · obtain ⟨hfree, hjobs⟩ := insertRetry_jobs hturn
    have hne : fresh y.2 ≠ fresh x.2 := fun heq =>
      absurd (hy.2.1.symm.trans (heq ▸ hfree)) (by simp)
    refine ⟨hy.1, ?_, fun position => ?_⟩
    · rw [hjobs, Table.lookup_insert_ite, if_neg hne, hy.2.1]
    · rw [insertRetry_inputs hturn (ht.fresh_inputs hfree), if_neg hne, hy.2.2]

/-! ## The children of a sweep -/

/-- **A sweep has the children it was made with**: as many as its row says, one at
each index, all in its project. -/
structure SweepRow.Staffed (s : Store) (sweep : Uuid) (row : SweepRow) : Prop where
  count : 1 ≤ row.childCount ∧ row.childCount ≤ maxSweepJobs
  indices : ∀ i, (∃ c, s.Child sweep i c) ↔ i < row.childCount
  project : ∀ c j i, s.jobs.lookup c = some j → j.sweep = some (sweep, i) → j.project = row.project

/-- One more child of a project. -/
theorem Enrols.project {t' : Store} {id sweep project : Uuid} {row : JobRow}
    (h : Enrols t t' id row) (hrow : row.project = project)
    (ht : ∀ c j i, t.jobs.lookup c = some j → j.sweep = some (sweep, i) → j.project = project) :
    ∀ c j i, t'.jobs.lookup c = some j → j.sweep = some (sweep, i) → j.project = project := by
  intro c j i hj hsweep
  have hfound := Store.toLedger_job hj
  rw [h.jobs, Table.lookup_insert_ite] at hfound
  split_ifs at hfound with hc
  · have hsame := Option.some.inj hfound
    exact (congrArg JobRow.project hsame).symm.trans hrow
  · obtain ⟨k, hk, hsame⟩ := Store.job_of_toLedger hfound
    have hproject := ht c k i hk ((congrArg JobRow.sweep hsame).symm.trans hsweep)
    exact (congrArg JobRow.project hsame).trans hproject

/-- A sweep that was just made is staffed. -/
theorem SweepRow.Staffed.made {α : Type} {f : Store → α × ℕ → Except StoreError Store}
    {l : List α} {id : Uuid} {row : SweepRow} {keyed : Store}
    (h : l.zipIdx.foldlM f keyed = .ok s')
    (hf : ∀ t x t', f t x = .ok t' → Enlists t t' id x.2 (fresh x.2))
    (hproject : ∀ t x t', x ∈ l.zipIdx → f t x = .ok t' →
      ∃ c r, Enrols t t' c r ∧ r.project = row.project)
    (hnone : ∀ sweep i c, s.sweeps.lookup sweep = none → ¬ s.Child sweep i c)
    (hid : s.sweeps.lookup id = none) (hjobs : keyed.jobs = s.jobs)
    (hcount : row.childCount = l.length) (hbounds : 1 ≤ l.length ∧ l.length ≤ maxSweepJobs) :
    s'.sweeps = keyed.sweeps ∧ row.Staffed s' id := by
  have hnone : ∀ i c, ¬ keyed.Child id i c := by
    rintro i c ⟨j, hj, hx⟩
    exact hnone id i c hid ⟨j, hjobs ▸ hj, hx⟩
  obtain ⟨⟨hsweeps, -⟩, hroll⟩ := enlist_all hf hnone h
  refine ⟨hsweeps, hcount ▸ hbounds, fun i => ?_, ?_⟩
  · rw [hcount]
    exact ⟨fun ⟨c, hc⟩ => ((hroll i c).mp hc).1, fun hi => ⟨fresh i, (hroll i _).mpr ⟨hi, rfl⟩⟩⟩
  · refine foldlM_invariant (fun t : Store => ∀ c j i, t.jobs.lookup c = some j →
      j.sweep = some (id, i) → j.project = row.project)
      (fun c j i hj hx => absurd ⟨j, hj, hx⟩ (hnone i c)) (fun t x t' hx ht hturn => ?_) h
    obtain ⟨c, r, henrols, hr⟩ := hproject t x t' hx hturn
    exact henrols.project hr ht

/-- The children that a retry takes over, in their order. -/
def unsuccessful (s : Store) (sweep : Uuid) : List (Uuid × JobRow) :=
  (sweepChildren s sweep).filter (fun x =>
    decide (x.2.state = .failed) || decide (x.2.state = .cancelled))

/-- The children of the sweep in a project. -/
def childrenIn (s : Store) (project sweep : Uuid) : List (Uuid × JobRow) :=
  (sweepChildren s sweep).filter (fun x => decide (x.2.project = project))

/-- Those of them that a retry takes over. -/
def parentsIn (s : Store) (project sweep : Uuid) : List (Uuid × JobRow) :=
  (childrenIn s project sweep).filter (fun x =>
    decide (x.2.state = .failed) || decide (x.2.state = .cancelled))

/-- The row of a sweep that retries another. -/
def SweepRow.retry (source : SweepRow) (now : Time) (sweep : Uuid) (document : SweepDocument)
    (count : ℕ) : SweepRow :=
  { source with
    parentSweep := some sweep
    spec := document
    childCount := count
    createdAt := now }

/-- The store of a retry before its children. -/
def Store.keyRetry (s : Store) (id project sweep : Uuid) (key : String) (row : SweepRow) : Store :=
  { s with
    idempotency := AList.insert (project, .retry sweep, key) ⟨toString sweep, id⟩ s.idempotency
    sweeps := AList.insert id row s.sweeps }

/-- **A retry that makes something**: what it found, and what it did. -/
structure Retries (s s' : Store) (now : Time) (id : Uuid) (fresh : ℕ → Uuid) (project sweep : Uuid)
    (key : String) (source : SweepRow) (document : SweepDocument) : Prop where
  named : project ≠ 0
  found : s.sweeps.lookup sweep = some source
  owned : source.project = project
  whole : (childrenIn s project sweep).length = source.childCount ∧
    1 ≤ (childrenIn s project sweep).length ∧ (childrenIn s project sweep).length ≤ maxSweepJobs
  finished : (∀ x ∈ childrenIn s project sweep, x.2.state.isTerminal = true) ∧
    parentsIn s project sweep ≠ []
  extended : retrySweepSpec source.spec sweep ((parentsIn s project sweep).map Prod.fst)
    = .ok document
  newKey : s.idempotency.lookup (project, .retry sweep, key) = none
  newSweep : s.sweeps.lookup id = none
  copied : (parentsIn s project sweep).zipIdx.foldlM (insertRetry now sweep id fresh)
    (s.keyRetry id project sweep key (source.retry now sweep document
      (parentsIn s project sweep).length)) = .ok s'

/-- **What a retry does**: it finds the one it made before, or makes one. -/
theorem retrySweep_cases {id project : Uuid} {key : String} {record : SweepRetryRecord}
    (h : retrySweep s now id fresh project sweep key = .ok (s', record)) :
    lookupSweepRetry s project sweep key = .ok record ∧ s' = s ∨
      ∃ source document, Retries s s' now id fresh project sweep key source document ∧
        record = ⟨id, project, sweep, document, source.maxConcurrent, sweepRetryChildren s' id, now,
          false⟩ := by
  simp only [retrySweep, bind_ok, require_ok] at h
  obtain ⟨-, hcanonical, h⟩ := h
  split at h
  · rename_i saved hfound
    obtain ⟨rfl, rfl⟩ := pure_pair_ok.mp h
    exact .inl ⟨hfound, rfl⟩
  · simp only [bind_ok, orThrow_ok, require_ok, pure_pair_ok] at h
    obtain ⟨source, hsource, -, howned, -, hwhole, -, hfinished, p, -, -, -, -, -, document,
      hdocument, -, hfree, -, -, sweeps, hsweeps, admitted, hadmitted, rfl, rfl⟩ := h
    obtain ⟨hnew, rfl⟩ := Table.insertNew_eq_some hsweeps
    exact .inr ⟨source, document, ⟨of_decide_eq_true hcanonical.1, hsource, howned, hwhole,
      hfinished, hdocument, Option.isNone_iff_eq_none.mp hfree, hnew, hadmitted⟩, rfl⟩
  · exact absurd h (by simp)

theorem retrySweep_made {id project : Uuid} {key : String} {record : SweepRetryRecord}
    (h : retrySweep s now id fresh project sweep key = .ok (s', record))
    (hnew : record.replayed = false) :
    ∃ source document, Retries s s' now id fresh project sweep key source document ∧
      record = ⟨id, project, sweep, document, source.maxConcurrent, sweepRetryChildren s' id, now,
        false⟩ := by
  obtain ⟨hfound, -⟩ | hmade := retrySweep_cases h
  · simp only [lookupSweepRetry, bind_ok, pure_ok] at hfound
    obtain ⟨_, -, _, -, _, -, rfl⟩ := hfound
    exact absurd hnew (by simp)
  · exact hmade

/-- A sweep submission that makes something. -/
theorem submitSweepResolved_staffed {id : Uuid} {key requestHash : String} {sw : Sweep}
    {bindings : List DatasetBinding} {record : SweepRecord}
    (hnone : ∀ sweep i c, s.sweeps.lookup sweep = none → ¬ s.Child sweep i c)
    (h : submitSweepResolved s now id fresh key requestHash sw bindings = .ok (s', record)) :
    s'.sweeps = s.sweeps ∨ ∃ row, s'.sweeps = AList.insert id row s.sweeps ∧ row.Staffed s' id := by
  simp only [submitSweepResolved, bind_ok, require_ok, orThrow_ok] at h
  obtain ⟨-, -, children, hexpand, -, -, x, -, h⟩ := h
  split at h
  · simp only [bind_ok, pure_pair_ok] at h
    obtain ⟨-, -, rfl, -⟩ := h
    exact .inl rfl
  · simp only [bind_ok, orThrow_ok, pure_pair_ok] at h
    obtain ⟨-, -, -, -, -, -, sweeps, hsweeps, admitted, hadmitted, rfl, -⟩ := h
    obtain ⟨hfree, rfl⟩ := Table.insertNew_eq_some hsweeps
    refine .inr ⟨_, SweepRow.Staffed.made hadmitted (fun t y t' hturn => insertChild_enlists hturn)
      (fun t y t' _ hturn => ?_) hnone hfree rfl rfl
      (Sweep.length_expand (toOption_eq_some.mp hexpand))⟩
    simp only [insertChild, bind_ok] at hturn
    obtain ⟨-, -, inserted, hinserted, hbound⟩ := hturn
    exact ⟨_, _, (insertInputs_binds (insertJob_enrols hinserted) hbound).1, rfl⟩

/-- What a retry writes beside jobs and bindings, and the places it fills. -/
theorem Retries.enlisted {id project : Uuid} {key : String} {row : SweepRow}
    {document : SweepDocument} (h : Retries s s' now id fresh project sweep key row document)
    (hnone : ∀ sweep i c, s.sweeps.lookup sweep = none → ¬ s.Child sweep i c) :
    s'.sweeps = AList.insert id (row.retry now sweep document (parentsIn s project sweep).length)
        s.sweeps ∧
      s'.idempotency
        = AList.insert (project, .retry sweep, key) ⟨toString sweep, id⟩ s.idempotency ∧
      ∀ i c, s'.Child id i c ↔ i < (parentsIn s project sweep).length ∧ c = fresh i := by
  have hempty : ∀ i c, ¬ (s.keyRetry id project sweep key (row.retry now sweep document
      (parentsIn s project sweep).length)).Child id i c := fun i c => hnone id i c h.newSweep
  obtain ⟨⟨hsweeps, hkeys⟩, hroll⟩ :=
    enlist_all (fun t y t' hturn => insertRetry_enlists hturn) hempty h.copied
  exact ⟨hsweeps, hkeys, hroll⟩

theorem Retries.staffed {id project : Uuid} {key : String} {row : SweepRow}
    {document : SweepDocument} (h : Retries s s' now id fresh project sweep key row document)
    (hnone : ∀ sweep i c, s.sweeps.lookup sweep = none → ¬ s.Child sweep i c) :
    (row.retry now sweep document (parentsIn s project sweep).length).Staffed s' id := by
  have hlength : (parentsIn s project sweep).length ≤ maxSweepJobs :=
    (List.length_filter_le _ _).trans h.whole.2.2
  refine (SweepRow.Staffed.made h.copied (fun t y t' hturn => insertRetry_enlists hturn)
    (fun t y t' hy hturn => ?_) hnone h.newSweep rfl rfl
    ⟨List.length_pos_iff.mpr h.finished.2, hlength⟩).2
  have hmem := List.mem_of_mem_filter (List.fst_mem_of_mem_zipIdx hy)
  have hproject : y.1.2.project = project := of_decide_eq_true (List.mem_filter.mp hmem).2
  exact ⟨_, _, insertRetry_enrols hturn, hproject.trans h.owned.symm⟩

/-- **Runs keep sweeps staffed.** -/
theorem Reachable.staffed {w : World} (h : Reachable sha w) {sweep : Uuid} {row : SweepRow}
    (hrow : w.store.sweeps.lookup sweep = some row) : row.Staffed w.store sweep := by
  induction h generalizing sweep row with
  | start projects workers credentials workerProjects clock =>
    exact absurd hrow (by simp [Store.provisioned])
  | @step w w' hw hstep ih =>
    obtain ⟨hle, op, reply, hexec⟩ := hstep
    have hnone : ∀ sweep i c, w.store.sweeps.lookup sweep = none → ¬ w.store.Child sweep i c :=
      fun _ _ _ hsweep => hw.not_child hsweep
    -- A sweep that was there has the children it had.
    have hold : ∀ sweep row, w.store.sweeps.lookup sweep = some row →
        row.Staffed w'.store sweep := by
      intro sweep row hrow
      have hstaffed := ih hrow
      have hsome : w.store.sweeps.lookup sweep ≠ none := by simp [hrow]
      refine ⟨hstaffed.count, fun i => ?_, fun c j i hj hx => ?_⟩
      · rw [← hstaffed.indices i]
        exact exists_congr fun c => hw.exec_child hle hexec hsome
      · obtain ⟨k, hk, hx'⟩ := (hw.exec_child hle hexec hsome).mp ⟨j, hj, hx⟩
        obtain ⟨j', hj', hlater⟩ :=
          (hw.exec_ledger hle hexec).later.jobs c _ (Store.toLedger_job hk)
        have hsame := Option.some.inj (hj'.symm.trans (Store.toLedger_job hj))
        have hproject : j.project = k.project :=
          (congrArg JobRow.project hsame).symm.trans hlater.project
        exact hproject.trans (hstaffed.project c k i hk hx')
    have hnew : w'.store.sweeps = w.store.sweeps ∨ ∃ id row,
        w'.store.sweeps = AList.insert id row w.store.sweeps ∧ row.Staffed w'.store id := by
      cases op with
      | submitJob id key requestHash job bindings =>
        simp only [Op.exec, bind_ok, pure_pair_ok] at hexec
        obtain ⟨⟨t, record⟩, hjob, rfl, -⟩ := hexec
        obtain ⟨x, -, ⟨-, hsame, -⟩ | ⟨-, hmakes⟩⟩ := submitJobResolved_serves hjob
        · exact .inl (congrArg Store.sweeps hsame)
        · have honly := hmakes.only
          rw [Store.OnlyNew, if_pos rfl] at honly
          exact .inl honly.1
      | submitSweep id fresh key requestHash sweep bindings =>
        simp only [Op.exec, bind_ok, pure_pair_ok] at hexec
        obtain ⟨⟨t, record⟩, hsweep, rfl, -⟩ := hexec
        exact (submitSweepResolved_staffed hnone hsweep).imp_right fun hmade => ⟨_, hmade⟩
      | retrySweep id fresh project sweep key =>
        simp only [Op.exec, bind_ok, pure_pair_ok] at hexec
        obtain ⟨⟨t, record⟩, hretry, rfl, -⟩ := hexec
        obtain ⟨-, hsame⟩ | ⟨source, document, hretries, -⟩ := retrySweep_cases hretry
        · exact .inl (congrArg Store.sweeps hsame)
        · exact .inr ⟨_, _, (hretries.enlisted hnone).1, hretries.staffed hnone⟩
      | _ => exact .inl (Op.exec_unkeyed hexec rfl).2
    obtain hsame | ⟨id, made, hmade, hstaffed⟩ := hnew
    · exact hold sweep row (hsame ▸ hrow)
    · rw [hmade, Table.lookup_insert_ite] at hrow
      split_ifs at hrow with hid
      · obtain rfl := Option.some.inj hrow
        exact hid ▸ hstaffed
      · exact hold sweep row hrow

/-! ## The copy -/

/-- The children of a sweep by their identifiers. -/
theorem sweepChildren_eq (s : Store) (sweep : Uuid) : sweepChildren s sweep =
    (sweepChildIDs s sweep).filterMap (fun c => (s.jobs.lookup c).map (fun j => (c, j))) := by
  rw [sweepChildIDs, List.filterMap_map]
  have hrow : ∀ x ∈ sweepChildren s sweep,
      ((s.jobs.lookup x.1).map (fun j => (x.1, j))) = some x := by
    intro x hx
    rw [mem_sweepChildren hx, Option.map_some]
  exact ((List.filterMap_congr hrow).trans List.filterMap_some).symm

/-- **The children of a sweep stay as they are listed**, while no child is added
and their rows keep what is read of them. -/
theorem sweepChildren_congr {β : Type} {f : Uuid × JobRow → β} (hrolled : s.Rolled sweep)
    (hsame : ∀ index id, s'.Child sweep index id ↔ s.Child sweep index id)
    (hrows : ∀ id j, s.jobs.lookup id = some j →
      ∃ j', s'.jobs.lookup id = some j' ∧ f (id, j') = f (id, j)) :
    (sweepChildren s' sweep).map f = (sweepChildren s sweep).map f := by
  rw [sweepChildren_eq, sweepChildren_eq, sweepChildIDs_congr hrolled hsame, List.map_filterMap,
    List.map_filterMap]
  refine List.filterMap_congr fun c hc => ?_
  obtain ⟨x, hx, rfl⟩ := List.mem_map.mp hc
  have hj := mem_sweepChildren hx
  obtain ⟨j', hj', hf⟩ := hrows x.1 x.2 hj
  rw [hj, hj', Option.map_some, Option.map_some, Option.map_some, Option.map_some, hf]

/-- The place of a child in its sweep. -/
def JobRow.index (j : JobRow) : ℕ := (j.sweep.map Prod.snd).getD 0

/-- **A fresh copy of a job**, at a place of a new sweep. -/
structure JobRow.CopyOf (child : JobRow) (parent : Uuid) (j : JobRow)
    (place : Uuid × ℕ) : Prop where
  project : child.project = j.project
  parent : child.parentJob = some parent
  spec : child.spec = j.spec
  specHash : child.specHash = j.specHash
  resources : child.resources = j.resources
  priority : child.priority = j.priority
  place : child.sweep = some place
  state : child.state = .queued
  attempts : child.attemptCounter = 0
  current : child.currentAttempt = none
  uncancelled : child.cancelRequested = false

/-- **What a retry of a sweep amounts to.** -/
structure RetryCopies (s s' : Store) (sweep : Uuid) (record : SweepRetryRecord) : Prop where
  /-- The source is finished, and some child did not succeed. -/
  finished : (∀ x ∈ sweepChildren s sweep, x.2.state.isTerminal = true) ∧ unsuccessful s sweep ≠ []
  /-- Its children are listed in the strict order of their indices. -/
  ordered : (sweepChildren s sweep).Pairwise (fun x y => x.2.index < y.2.index)
  /-- The sweep is new and names its source. -/
  made : s.sweeps.lookup record.id = none ∧
    ∃ row, s'.sweeps.lookup record.id = some row ∧ row.parentSweep = some sweep
  /-- There is one child for each child that did not succeed. -/
  length : (sweepChildren s' record.id).length = (unsuccessful s sweep).length
  /-- The child at each place is a fresh copy with the same bindings, of the child that has this
  place among those that did not succeed. -/
  copies : ∀ (i : ℕ) (parent : Uuid) (j : JobRow), (unsuccessful s sweep)[i]? = some (parent, j) →
    ∃ child row, (sweepChildren s' record.id)[i]? = some (child, row) ∧
      row.CopyOf parent j (record.id, i) ∧ s.jobs.lookup child = none ∧
      (∀ a x, s'.attempts.lookup a = some x → x.job ≠ child) ∧
      ∀ position, s'.jobInputs.lookup (child, position) = s.jobInputs.lookup (parent, position)
  /-- The answer lists the children with their places and parents. -/
  answer : record.children =
    (sweepChildren s' record.id).map (fun x => (x.1, x.2.index, x.2.parentJob))
  /-- Nothing of the source is changed, nor of any other job. -/
  unchanged : s'.sweeps.lookup sweep = s.sweeps.lookup sweep ∧
    sweepChildren s' sweep = sweepChildren s sweep ∧
    ∀ job j, s.jobs.lookup job = some j → s'.jobs.lookup job = some j ∧
      ∀ position, s'.jobInputs.lookup (job, position) = s.jobInputs.lookup (job, position)

section Copy

variable {w : World} {id project : Uuid} {key : String} {row : SweepRow} {document : SweepDocument}
  {record : SweepRetryRecord}

/-- All children of a sweep are in its project. -/
theorem Reachable.childrenIn_eq (h : Reachable sha w)
    (hrow : w.store.sweeps.lookup sweep = some row) :
    childrenIn w.store row.project sweep = sweepChildren w.store sweep := by
  refine List.filter_eq_self.mpr fun x hx => decide_eq_true ?_
  rw [sweepChildren, List.mem_insertionSort, Table.mem_select, decide_eq_true_eq,
    Option.map_eq_some_iff] at hx
  obtain ⟨hj, ⟨_, index⟩, hsweep, rfl⟩ := hx
  exact (h.staffed hrow).project x.1 x.2 index hj hsweep

theorem Retries.parents_eq (hr : Retries w.store s' now id fresh project sweep key row document)
    (h : Reachable sha w) : childrenIn w.store project sweep = sweepChildren w.store sweep ∧
      parentsIn w.store project sweep = unsuccessful w.store sweep := by
  have hall : childrenIn w.store project sweep = sweepChildren w.store sweep :=
    hr.owned ▸ h.childrenIn_eq hr.found
  exact ⟨hall, by rw [parentsIn, hall]; rfl⟩

/-- Every binding of a job is of the job's project. -/
theorem Reachable.parentInputs_eq (h : Reachable sha w)
    (hx : w.store.jobs.lookup x.1.1 = some x.1.2) (position : ℕ) :
    parentInputs w.store x position = w.store.jobInputs.lookup (x.1.1, position) := by
  have hbound := h.ledger_sound.furnished.bound _ _ (Store.toLedger_job hx)
  cases hr : w.store.jobInputs.lookup (x.1.1, position) with
  | none => rw [parentInputs, hr, Option.filter_none]
  | some r =>
    have hlt := hbound.only position r hr
    obtain ⟨r', d, hr', hproject, -⟩ := hbound.rows position _ (List.getElem?_eq_getElem hlt)
    obtain rfl := Option.mem_unique hr hr'
    have hproject : r.project = x.1.2.project := hproject
    rw [parentInputs, hr, Option.filter_some, if_pos (decide_eq_true hproject)]

/-- **What was there stays, and every child is a copy.** -/
theorem Retries.retried (hr : Retries w.store s' now id fresh project sweep key row document)
    (h : Reachable sha w) :
    Retrying w.store s' ∧ ∀ x ∈ (unsuccessful w.store sweep).zipIdx,
      w.store.jobs.lookup (fresh x.2) = none ∧
      s'.jobs.lookup (fresh x.2) = some (retriedRow now id x) ∧
      ∀ position, s'.jobInputs.lookup (fresh x.2, position)
        = w.store.jobInputs.lookup (x.1.1, position) := by
  have hparents : ∀ x ∈ unsuccessful w.store sweep, w.store.jobs.lookup x.1 = some x.2 :=
    fun x hx => mem_sweepChildren (List.mem_of_mem_filter hx)
  have hknown : ∀ k r, w.store.jobInputs.lookup k = some r → w.store.jobs.lookup k.1 ≠ none :=
    fun k r hk hnone =>
      h.ledger_sound.furnished.known k r hk (Store.toLedger_job_none.mpr hnone)
  have hcopied := hr.copied
  rw [(hr.parents_eq h).2] at hcopied
  obtain ⟨hkept, hcopies⟩ := retried_all hcopied hknown hparents
  refine ⟨⟨hkept.jobs, hkept.inputs, hkept.known⟩, fun x hx => ?_⟩
  obtain ⟨hfree, hrow, hinputs⟩ := hcopies x hx
  refine ⟨hfree, hrow, fun position => (hinputs position).trans ?_⟩
  exact h.parentInputs_eq (hparents x.1 (List.fst_mem_of_mem_zipIdx hx)) position

/-- **The children of the new sweep**, in their order. -/
theorem Retries.children (hr : Retries w.store s' now id fresh project sweep key row document)
    (h : Reachable sha w) :
    sweepChildren s' id = (unsuccessful w.store sweep).zipIdx.map
      (fun x => (fresh x.2, retriedRow now id x)) := by
  have hroll := (hr.enlisted fun _ _ _ hnone => h.not_child hnone).2.2
  rw [(hr.parents_eq h).2] at hroll
  have hids : sweepChildIDs s' id = (unsuccessful w.store sweep).zipIdx.map
      (fun x => fresh x.2) := by
    rw [sweepChildIDs_range hroll, show (fun x : (Uuid × JobRow) × ℕ => fresh x.2)
      = fresh ∘ Prod.snd from rfl, ← List.map_map, List.zipIdx_map_snd, List.range_eq_range']
  rw [sweepChildren_eq, hids, List.filterMap_map, ← List.filterMap_eq_map]
  refine List.filterMap_congr fun x hx => ?_
  exact congrArg (Option.map (fun j => (fresh x.2, j))) ((hr.retried h).2 x hx).2.1

/-- **A retry is an order-preserving copy.** -/
theorem Retries.copies (hr : Retries w.store s' now id fresh project sweep key row document)
    (h : Reachable sha w) (hle : w.clock ≤ now)
    (hexec : retrySweep w.store now id fresh project sweep key = .ok (s', record))
    (hrecord : record = ⟨id, project, sweep, document, row.maxConcurrent,
      sweepRetryChildren s' id, now, false⟩) : RetryCopies w.store s' sweep record := by
  have hop : (Op.retrySweep id fresh project sweep key).exec sha w.store now
      = .ok (s', .sweepRetry record) := by
    rw [Op.exec, hexec]
    rfl
  have hsome : w.store.sweeps.lookup sweep ≠ none := by simp [hr.found]
  have hrolled := h.keyed.rolled sweep hsome
  have hchildren := hr.children h
  obtain ⟨hkept, hcopies⟩ := hr.retried h
  have hsweeps := (hr.enlisted fun _ _ _ hnone => h.not_child hnone).1
  obtain ⟨hall, hparents⟩ := hr.parents_eq h
  have hne : sweep ≠ id := fun heq => hsome (heq ▸ hr.newSweep)
  have hattempts : s'.attempts = w.store.attempts :=
    Op.exec_writes hop .attempts (by simp only [Op.footprint]; decide)
  subst hrecord
  exact {
    finished := ⟨hall ▸ hr.finished.1, hparents ▸ hr.finished.2⟩
    ordered := by
      have hsorted := hrolled.sorted
      rw [Store.roll, List.pairwise_map] at hsorted
      exact hsorted
    made := ⟨hr.newSweep, _, by rw [hsweeps, Table.lookup_insert_ite, if_pos rfl], rfl⟩
    length := by rw [hchildren, List.length_map, List.length_zipIdx]
    copies := fun i parent j hi => by
      have hmem : ((parent, j), i) ∈ (unsuccessful w.store sweep).zipIdx :=
        List.mk_mem_zipIdx_iff_getElem?.mpr hi
      obtain ⟨hfree, hrow, hinputs⟩ := hcopies _ hmem
      refine ⟨fresh i, retriedRow now id ((parent, j), i), ?_,
        ⟨rfl, rfl, rfl, rfl, rfl, rfl, rfl, rfl, rfl, rfl, rfl⟩, hfree, fun a x ha hjob => ?_,
        hinputs⟩
      · rw [hchildren, List.getElem?_map, List.getElem?_zipIdx, hi, Nat.zero_add]
        rfl
      · -- No attempt is of a job that was not there.
        rw [hattempts] at ha
        exact h.ledger_sound.keyed.job a x ha (Store.toLedger_job_none.mpr (hjob ▸ hfree))
    answer := rfl
    unchanged := by
      refine ⟨by rw [hsweeps, Table.lookup_insert_ite, if_neg hne], ?_, fun job j hj =>
        ⟨hkept.jobs job j hj, fun position => hkept.inputs (job, position) (by simp [hj])⟩⟩
      have hsame := sweepChildren_congr (f := fun x => x) hrolled
        (fun _ _ => h.exec_child hle hop hsome) fun job j hj => ⟨j, hkept.jobs job j hj, rfl⟩
      rwa [List.map_id', List.map_id'] at hsame }

/-! ## Replays -/

/-- Keys are not taken back in a run. -/
theorem Reachable.later_keys (h : Reachable sha w)
    (hlater : World.Later sha w w') :
    w.store.idempotency.Extends w'.store.idempotency := by
  induction hlater with
  | refl => exact .refl _
  | tail hrun hstep ih =>
    obtain ⟨-, op, reply, hexec⟩ := hstep
    exact ih.trans ((h.later hrun).exec_extends hexec)

/-- The children of a sweep stay what they are in a run. -/
theorem Reachable.later_child (h : Reachable sha w)
    (hlater : World.Later sha w w') (hsome : w.store.sweeps.lookup sweep ≠ none) {index : ℕ}
    {child : Uuid} : w'.store.Child sweep index child ↔ w.store.Child sweep index child := by
  induction hlater with
  | refl => exact Iff.rfl
  | @tail w₁ w₂ hrun hstep ih =>
    obtain ⟨hle, op, reply, hexec⟩ := hstep
    obtain ⟨row, hrow⟩ := Option.ne_none_iff_exists'.mp hsome
    have hkept : w₁.store.sweeps.lookup sweep = some row :=
      (h.later_ledger hrun).sweeps sweep row hrow
    exact ((h.later hrun).exec_child hle hexec (by simp [hkept])).trans ih

/-- The children of a sweep are answered alike in a run. -/
theorem Reachable.later_retryChildren (h : Reachable sha w)
    (hlater : World.Later sha w w') (hsome : w.store.sweeps.lookup sweep ≠ none) :
    sweepRetryChildren w'.store sweep = sweepRetryChildren w.store sweep := by
  refine sweepChildren_congr (h.keyed.rolled sweep hsome)
    (fun _ _ => h.later_child hlater hsome) fun job j hj => ?_
  obtain ⟨k, hk, hmoved⟩ := (h.later_ledger hlater).jobs job _ (Store.toLedger_job hj)
  obtain ⟨j', hj', rfl⟩ := Store.job_of_toLedger hk
  have hsweep : j'.sweep = j.sweep := hmoved.sweep
  have hparent : j'.parentJob = j.parentJob := hmoved.parent
  exact ⟨j', hj', by rw [hsweep, hparent]⟩

/-- **A retry is answered alike ever after.** -/
theorem Retries.replayed (hr : Retries w.store s' now id fresh project sweep key row document)
    (h : Reachable sha w) (hle : w.clock ≤ now)
    (hexec : retrySweep w.store now id fresh project sweep key = .ok (s', record))
    (hrecord : record = ⟨id, project, sweep, document, row.maxConcurrent,
      sweepRetryChildren s' id, now,
      false⟩) (hlater : World.Later sha ⟨s', now⟩ w') (now' : Time) (id' : Uuid)
    (fresh' : ℕ → Uuid) :
    retrySweep w'.store now' id' fresh' project sweep key
      = .ok (w'.store, { record with replayed := true }) := by
  have hreached : Reachable sha ⟨s', now⟩ := h.step ⟨hle, .retrySweep id fresh project sweep key,
    .sweepRetry record, by rw [Op.exec, hexec]; rfl⟩
  obtain ⟨hsweeps, hkeys, -⟩ := hr.enlisted fun _ _ _ hnone => h.not_child hnone
  have hmade : s'.sweeps.lookup id =
      some (row.retry now sweep document (parentsIn w.store project sweep).length) := by
    rw [hsweeps, Table.lookup_insert_ite, if_pos rfl]
  have hsaved : w'.store.idempotency.lookup (project, .retry sweep, key)
      = some ⟨toString sweep, id⟩ := by
    refine hreached.later_keys hlater _ _ ?_
    show s'.idempotency.lookup _ = _
    rw [hkeys, Table.lookup_insert_ite, if_pos rfl]
  have hrow : w'.store.sweeps.lookup id =
      some (row.retry now sweep document (parentsIn w.store project sweep).length) :=
    (hreached.later_ledger hlater).sweeps id _ hmade
  have hfound : lookupSweepRetry w'.store project sweep key
      = .ok { record with replayed := true } := by
    have hnamed : (row.retry now sweep document (parentsIn w.store project sweep).length).project
        = project ∧
          (row.retry now sweep document (parentsIn w.store project sweep).length).parentSweep
          = some sweep := ⟨hr.owned, rfl⟩
    simp only [lookupSweepRetry, hsaved, hrow, orThrow_some, ok_bind, require_of hnamed]
    rw [hreached.later_retryChildren hlater (by simp [hmade]), hrecord]
    rw [hnamed.1]
    rfl
  have hids : canonicalUUID project = true ∧ canonicalUUID sweep = true ∧ validKey key = true := by
    simp only [retrySweep, bind_ok, require_ok] at hexec
    obtain ⟨-, hids, -⟩ := hexec
    exact hids
  rw [retrySweep, require_of hids, ok_bind, hfound]
  rfl

end Copy

/-- **The retry of a sweep is an order-preserving copy.** A retry that makes a
sweep makes it from a finished one, as `RetryCopies` says: its children, at the
places from zero on, are fresh copies of the children that did not succeed, in
their order, and nothing of the source is changed. Ever after, the request is
answered with the same children and parents, and a retry of the retry is such a
copy again. -/
theorem retry_copies_sweep {w : World} (h : Reachable sha w) {now : Time} (hle : w.clock ≤ now)
    {id : Uuid} {fresh : ℕ → Uuid} {project sweep : Uuid} {key : String} {s' : Store}
    {record : SweepRetryRecord}
    (hexec : retrySweep w.store now id fresh project sweep key = .ok (s', record))
    (hnew : record.replayed = false) :
    RetryCopies w.store s' sweep record ∧
    ∀ w', World.Later sha ⟨s', now⟩ w' →
      (∀ now' id' fresh', retrySweep w'.store now' id' fresh' project sweep key
        = .ok (w'.store, { record with replayed := true })) ∧
      ∀ now' id' fresh' key' s'' record', w'.clock ≤ now' →
        retrySweep w'.store now' id' fresh' project record.id key' = .ok (s'', record') →
        record'.replayed = false → RetryCopies w'.store s'' record.id record' := by
  obtain ⟨row, document, hr, hrecord⟩ := retrySweep_made hexec hnew
  have hreached : Reachable sha ⟨s', now⟩ := h.step ⟨hle,
    .retrySweep id fresh project sweep key, .sweepRetry record, by rw [Op.exec, hexec]; rfl⟩
  refine ⟨hr.copies h hle hexec hrecord, fun w' hlater => ⟨fun now' id' fresh' =>
    hr.replayed h hle hexec hrecord hlater now' id' fresh', ?_⟩⟩
  intro now' id' fresh' key' s'' record' hle' hexec' hnew'
  obtain ⟨row', document', hr', hrecord'⟩ := retrySweep_made hexec' hnew'
  exact hr'.copies (hreached.later hlater) hle' hexec' hrecord'

namespace Sample

/-- A sweep of one child. -/
def single : Sweep := { grid with matrix := AList.insert "RATE" ["1"] ∅ }

/-- A dataset of one empty file. -/
def data : DatasetRow :=
  ⟨1, "d", ⟨"o", "v", 1, container⟩, ⟨"tar.v1", [⟨"a", 0, container⟩]⟩⟩

/-- A sweep of three children with that input. -/
def threefold : Sweep :=
  { grid with
    jobTemplate := { job with spec := { job.spec with inputs := [⟨"d", "/inputs/d"⟩] } }
    matrix := AList.insert "RATE" ["1", "2", "3"] ∅ }

/-- The first child succeeds and the others are cancelled before they run. -/
def partlyDone : List (Time × Op) :=
  (second, .registerDataset 1 data) :: seated 1 second ++
    [(second, .submitSweep 1 (· + 1) "k" (String.ofList (List.replicate 64 '0')) threefold
        [⟨1, "d", data.object, data.manifest⟩]),
      (second, .acquire second second identity ⟨1, 1⟩ ⟨false⟩ 1)] ++ finalized ++
    [(second, .complete second identity success), (second, .cancel 1 2), (second, .cancel 1 3)]

end Sample

/-- The second and the third child of a sweep are retried, under the indices 0 and
1 and with the input they were bound to. -/
theorem sample_retry : ∃ w s' record, Reachable Sample.sha w ∧
    retrySweep w.store second 2 (· + 10) 1 1 "r" = .ok (s', record) ∧
    record.children = [(10, 0, some 2), (11, 1, some 3)] ∧
    w.store.jobInputs.lookup (2, 0) = some ⟨1, 1, "/inputs/d"⟩ ∧
    RetryCopies w.store s' 1 record := by
  obtain ⟨w, hw, hp⟩ := Sample.reaches Sample.world_reachable Sample.partlyDone
    (fun w => decide (w.clock ≤ second ∧
        w.store.jobInputs.lookup (2, 0) = some ⟨1, 1, "/inputs/d"⟩) &&
      (retrySweep w.store second 2 (· + 10) 1 1 "r").toOption.any
        (fun x : Store × SweepRetryRecord => !x.2.replayed &&
          decide (x.2.children = [(10, 0, some 2), (11, 1, some 3)]))) (by decide +kernel)
  simp only [Bool.and_eq_true, decide_eq_true_eq, Option.any_eq_true, Bool.not_eq_true'] at hp
  obtain ⟨⟨hle, hbound⟩, ⟨s', record⟩, hretry, hnew, hchildren⟩ := hp
  have hexec := toOption_eq_some.mp hretry
  exact ⟨w, s', record, hw, hexec, hchildren, hbound, (retry_copies_sweep hw hle hexec hnew).1⟩

end Dispatch
