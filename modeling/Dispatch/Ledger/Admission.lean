import Dispatch.Ledger.Steps

/-!
# Admission on the ledger

A submission inserts one job after the other, each with the rows that bind its
inputs, and `Enrols` is one such insertion. However many there are, the
transaction is a single `admits` step: a sweep is in the ledger with all its
children or not at all.

What a child is admitted with depends on where it comes from. The document and
the inputs of a submission were checked by the transaction itself; those of a
retried child are its parent's, which is why `Ledger.Admitted` promises them
only of a ledger whose jobs are `Furnished`.
-/

namespace Dispatch

open Txn

variable {s t s' t' : Store} {id sweep project : Uuid} {now : Time} {row : JobRow}
  {bindings : List DatasetBinding} {l : Ledger} {fresh : ℕ → Uuid} {job : Job} {key : String}

/-! ## One job and its inputs -/

/-- **One job is inserted with rows of its own.** -/
structure Enrols (t t' : Store) (id : Uuid) (row : JobRow) : Prop where
  new : t.jobs.lookup id = none
  named : id ≠ 0
  jobs : t'.toLedger.jobs = AList.insert id row.uncounted t.toLedger.jobs
  sweeps : t'.sweeps = t.sweeps
  others : t'.toLedger.others = t.toLedger.others
  inputs : t.jobInputs.Extends t'.jobInputs
  own : ∀ k r, t'.jobInputs.lookup k = some r → t.jobInputs.lookup k = some r ∨ k.1 = id

theorem insertJob_enrols {parent : Option (Uuid × Uuid)}
    (h : s.insertJob now id row parent = .ok s') : Enrols s s' id row := by
  simp only [Store.insertJob, bind_ok, require_ok, orThrow_ok, pure_ok] at h
  obtain ⟨-, ⟨hid, -⟩, jobs, hjobs, events, -, rfl⟩ := h
  obtain ⟨hfree, rfl⟩ := Table.insertNew_eq_some hjobs
  exact ⟨hfree, hid, Table.update_insert row (fun _ => JobRow.uncounted) hfree, rfl, rfl, .refl _,
    fun _ _ => .inl⟩

/-- One more input of the job. -/
theorem Enrols.bind {i : ℕ} {r : JobInputRow} {rows : Table (Uuid × ℕ) JobInputRow}
    (h : Enrols t t' id row) (hrows : t'.jobInputs.insertNew (id, i) r = some rows) :
    Enrols t { t' with jobInputs := rows } id row := by
  obtain ⟨hfree, rfl⟩ := Table.insertNew_eq_some hrows
  refine ⟨h.new, h.named, h.jobs, h.sweeps, h.others, h.inputs.trans (.insert r hfree),
    fun k r' hr' => ?_⟩
  rw [Table.lookup_insert_ite] at hr'
  split_ifs at hr' with hk
  · exact .inr (congrArg Prod.fst hk)
  · exact h.own k r' hr'

/-- The datasets of a store are not an admission's. -/
theorem Enrols.datasets (h : Enrols t t' id row) : t'.datasets = t.datasets :=
  congrArg (fun x => x.2.2.2.2.2.2.2.1) h.others

/-- A job that is admitted is queued and has no history. -/
structure JobRow.Fresh (j : JobRow) : Prop where
  queued : j.state = .queued
  counter : j.attemptCounter = 0
  current : j.currentAttempt = none
  uncancelled : j.cancelRequested = false
  unaccepted : j.acceptedAttempt = none ∧ j.acceptedManifest = none

theorem newJob_fresh (now : Time) (project : Uuid) (parent : Option Uuid) (spec specHash : Job)
    (resources : Resources) (priority : ℤ) (sweep : Option (Uuid × ℕ)) :
    (newJob now project parent spec specHash resources priority sweep).Fresh :=
  ⟨rfl, rfl, rfl, rfl, rfl, rfl⟩

theorem Ledger.Admits.refl (l : Ledger) : l.Admits l :=
  ⟨rfl, .refl _, .refl _, .refl _, fun _ _ => .inl, fun _ _ => .inl⟩

/-- Nothing is admitted twice. -/
theorem Ledger.Admits.new {l' : Ledger} (h : l.Admits l') (hid : l'.jobs.lookup id = none) :
    l.jobs.lookup id = none := by
  by_contra hne
  obtain ⟨j, hj⟩ := Option.ne_none_iff_exists'.mp hne
  exact absurd (hid.symm.trans (h.jobs id j hj)) (by simp)

/-- **One more job of the admission.** -/
theorem Ledger.Admits.enrol (h : l.Admits t.toLedger) (he : Enrols t t' id row) (hfresh : row.Fresh)
    (howned : l.projects.lookup 0 = none → row.project ≠ 0)
    (hdocument : l.Furnished → row.Documented) (hbound : l.Furnished → t'.toLedger.Bound id row)
    (hsweep : ∀ x ∈ row.sweep, l.sweeps.lookup x.1 = none ∧ t.sweeps.lookup x.1 ≠ none) :
    l.Admits t'.toLedger := by
  have hnone : t.toLedger.jobs.lookup id = none := Store.toLedger_job_none.mpr he.new
  have hnew : l.jobs.lookup id = none := h.new hnone
  have hjobs : t.toLedger.jobs.Extends t'.toLedger.jobs := by
    rw [he.jobs]
    exact .insert _ hnone
  refine ⟨he.others.trans h.rest, h.jobs.trans hjobs, ?_, h.jobInputs.trans he.inputs,
    fun k r hr => ?_, fun id' j' hj' => ?_⟩
  · intro k r hr
    have hkept := h.sweeps k r hr
    exact (congrArg (AList.lookup k) he.sweeps).trans hkept
  · obtain hr | rfl := he.own k r hr
    · refine (h.own k r hr).imp_right fun hk => ⟨hk.1, fun hgone => hk.2 ?_⟩
      by_contra hne
      obtain ⟨j, hj⟩ := Option.ne_none_iff_exists'.mp hne
      exact absurd (hgone.symm.trans (hjobs _ _ hj)) (by simp)
    · refine .inr ⟨hnew, ?_⟩
      rw [he.jobs, Table.lookup_insert_ite, if_pos rfl]
      simp
  · rw [he.jobs, Table.lookup_insert_ite] at hj'
    split_ifs at hj' with hid
    · obtain rfl := Option.some.inj hj'
      subst hid
      exact .inr ⟨hnew, he.named, howned, hfresh.queued, hfresh.counter, hfresh.current,
        hfresh.uncancelled, hfresh.unaccepted,
        fun hf => ⟨(hdocument hf).valid, (hdocument hf).pinned, (hdocument hf).hashed,
          (hdocument hf).columns⟩,
        fun hf => ⟨(hbound hf).rows, (hbound hf).only⟩,
        fun x hx => ⟨(hsweep x hx).1, by
          change t'.sweeps.lookup x.1 ≠ none
          rw [he.sweeps]
          exact (hsweep x hx).2⟩⟩
    · -- A job admitted before keeps its bindings: the new rows are another's.
      refine (h.fresh id' j' hj').imp_right fun ha => { ha with
        inputs := fun hf => (ha.inputs hf).mono he.inputs ?_ fun i r hr => ?_
        sweep := fun x hx => ⟨(ha.sweep x hx).1, ?_⟩ }
      · change t.datasets.Extends t'.datasets
        rw [he.datasets]
        exact .refl _
      · exact (he.own (id', i) r hr).resolve_right hid
      · change t'.sweeps.lookup x.1 ≠ none
        rw [he.sweeps]
        exact (ha.sweep x hx).2

/-! ## Submissions -/

/-- **The inputs of a submission are bound**, each at its position. -/
theorem insertInputs_binds {job : Uuid} {inputs : List Input} (he : Enrols t s job row)
    (h : insertInputs s project job bindings inputs = .ok s') :
    Enrols t s' job row ∧
      (∀ i b mount, (bindings.zip (inputs.map Input.mountPath))[i]? = some (b, mount) →
        s'.jobInputs.lookup (job, i) = some ⟨project, b.id, mount⟩ ∧
        ∃ d, s'.datasets.lookup b.id = some d ∧ d.project = project ∧ d.name = b.name) ∧
      ∀ i r, s'.jobInputs.lookup (job, i) = some r → s.jobInputs.lookup (job, i) = some r ∨
        i < (bindings.zip (inputs.map Input.mountPath)).length := by
  set pairs := bindings.zip (inputs.map Input.mountPath) with hpairs
  have hmem : ∀ {i b mount}, (i, b, mount) ∈ pairs.zipIdx.map (fun x => (x.2, x.1)) ↔
      pairs[i]? = some (b, mount) := by
    intro i b mount
    simp only [List.mem_map, Prod.mk.injEq, Prod.exists]
    constructor
    · rintro ⟨b', m', n, hx, rfl, rfl, rfl⟩
      exact List.mem_zipIdx_iff_getElem?.mp hx
    · exact fun hx => ⟨b, mount, i, List.mem_zipIdx_iff_getElem?.mpr hx, rfl, rfl, rfl⟩
  unfold insertInputs at h
  rw [← hpairs] at h
  refine ⟨?_, fun i b mount hi => ?_, ?_⟩
  · refine foldlM_invariant (fun u => Enrols t u job row) he (fun u x u' _ hu hturn => ?_) h
    simp only [insertInput, bind_ok, orThrow_ok, pure_ok] at hturn
    obtain ⟨d, -, -, -, rows, hrows, rfl⟩ := hturn
    exact hu.bind hrows
  · -- What one turn binds no other turn undoes: rows and datasets only grow.
    refine foldlM_forall (fun x u => u.jobInputs.lookup (job, x.1)
      = some ⟨project, x.2.1.id, x.2.2⟩ ∧
      ∃ d, u.datasets.lookup x.2.1.id = some d ∧ d.project = project ∧ d.name = x.2.1.name)
      (fun u x u' hturn => ?_) (fun u x u' hturn y hy => ?_) h _ (hmem.mpr hi)
    all_goals
      simp only [insertInput, bind_ok, orThrow_ok, require_ok, pure_ok] at hturn
      obtain ⟨d, hd, -, hown, rows, hrows, rfl⟩ := hturn
      obtain ⟨hfree, rfl⟩ := Table.insertNew_eq_some hrows
    · exact ⟨(Table.lookup_insert_ite ..).trans (if_pos rfl), d, hd, hown⟩
    · exact ⟨Table.Extends.insert _ hfree _ _ hy.1, hy.2⟩
  · intro i r hr
    refine foldlM_invariant (fun u : Store => u.jobInputs.lookup (job, i) = some r →
      s.jobInputs.lookup (job, i) = some r ∨ i < pairs.length) .inl
      (fun u x u' hx hu hturn hr' => ?_) h hr
    simp only [insertInput, bind_ok, orThrow_ok, pure_ok] at hturn
    obtain ⟨d, -, -, -, rows, hrows, rfl⟩ := hturn
    obtain ⟨-, rfl⟩ := Table.insertNew_eq_some hrows
    rw [Table.lookup_insert_ite] at hr'
    split_ifs at hr' with hk
    · obtain ⟨n, b, mount⟩ := x
      obtain rfl : i = n := congrArg Prod.snd hk
      exact .inr (List.getElem?_eq_some_iff.mp (hmem.mp hx)).1
    · exact hu hr'

/-- The checks of a resolved document, position by position. -/
theorem resolved_getElem (h : resolved job bindings = true) :
    pinnedImage job.spec.image = true ∧ bindings.length = job.spec.inputs.length ∧
      ∀ (i : ℕ) (input : Input), job.spec.inputs[i]? = some input →
        ∃ b : DatasetBinding, bindings[i]? = some b ∧ b.name = input.dataset := by
  simp only [resolved, Bool.and_eq_true, decide_eq_true_eq, List.all_eq_true] at h
  obtain ⟨⟨hpinned, hlength⟩, hnames⟩ := h
  refine ⟨hpinned, hlength.symm, fun i input hi => ?_⟩
  obtain ⟨hlt, -⟩ := List.getElem?_eq_some_iff.mp hi
  have hb : bindings[i]? = some bindings[i] := List.getElem?_eq_getElem (hlength ▸ hlt)
  have hpair : (bindings[i], input) ∈ bindings.zip job.spec.inputs :=
    List.mem_iff_getElem?.mpr ⟨i, List.getElem?_zip_eq_some.mpr ⟨hb, hi⟩⟩
  exact ⟨_, hb, (hnames _ hpair).2⟩

/-- **A submitted document is admitted** once its row and its inputs are in. -/
theorem Ledger.Admits.submit {admitted : Store} {sweep : Option (Uuid × ℕ)}
    (h : l.Admits t.toLedger) (hvalid : job.isValid = true)
    (hresolved : resolved job bindings = true) (howned : l.projects.lookup 0 = none → project ≠ 0)
    (hsweep : ∀ x ∈ sweep, l.sweeps.lookup x.1 = none ∧ t.sweeps.lookup x.1 ≠ none)
    (hjob : t.insertJob now id (newSubmission now project job sweep) none = .ok admitted)
    (hinputs : insertInputs admitted project id bindings job.spec.inputs = .ok t') :
    l.Admits t'.toLedger := by
  have he := insertJob_enrols hjob
  obtain ⟨he', hrows, honly⟩ := insertInputs_binds he hinputs
  obtain ⟨hpinned, hlength, hnames⟩ := resolved_getElem hresolved
  refine h.enrol he' (newJob_fresh ..) howned
    (fun _ => ⟨Job.isValid_canonical hvalid, hpinned, Job.canonical_canonical job, rfl, rfl⟩)
    (fun hf => ⟨fun i input hi => ?_, fun i r hr => ?_⟩) hsweep
  · have hi' : job.spec.inputs[i]? = some input := hi
    obtain ⟨b, hb, hname⟩ := hnames i input hi'
    have hpair : (bindings.zip (job.spec.inputs.map Input.mountPath))[i]?
        = some (b, input.mountPath) := by
      refine List.getElem?_zip_eq_some.mpr ⟨hb, ?_⟩
      rw [List.getElem?_map, hi']
      rfl
    obtain ⟨hrow, d, hd, hproject, hdname⟩ := hrows i b input.mountPath hpair
    exact ⟨_, d, hrow, rfl, rfl, hd, hproject, hdname.trans hname⟩
  · obtain hbefore | hlt := honly i r hr
    · -- The job is new, so no row was bound for it.
      have hnone : t.toLedger.jobs.lookup id = none := Store.toLedger_job_none.mpr he.new
      have hbefore' : t.toLedger.jobInputs.lookup (id, i) = some r := by
        simp only [Store.insertJob, bind_ok, pure_ok] at hjob
        obtain ⟨-, -, jobs, -, events, -, rfl⟩ := hjob
        exact hbefore
      obtain hl | ⟨-, hin⟩ := h.own _ _ hbefore'
      · exact absurd (h.new hnone) (hf.known _ _ hl)
      · exact absurd hnone hin
    · rw [List.length_zip, List.length_map, hlength, min_self] at hlt
      exact hlt

theorem projectNamed_eq_some {name : String} {x : Uuid × ProjectRow}
    (h : projectNamed s name = some x) : s.projects.lookup x.1 = some x.2 :=
  ((Table.mem_select ..).mp (List.mem_of_mem_head? h)).1

/-- A project that is there is named. -/
theorem projectNamed_ne_zero {name : String} {x : Uuid × ProjectRow}
    (h : projectNamed s name = some x) (hnil : s.projects.lookup 0 = none) : x.1 ≠ 0 := by
  intro hzero
  have hrow := projectNamed_eq_some h
  rw [hzero, hnil] at hrow
  exact absurd hrow (by simp)

theorem submitJobResolved_admits {requestHash : String} {record : JobRecord}
    (h : submitJobResolved s now id key requestHash job bindings = .ok (s', record)) :
    s.toLedger.Admits s'.toLedger := by
  simp only [submitJobResolved, bind_ok, require_ok, orThrow_ok] at h
  obtain ⟨-, -, _, hvalid, _, hresolved, ⟨projectID, p⟩, hproject, h⟩ := h
  split at h
  · simp only [bind_ok, pure_pair_ok] at h
    obtain ⟨_, -, rfl, -⟩ := h
    exact .refl _
  · simp only [bind_ok, pure_pair_ok] at h
    obtain ⟨-, -, -, -, admitted, hadmitted, bound, hbound, rfl, -⟩ := h
    refine Ledger.Admits.submit ?_ hvalid hresolved (projectNamed_ne_zero hproject)
      (fun x (hx : x ∈ none) => absurd hx (by simp)) hadmitted hbound
    exact .refl s.toLedger

/-- A sweep that is new, before its children. -/
theorem Ledger.Admits.found {row : SweepRow}
    {keys : Table (Uuid × Endpoint × String) IdempotencyRow} {sweeps : Table Uuid SweepRow}
    (h : s.sweeps.insertNew id row = some sweeps) :
    s.sweeps.lookup id = none ∧ sweeps.lookup id ≠ none ∧
      s.toLedger.Admits { s with idempotency := keys, sweeps := sweeps }.toLedger := by
  obtain ⟨hfree, rfl⟩ := Table.insertNew_eq_some h
  refine ⟨hfree, ?_, rfl, .refl _, .insert row hfree, .refl _, fun _ _ => .inl, fun _ _ => .inl⟩
  rw [Table.lookup_insert_ite, if_pos rfl]
  simp

theorem submitSweepResolved_admits {requestHash : String} {sweep : Sweep} {record : SweepRecord}
    (h : submitSweepResolved s now id fresh key requestHash sweep bindings = .ok (s', record)) :
    s.toLedger.Admits s'.toLedger := by
  simp only [submitSweepResolved, bind_ok, require_ok, orThrow_ok] at h
  obtain ⟨-, -, children, hexpand, _, hresolved, ⟨projectID, p⟩, hproject, h⟩ := h
  have hchildren : sweep.expand = .ok children := by
    cases hx : sweep.expand with
    | error e => simp [hx, Except.toOption] at hexpand
    | ok l => simpa [hx, Except.toOption] using hexpand
  split at h
  · simp only [bind_ok, pure_pair_ok] at h
    obtain ⟨_, -, rfl, -⟩ := h
    exact .refl _
  · simp only [bind_ok, orThrow_ok, pure_pair_ok] at h
    obtain ⟨-, -, -, -, -, -, sweeps, hsweeps, admitted, hadmitted, rfl, -⟩ := h
    obtain ⟨hfree, htaken, hfound⟩ := Ledger.Admits.found hsweeps
    refine (foldlM_invariant (fun t : Store => t.sweeps = sweeps ∧ s.toLedger.Admits t.toLedger)
      ⟨rfl, hfound⟩ ?_ hadmitted).2
    rintro t ⟨child, index⟩ t' hx ⟨hsame, hadmits⟩ hturn
    simp only [insertChild, bind_ok, require_ok] at hturn
    obtain ⟨_, hvalid, inserted, hinserted, hbound⟩ := hturn
    -- The bindings were resolved for the template, whose image and inputs the child has.
    obtain ⟨env, rfl⟩ := sweep.mem_expand hchildren (List.fst_mem_of_mem_zipIdx hx)
    have he := (insertInputs_binds (insertJob_enrols hinserted) hbound).1
    exact ⟨he.sweeps.trans hsame, hadmits.submit hvalid hresolved (projectNamed_ne_zero hproject)
      (fun x hx => by
        obtain rfl := Option.some.inj hx
        exact ⟨hfree, hsame ▸ htaken⟩) hinserted hbound⟩

/-! ## Retries -/

/-- The row of a retried child. -/
def retriedRow (now : Time) (sweep : Uuid) (x : (Uuid × JobRow) × ℕ) : JobRow :=
  newJob now x.1.2.project (some x.1.1) x.1.2.spec x.1.2.specHash x.1.2.resources x.1.2.priority
    (some (sweep, x.2))

/-- One binding is copied to a place that is free. -/
theorem copyInput_eq_ok {child : Uuid} {y : (Uuid × ℕ) × JobInputRow} (h : (do
      let rows ← orThrow (s.jobInputs.insertNew (child, y.1.2) y.2) StoreError.database
      pure { s with jobInputs := rows }) = Except.ok s') :
    s.jobInputs.lookup (child, y.1.2) = none ∧
      s' = { s with jobInputs := AList.insert (child, y.1.2) y.2 s.jobInputs } := by
  simp only [bind_ok, orThrow_ok, pure_ok] at h
  obtain ⟨rows, hrows, rfl⟩ := h
  obtain ⟨hfree, rfl⟩ := Table.insertNew_eq_some hrows
  exact ⟨hfree, rfl⟩

/-- **A retried child is enrolled**, with its bindings. -/
theorem insertRetry_enrols {source : Uuid} {x : (Uuid × JobRow) × ℕ}
    (h : insertRetry now source sweep fresh s x = .ok s') :
    Enrols s s' (fresh x.2) (retriedRow now sweep x) := by
  simp only [insertRetry, bind_ok] at h
  obtain ⟨admitted, hadmitted, hcopied⟩ := h
  refine foldlM_invariant (fun u => Enrols s u (fresh x.2) (retriedRow now sweep x))
    (insertJob_enrols hadmitted) (fun u y u' _ hu hturn => ?_) hcopied
  obtain ⟨hfree, rfl⟩ := copyInput_eq_ok hturn
  exact hu.bind (Table.insertNew_of_free _ hfree)

/-- **A retried child is admitted** with the document and the inputs of its
parent. -/
theorem Ledger.Admits.retry {source : Uuid} {parent : Uuid} {j : JobRow} {index : ℕ}
    (h : l.Admits t.toLedger) (hparent : l.jobs.lookup parent = some j.uncounted)
    (howned : l.projects.lookup 0 = none → j.project ≠ 0)
    (hsweep : l.sweeps.lookup sweep = none ∧ t.sweeps.lookup sweep ≠ none)
    (hturn : insertRetry now source sweep fresh t ((parent, j), index) = .ok t') :
    t'.sweeps = t.sweeps ∧ l.Admits t'.toLedger := by
  have he' := insertRetry_enrols hturn
  simp only [insertRetry, bind_ok] at hturn
  obtain ⟨admitted, hadmitted, hcopied⟩ := hturn
  have he := insertJob_enrols hadmitted
  have hsame : admitted.jobInputs = t.jobInputs := by
    simp only [Store.insertJob, bind_ok, pure_ok] at hadmitted
    obtain ⟨-, -, jobs, -, events, -, rfl⟩ := hadmitted
    rfl
  set copied := t.jobInputs.select
    (fun k r => decide (k.1 = parent) && decide (r.project = j.project)) with hselected
  have hmem : ∀ {k r}, (k, r) ∈ copied ↔
      t.jobInputs.lookup k = some r ∧ k.1 = parent ∧ r.project = j.project := by
    intro k r
    rw [hselected, Table.mem_select, Bool.and_eq_true, decide_eq_true_eq, decide_eq_true_eq]
  have hnone : t.toLedger.jobs.lookup (fresh index) = none := Store.toLedger_job_none.mpr he.new
  -- The rows of the parent are the ones it had before the sweep was retried.
  have hold : ∀ {i r}, t.jobInputs.lookup (parent, i) = some r →
      l.jobInputs.lookup (parent, i) = some r := fun hr =>
    (h.own _ _ hr).resolve_right fun hk => absurd (hk.1.symm.trans hparent) (by simp)
  refine ⟨he'.sweeps, h.enrol he' (newJob_fresh ..) howned
    (fun hf => ⟨(hf.documents _ _ hparent).valid, (hf.documents _ _ hparent).pinned,
      (hf.documents _ _ hparent).hashed, (hf.documents _ _ hparent).columns⟩)
    (fun hf => ⟨fun i input hi => ?_, fun i r hr => ?_⟩) (fun x hx => ?_)⟩
  · obtain ⟨r, d, hr, hproject, hmount, hd, hrest⟩ := (hf.bound _ _ hparent).rows i input hi
    have hrow : t'.jobInputs.lookup (fresh index, i) = some r := by
      refine foldlM_forall (fun x (u : Store) => u.jobInputs.lookup (fresh index, x.1.2) = some x.2)
        (fun u x u' hturn => ?_) (fun u x u' hturn y hy => ?_) hcopied ((parent, i), r)
        (hmem.mpr ⟨h.jobInputs _ _ hr, rfl, hproject⟩)
      all_goals obtain ⟨hfree, rfl⟩ := copyInput_eq_ok hturn
      · exact (Table.lookup_insert_ite ..).trans (if_pos rfl)
      · exact Table.Extends.insert _ hfree _ _ hy
    have hdatasets : t'.datasets.lookup r.dataset = some d := by
      rw [he'.datasets]
      exact (congrArg (fun x => x.2.2.2.2.2.2.2.1.lookup r.dataset) h.rest).trans hd
    exact ⟨r, d, hrow, hproject, hmount, hdatasets, hrest⟩
  · refine foldlM_invariant (fun u : Store => u.jobInputs.lookup (fresh index, i) = some r →
      i < j.spec.spec.inputs.length) (fun hbefore => ?_)
      (fun u x u' hx hu hturn hr' => ?_) hcopied hr
    · rw [hsame] at hbefore
      obtain hl | ⟨-, hin⟩ := h.own _ _ hbefore
      · exact absurd (h.new hnone) (hf.known _ _ hl)
      · exact absurd hnone hin
    · obtain ⟨-, rfl⟩ := copyInput_eq_ok hturn
      rw [Table.lookup_insert_ite] at hr'
      split_ifs at hr' with hk
      · obtain ⟨⟨parent', n⟩, r'⟩ := x
        obtain ⟨hrow, rfl, -⟩ := hmem.mp hx
        obtain rfl : i = n := congrArg Prod.snd hk
        exact (hf.bound _ _ hparent).only i r' (hold hrow)
      · exact hu hr'
  · obtain rfl := Option.some.inj hx
    exact hsweep

theorem retrySweep_admits {record : SweepRetryRecord}
    (h : retrySweep s now id fresh project sweep key = .ok (s', record)) :
    s.toLedger.Admits s'.toLedger := by
  simp only [retrySweep, bind_ok, require_ok] at h
  obtain ⟨-, hcanonical, h⟩ := h
  split at h
  · obtain ⟨rfl, -⟩ := pure_pair_ok.mp h
    exact .refl _
  · simp only [bind_ok, orThrow_ok, pure_pair_ok] at h
    obtain ⟨source, -, -, -, -, -, -, -, p, -, -, -, -, -, document, -, -, -, -, -, sweeps, hsweeps,
      admitted, hadmitted, rfl, -⟩ := h
    obtain ⟨hfree, htaken, hfound⟩ := Ledger.Admits.found hsweeps
    refine (foldlM_invariant (fun t : Store => t.sweeps = sweeps ∧ s.toLedger.Admits t.toLedger)
      ⟨rfl, hfound⟩ ?_ hadmitted).2
    rintro t ⟨⟨parent, j⟩, index⟩ t' hx ⟨hsame, hadmits⟩ hturn
    have hmem := List.mem_of_mem_filter (List.fst_mem_of_mem_zipIdx hx)
    have hrow := mem_sweepChildren (List.mem_of_mem_filter hmem)
    have hproject : j.project = project := of_decide_eq_true (List.mem_filter.mp hmem).2
    obtain ⟨hsame', hadmits'⟩ := hadmits.retry (Store.toLedger_job hrow)
      (fun _ => hproject ▸ of_decide_eq_true hcanonical.1) ⟨hfree, hsame ▸ htaken⟩ hturn
    exact ⟨hsame'.trans hsame, hadmits'⟩
  · exact absurd h (by simp)

end Dispatch
