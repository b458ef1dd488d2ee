import Dispatch.Store.Sessions

/-!
# Admission and cancellation

A submission turns a valid, pinned and resolved document into a queued job,
under an idempotency key that makes a repeated request find the job it made
the first time. A sweep is admitted with all its children or not at all; a
retry of a sweep copies its failed and cancelled children into fresh jobs.
Cancellation records the intent to stop; a running job keeps its attempt until
the worker or a fence ends it.

The identifiers PostgreSQL draws at random are arguments: `id` for the row
itself and `fresh i` for the `i`-th child.
-/

namespace Dispatch

open Txn

/-- `pinnedImage`: a reference fixed by its digest. -/
def pinnedImage (image : String) : Bool :=
  let cs := image.toList
  let name := cs.take (cs.length - 72)
  decide (72 < cs.length) &&
    name.all (fun c => !(c == '@' || c == ' ' || c == '\t' || c == '\n' || c == '\x0c' ||
      c == '\r')) &&
    decide ((cs.drop (cs.length - 72)).take 8 = "@sha256:".toList) &&
    hashPattern (String.ofList (cs.drop (cs.length - 64)))

/-- A registered dataset, as a submission is bound to it. -/
structure DatasetBinding where
  id : Uuid
  name : String
  object : ArtifactObject
  manifest : DatasetManifest
  deriving DecidableEq, Repr

/-- A job as its project reads it. -/
structure JobRecord where
  id : Uuid
  projectID : Uuid
  state : JobState
  spec : Job
  specHash : Job
  createdAt : Time
  acceptedAttemptID : Option Uuid
  acceptedManifest : Option ResultManifest
  replayed : Bool
  deriving DecidableEq

/-- The record of a job: its row, and the manifest of the accepted completion
and of no other. -/
def JobRow.record (s : Store) (id : Uuid) (j : JobRow) (replayed : Bool) : JobRecord where
  id := id
  projectID := j.project
  state := j.state
  spec := j.spec
  specHash := j.specHash
  createdAt := j.createdAt
  acceptedAttemptID := j.acceptedAttempt
  acceptedManifest := j.acceptedAttempt.bind (fun a =>
    (s.completions.lookup a).bind (fun c =>
      if c.job = id ∧ c.state = .succeeded then some c.manifest else none))
  replayed := replayed

/-- A job as its project reads it. -/
def getJob (s : Store) (project id : Uuid) : Except StoreError JobRecord := do
  let j ← orThrow (s.jobs.lookup id) .notFound
  require (j.project = project) .notFound
  pure (j.record s id false)

/-- The project of a name; names are unique. -/
def projectNamed (s : Store) (name : String) : Option (Uuid × ProjectRow) :=
  (s.projects.select (fun _ p => decide (p.name = name))).head?

/-! ## Jobs -/

/-- The row of a job as it is admitted. -/
def newJob (now : Time) (project : Uuid) (parent : Option Uuid) (spec specHash : Job)
    (resources : Resources) (priority : ℤ) (sweep : Option (Uuid × ℕ)) : JobRow where
  project := project
  parentJob := parent
  spec := spec
  specHash := specHash
  state := .queued
  resources := resources
  priority := priority
  nextEligibleAt := now
  attemptCounter := 0
  currentAttempt := none
  cancelRequested := false
  acceptedAttempt := none
  acceptedManifest := none
  eventSequence := 1
  createdAt := now
  sweep := sweep

/-- The row of a submitted document, stored in canonical form. -/
def newSubmission (now : Time) (project : Uuid) (job : Job) (sweep : Option (Uuid × ℕ)) : JobRow :=
  newJob now project none job.canonical job.canonical job.spec.resources job.spec.priority sweep

/-- Insert a job with its first event. Its identifier is drawn at random and
never nil. -/
def Store.insertJob (s : Store) (now : Time) (id : Uuid) (row : JobRow)
    (parent : Option (Uuid × Uuid)) : Except StoreError Store := do
  require (id ≠ 0 ∧ row.spec.fitsColumn) .database
  let jobs ← orThrow (s.jobs.insertNew id row) .database
  let events ← orThrow (s.events.insertNew (id, 1) ⟨none, .submitted row.specHash parent, now⟩)
    .database
  pure { s with jobs := jobs, events := events }

/-- Bind one input: the dataset must be of the project and carry the name. -/
def insertInput (project job : Uuid) (s : Store) (input : ℕ × DatasetBinding × String) :
    Except StoreError Store := do
  let (position, binding, mountPath) := input
  let d ← orThrow (s.datasets.lookup binding.id) .notFound
  require (d.project = project ∧ d.name = binding.name) .notFound
  let rows ← orThrow (s.jobInputs.insertNew (job, position) ⟨project, binding.id, mountPath⟩)
    .database
  pure { s with jobInputs := rows }

/-- Bind the inputs of a document in order. -/
def insertInputs (s : Store) (project job : Uuid) (bindings : List DatasetBinding)
    (inputs : List Input) : Except StoreError Store :=
  ((bindings.zip (inputs.map Input.mountPath)).zipIdx.map (fun x => (x.2, x.1))).foldlM
    (insertInput project job) s

/-- The document is pinned and every input has one registered identity. -/
def resolved (job : Job) (bindings : List DatasetBinding) : Bool :=
  pinnedImage job.spec.image && decide (job.spec.inputs.length = bindings.length) &&
    (bindings.zip job.spec.inputs).all (fun x =>
      canonicalUUID x.1.id && decide (x.1.name = x.2.dataset))

/-- An idempotency key: 1 to 128 bytes. -/
def validKey (key : String) : Bool :=
  decide (1 ≤ key.utf8ByteSize) && decide (key.utf8ByteSize ≤ 128)

/-- The job an earlier submission under the key made. -/
def lookupSubmission (s : Store) (project key requestHash : String) :
    Except StoreError JobRecord := do
  let (projectID, _) ← orThrow (projectNamed s project) .notFound
  let saved ← orThrow (s.idempotency.lookup (projectID, .jobs, key)) .notFound
  let j ← orThrow (s.jobs.lookup saved.response) .notFound
  require (saved.requestHash = requestHash) .conflict
  pure (j.record s saved.response true)

/-- **Submission of a job.** -/
def submitJobResolved (s : Store) (now : Time) (id : Uuid) (key requestHash : String) (job : Job)
    (bindings : List DatasetBinding) : Except StoreError (Store × JobRecord) := do
  require (validKey key ∧ hashPattern requestHash) .invalid
  require job.isValid .invalid
  require (resolved job bindings) .invalid
  let (projectID, p) ← orThrow (projectNamed s job.metadata.project) .notFound
  match s.idempotency.lookup (projectID, .jobs, key) with
  | some _ =>
    let record ← lookupSubmission s job.metadata.project key requestHash
    pure (s, record)
  | none =>
    require (p.enabled = true) .disabled
    require (job.spec.resources.cpuMillis ≤ p.cpuQuota ∧
      job.spec.resources.memoryMiB ≤ p.memoryQuotaMiB) .quota
    let keyed := { s with
      idempotency := AList.insert (projectID, .jobs, key) ⟨requestHash, id⟩ s.idempotency }
    let row := newSubmission now projectID job none
    let admitted ← keyed.insertJob now id row none
    let bound ← insertInputs admitted projectID id bindings job.spec.inputs
    pure (bound, row.record bound id false)

/-! ## Sweeps -/

/-- A sweep as its submission returns it. -/
structure SweepRecord where
  id : Uuid
  projectID : Uuid
  spec : SweepDocument
  childIDs : List Uuid
  maxConcurrent : ℤ
  createdAt : Time
  replayed : Bool
  deriving DecidableEq

/-- The jobs of a sweep in child order. -/
def sweepChildren (s : Store) (sweep : Uuid) : List (Uuid × JobRow) :=
  (s.jobs.select (fun _ j => decide (j.sweep.map Prod.fst = some sweep))).insertionSort
    (fun x y => (x.2.sweep.map Prod.snd).getD 0 ≤ (y.2.sweep.map Prod.snd).getD 0)

/-- The ids of a sweep's jobs, in child order. -/
def sweepChildIDs (s : Store) (sweep : Uuid) : List Uuid := (sweepChildren s sweep).map Prod.fst

/-- The sweep an earlier submission under the key made. -/
def lookupSweepSubmission (s : Store) (project key requestHash : String) :
    Except StoreError SweepRecord := do
  let (projectID, _) ← orThrow (projectNamed s project) .notFound
  let saved ← orThrow (s.idempotency.lookup (projectID, .sweeps, key)) .notFound
  let row ← orThrow (s.sweeps.lookup saved.response) .notFound
  require (saved.requestHash = requestHash) .conflict
  pure ⟨saved.response, row.project, row.spec, sweepChildIDs s saved.response, row.maxConcurrent,
    row.createdAt, true⟩

/-- One child of a sweep: its job, its inputs and its event. -/
def insertChild (now : Time) (project sweep : Uuid) (fresh : ℕ → Uuid)
    (bindings : List DatasetBinding) (s : Store) (child : Job × ℕ) : Except StoreError Store := do
  let (job, index) := child
  require job.isValid .invalid
  let admitted ← s.insertJob now (fresh index)
    (newSubmission now project job (some (sweep, index))) none
  insertInputs admitted project (fresh index) bindings job.spec.inputs

/-- **Submission of a sweep.** -/
def submitSweepResolved (s : Store) (now : Time) (id : Uuid) (fresh : ℕ → Uuid)
    (key requestHash : String) (sweep : Sweep) (bindings : List DatasetBinding) :
    Except StoreError (Store × SweepRecord) := do
  require (validKey key ∧ hashPattern requestHash) .invalid
  let children ← orThrow sweep.expand.toOption .invalid
  require (resolved sweep.jobTemplate bindings) .invalid
  let (projectID, p) ← orThrow (projectNamed s sweep.metadata.project) .notFound
  match s.idempotency.lookup (projectID, .sweeps, key) with
  | some _ =>
    let record ← lookupSweepSubmission s sweep.metadata.project key requestHash
    pure (s, record)
  | none =>
    require (p.enabled = true) .disabled
    require (∀ c ∈ children, c.spec.resources.cpuMillis ≤ p.cpuQuota ∧
      c.spec.resources.memoryMiB ≤ p.memoryQuotaMiB) .quota
    let document : SweepDocument := ⟨sweep.canonical, none⟩
    require document.fitsColumn .database
    let row : SweepRow := ⟨projectID, none, sweep.metadata.name, document, children.length,
      sweep.maxConcurrent, sweep.failFast, sweep.cancelRunningOnFailure, now⟩
    let sweeps ← orThrow (s.sweeps.insertNew id row) .database
    let keyed := { s with
      idempotency := AList.insert (projectID, .sweeps, key) ⟨requestHash, id⟩ s.idempotency
      sweeps := sweeps }
    let admitted ← children.zipIdx.foldlM (insertChild now projectID id fresh bindings) keyed
    pure (admitted, ⟨id, projectID, document, (List.range children.length).map fresh,
      sweep.maxConcurrent, now, false⟩)

/-! ## Retries of a sweep -/

/-- A sweep that retries another, as the request for it returns it. -/
structure SweepRetryRecord where
  id : Uuid
  projectID : Uuid
  parentSweepID : Uuid
  spec : SweepDocument
  maxConcurrent : ℤ
  /-- Child, its index and the job it retries. -/
  children : List (Uuid × ℕ × Option Uuid)
  createdAt : Time
  replayed : Bool
  deriving DecidableEq

/-- The children of a retry. -/
def sweepRetryChildren (s : Store) (sweep : Uuid) : List (Uuid × ℕ × Option Uuid) :=
  (sweepChildren s sweep).map (fun x => (x.1, (x.2.sweep.map Prod.snd).getD 0, x.2.parentJob))

/-- The retry an earlier request under the key made. The endpoint names the
sweep, so the hash of the sweep id always agrees. -/
def lookupSweepRetry (s : Store) (project sweep : Uuid) (key : String) :
    Except StoreError SweepRetryRecord := do
  let saved ← orThrow (s.idempotency.lookup (project, .retry sweep, key)) .notFound
  let row ← orThrow (s.sweeps.lookup saved.response) .notFound
  require (row.project = project ∧ row.parentSweep = some sweep) .notFound
  pure ⟨saved.response, row.project, sweep, row.spec, row.maxConcurrent,
    sweepRetryChildren s saved.response, row.createdAt, true⟩

/-- `retrySweepSpec`: the frozen document and the selection. -/
def retrySweepSpec (source : SweepDocument) (sweep : Uuid) (parents : List Uuid) :
    Except StoreError SweepDocument := do
  let document : SweepDocument := { source with retry := some (sweep, parents) }
  require (Json.size goStyle document.toJson ≤ 2 * 2 ^ 20) .invalid
  pure document

/-- One retried child: a fresh job with the parent's frozen document, hash,
resources, priority and inputs. -/
def insertRetry (now : Time) (source sweep : Uuid) (fresh : ℕ → Uuid) (s : Store)
    (parent : (Uuid × JobRow) × ℕ) : Except StoreError Store := do
  let ((id, j), index) := parent
  let admitted ← s.insertJob now (fresh index)
    (newJob now j.project (some id) j.spec j.specHash j.resources j.priority (some (sweep, index)))
    (some (id, source))
  (s.jobInputs.select (fun k r => decide (k.1 = id) && decide (r.project = j.project))).foldlM
    (fun s x => do
      let rows ← orThrow (s.jobInputs.insertNew (fresh index, x.1.2) x.2) .database
      pure { s with jobInputs := rows }) admitted

/-- **Retry of the unsuccessful children of a finished sweep.** -/
def retrySweep (s : Store) (now : Time) (id : Uuid) (fresh : ℕ → Uuid) (project sweep : Uuid)
    (key : String) : Except StoreError (Store × SweepRetryRecord) := do
  require (canonicalUUID project ∧ canonicalUUID sweep ∧ validKey key) .invalid
  match lookupSweepRetry s project sweep key with
  | .ok saved => pure (s, saved)
  | .error .notFound =>
    let source ← orThrow (s.sweeps.lookup sweep) .notFound
    require (source.project = project) .notFound
    let children := (sweepChildren s sweep).filter (fun x => decide (x.2.project = project))
    let parents := children.filter (fun x =>
      decide (x.2.state = .failed) || decide (x.2.state = .cancelled))
    require (children.length = source.childCount ∧ 1 ≤ children.length ∧
      children.length ≤ maxSweepJobs) .invalid
    require ((∀ x ∈ children, x.2.state.isTerminal = true) ∧ parents ≠ []) .conflict
    let p ← orThrow (s.projects.lookup project) .database
    require (p.enabled = true) .disabled
    require (∀ x ∈ parents, x.2.resources.cpuMillis ≤ p.cpuQuota ∧
      x.2.resources.memoryMiB ≤ p.memoryQuotaMiB) .quota
    let document ← retrySweepSpec source.spec sweep (parents.map Prod.fst)
    -- A key taken without a sweep behind it is looked up again, and not found.
    require (s.idempotency.lookup (project, .retry sweep, key)).isNone .notFound
    require document.fitsColumn .database
    let sweeps ← orThrow (s.sweeps.insertNew id { source with
      parentSweep := some sweep
      spec := document
      childCount := parents.length
      createdAt := now }) .database
    let keyed := { s with
      idempotency := AList.insert (project, .retry sweep, key) ⟨toString sweep, id⟩ s.idempotency
      sweeps := sweeps }
    let admitted ← parents.zipIdx.foldlM (insertRetry now sweep id fresh) keyed
    pure (admitted, ⟨id, project, sweep, document, source.maxConcurrent,
      sweepRetryChildren admitted id, now, false⟩)
  | .error e => throw e

/-! ## What an admission writes -/

/-- **One write of an admission** in a transaction that began at `s`: the key
with the sweep, a job as it is admitted, or the binding of an input. A job has a
valid document of its own or the document of a job that was there. -/
inductive Enrolment (s : Store) (now : Time) : Store → Store → Prop where
  | key (t : Store) (idempotency : Table (Uuid × Endpoint × String) IdempotencyRow)
      (sweeps : Table Uuid SweepRow) :
      Enrolment s now t { t with idempotency := idempotency, sweeps := sweeps }
  | job {t t' : Store} {id project : Uuid} {parent : Option Uuid} {spec specHash : Job}
      {resources : Resources} {priority : ℤ} {sweep : Option (Uuid × ℕ)}
      {origin : Option (Uuid × Uuid)}
      (h : t.insertJob now id
        (newJob now project parent spec specHash resources priority sweep) origin = .ok t')
      (hdocument : resources = spec.spec.resources ∧ spec.isValid = true ∨
        ∃ id j, s.jobs.lookup id = some j ∧ j.spec = spec ∧ j.resources = resources) :
      Enrolment s now t t'
  | input (t : Store) (rows : Table (Uuid × ℕ) JobInputRow) :
      Enrolment s now t { t with jobInputs := rows }

/-- Any number of rows, one after another. -/
abbrev Enrolments (s : Store) (now : Time) : Store → Store → Prop :=
  Relation.ReflTransGen (Enrolment s now)

section Enrolments

variable {s t t' s' : Store} {now : Time} {id project job sweep : Uuid} {fresh : ℕ → Uuid}
  {key requestHash : String} {bindings : List DatasetBinding}

theorem insertInputs_enrolments {inputs : List Input} (hs : Enrolments s now s t)
    (h : insertInputs t project job bindings inputs = .ok t') : Enrolments s now s t' := by
  refine foldlM_invariant (Enrolments s now s) hs (fun u x u' _ hu hturn => ?_) h
  simp only [insertInput, bind_ok, pure_ok] at hturn
  obtain ⟨d, -, -, -, rows, -, rfl⟩ := hturn
  exact hu.tail (.input u rows)

theorem submitJobResolved_enrolments {job : Job} {record : JobRecord}
    (h : submitJobResolved s now id key requestHash job bindings = .ok (s', record)) :
    Enrolments s now s s' := by
  simp only [submitJobResolved, bind_ok] at h
  obtain ⟨-, -, _, hvalid, -, -, ⟨project, p⟩, -, h⟩ := h
  split at h
  · simp only [bind_ok, pure_pair_ok] at h
    obtain ⟨_, -, rfl, -⟩ := h
    exact .refl
  · simp only [bind_ok, pure_pair_ok] at h
    obtain ⟨-, -, -, -, admitted, hadmitted, bound, hbound, rfl, -⟩ := h
    have hkeyed : Enrolments s now s { s with
      idempotency := AList.insert (project, .jobs, key) ⟨requestHash, id⟩ s.idempotency } :=
      .single (.key s _ s.sweeps)
    exact insertInputs_enrolments (hkeyed.tail (.job hadmitted
      (.inl ⟨rfl, Job.isValid_canonical (require_ok.mp hvalid)⟩))) hbound

theorem submitSweepResolved_enrolments {sweep : Sweep} {record : SweepRecord}
    (h : submitSweepResolved s now id fresh key requestHash sweep bindings = .ok (s', record)) :
    Enrolments s now s s' := by
  simp only [submitSweepResolved, bind_ok] at h
  obtain ⟨-, -, children, -, -, -, ⟨project, p⟩, -, h⟩ := h
  split at h
  · simp only [bind_ok, pure_pair_ok] at h
    obtain ⟨_, -, rfl, -⟩ := h
    exact .refl
  · simp only [bind_ok, pure_pair_ok] at h
    obtain ⟨-, -, -, -, -, -, sweeps, -, admitted, hadmitted, rfl, -⟩ := h
    refine foldlM_invariant (Enrolments s now s) (.single (.key s _ sweeps))
      (fun t child t' _ ht hturn => ?_) hadmitted
    simp only [insertChild, bind_ok] at hturn
    obtain ⟨_, hvalid, one, hone, hbound⟩ := hturn
    exact insertInputs_enrolments (ht.tail (.job hone
      (.inl ⟨rfl, Job.isValid_canonical (require_ok.mp hvalid)⟩))) hbound

theorem mem_sweepChildren {x : Uuid × JobRow} (h : x ∈ sweepChildren s sweep) :
    s.jobs.lookup x.1 = some x.2 :=
  ((Table.mem_select ..).mp ((List.mem_insertionSort _).mp h)).1

theorem retrySweep_enrolments {record : SweepRetryRecord}
    (h : retrySweep s now id fresh project sweep key = .ok (s', record)) :
    Enrolments s now s s' := by
  simp only [retrySweep, bind_ok] at h
  obtain ⟨-, -, h⟩ := h
  split at h
  · obtain ⟨rfl, -⟩ := pure_pair_ok.mp h
    exact .refl
  · simp only [bind_ok, pure_pair_ok] at h
    obtain ⟨source, -, -, -, -, -, -, -, p, -, -, -, -, -, document, -, -, -, -, -, sweeps, -,
      admitted, hadmitted, rfl, -⟩ := h
    refine foldlM_invariant (Enrolments s now s) (.single (.key s _ sweeps))
      (fun t x t' hx ht hturn => ?_) hadmitted
    have hmem := List.fst_mem_of_mem_zipIdx hx
    have hrow := mem_sweepChildren (List.mem_of_mem_filter (List.mem_of_mem_filter hmem))
    simp only [insertRetry, bind_ok] at hturn
    obtain ⟨one, hone, hbound⟩ := hturn
    refine foldlM_invariant (Enrolments s now s)
      (ht.tail (.job hone (.inr ⟨_, _, hrow, rfl, rfl⟩))) (fun u y u' _ hu hinput => ?_) hbound
    simp only [bind_ok, pure_ok] at hinput
    obtain ⟨rows, -, rfl⟩ := hinput
    exact hu.tail (.input u rows)
  · exact absurd h (by simp)

end Enrolments

/-! ## Cancellation -/

/-- **A request to cancel.** Terminal jobs and repeated requests keep their
first outcome. The answer is read by `getJob` after the commit. -/
def requestCancellation (s : Store) (now : Time) (project job : Uuid) :
    Except StoreError Store := do
  require (canonicalUUID project ∧ canonicalUUID job) .notFound
  let j ← orThrow (s.jobs.lookup job) .notFound
  require (j.project = project) .notFound
  if j.state.isQueued ∨ j.state = .active then
    let next : JobState := if j.state = .active then .cancelling else .cancelled
    let stopped := { s with
      jobs := s.jobs.modify job (fun j => { j with state := next, cancelRequested := true }) }
    stopped.appendEvent now job none (.cancelRequested j.state next)
  else pure s

end Dispatch
