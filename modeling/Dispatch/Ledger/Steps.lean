import Dispatch.Ownership.Invariant

/-!
# The ledger and its steps

Most of what is promised about the control plane is promised about fourteen of
its tables: who may run what, on which host, under which session, and what came
of it. `Ledger` keeps those tables and forgets the others, and it forgets how
many events a job has had, since every transaction that moves a job also counts
one.

`Ledger.Step` says once what can happen to a ledger, act by act and with the
checks that were passed. A transaction of the store is a sequence of such steps
(the replacement of a session fences attempts one by one before it seats the
new session), and no promise is broken in between, so a promise about runs is
proved one act at a time.
-/

namespace Dispatch

open Txn

variable {s : Store} {id : Uuid} {j : JobRow}

/-! ## The tables -/

/-- A job without the count of its events. -/
def JobRow.uncounted (j : JobRow) : JobRow := { j with eventSequence := 0 }

/-- **The ledger**: the tables that say who works on what, and what came of it. -/
structure Ledger where
  projects : Table Uuid ProjectRow
  jobs : Table Uuid JobRow
  attempts : Table Uuid AttemptRow
  reservations : Table Uuid ReservationRow
  workers : Table Uuid WorkerRow
  sessions : Table Uuid SessionRow
  takeovers : Table (Uuid × Uuid) TakeoverRow
  sweeps : Table Uuid SweepRow
  workerRequests : Table (Uuid × Uuid × Uuid) WorkerRequestRow
  jobInputs : Table (Uuid × ℕ) JobInputRow
  datasets : Table Uuid DatasetRow
  completions : Table Uuid CompletionRow
  uploads : Table Uuid UploadRow
  artifacts : Table Uuid ArtifactRow

/-- **The ledger of a store.** -/
def Store.toLedger (s : Store) : Ledger where
  projects := s.projects
  jobs := s.jobs.update (fun _ => JobRow.uncounted)
  attempts := s.attempts
  reservations := s.reservations
  workers := s.workers
  sessions := s.sessions
  takeovers := s.takeovers
  sweeps := s.sweeps
  workerRequests := s.workerRequests
  jobInputs := s.jobInputs
  datasets := s.datasets
  completions := s.completions
  uploads := s.uploads
  artifacts := s.artifacts

/-- A job of the store is a job of its ledger. -/
theorem Store.toLedger_job (h : s.jobs.lookup id = some j) :
    s.toLedger.jobs.lookup id = some j.uncounted := by
  rw [Store.toLedger, Table.lookup_update, h]
  rfl

/-- A job of the ledger is a job of the store. -/
theorem Store.job_of_toLedger
    (h : s.toLedger.jobs.lookup id = some j) :
    ∃ k, s.jobs.lookup id = some k ∧ j = k.uncounted := by
  rw [Store.toLedger, Table.lookup_update, Option.map_eq_some_iff] at h
  obtain ⟨k, hk, rfl⟩ := h
  exact ⟨k, hk, rfl⟩

theorem Store.toLedger_job_none :
    s.toLedger.jobs.lookup id = none ↔ s.jobs.lookup id = none := by
  rw [Store.toLedger, Table.lookup_update, Option.map_eq_none_iff]

/-- The tables an admission leaves alone. -/
def Ledger.others (l : Ledger) : Table Uuid ProjectRow × Table Uuid AttemptRow ×
    Table Uuid ReservationRow × Table Uuid WorkerRow × Table Uuid SessionRow ×
    Table (Uuid × Uuid) TakeoverRow × Table (Uuid × Uuid × Uuid) WorkerRequestRow ×
    Table Uuid DatasetRow × Table Uuid CompletionRow × Table Uuid UploadRow ×
    Table Uuid ArtifactRow :=
  (l.projects, l.attempts, l.reservations, l.workers, l.sessions, l.takeovers, l.workerRequests,
    l.datasets, l.completions, l.uploads, l.artifacts)

/-- The session a worker is run by. -/
def Ledger.seat (l : Ledger) (worker : Uuid) : Option Uuid :=
  (l.workers.lookup worker).bind WorkerRow.currentSession

/-- What of an attempt never changes. -/
def AttemptRow.identity (a : AttemptRow) : Uuid × ℕ × Uuid × Uuid × ℕ :=
  (a.job, a.number, a.worker, a.session, a.generation)

/-! ## What a job was admitted with -/

/-- **The document of a job** is valid, names an image by its digest and is in
the form that was hashed, and the columns the scheduler reads are the
document's. -/
structure JobRow.Documented (j : JobRow) : Prop where
  valid : j.spec.isValid = true
  pinned : pinnedImage j.spec.spec.image = true
  hashed : j.spec.canonical = j.specHash
  columns : j.resources = j.spec.spec.resources ∧ j.priority = j.spec.spec.priority

/-- **The inputs of a job** are bound, one row for each position, to datasets
of its project whose manifests describe their archives. -/
structure Ledger.Bound (l : Ledger) (id : Uuid) (j : JobRow) : Prop where
  rows : ∀ i input, j.spec.spec.inputs[i]? = some input →
    ∃ r d, l.jobInputs.lookup (id, i) = some r ∧ r.project = j.project ∧
      r.mountPath = input.mountPath ∧ l.datasets.lookup r.dataset = some d ∧
      d.project = j.project ∧ d.name = input.dataset
  only : ∀ i r, l.jobInputs.lookup (id, i) = some r → i < j.spec.spec.inputs.length

/-- Bindings stay when rows of other jobs are added. -/
theorem Ledger.Bound.mono {l l' : Ledger} (h : l.Bound id j)
    (hinputs : l.jobInputs.Extends l'.jobInputs) (hdatasets : l.datasets.Extends l'.datasets)
    (hown : ∀ i r, l'.jobInputs.lookup (id, i) = some r → l.jobInputs.lookup (id, i) = some r) :
    l'.Bound id j where
  rows i input hi := by
    obtain ⟨r, d, hr, hproject, hmount, hd, hrest⟩ := h.rows i input hi
    exact ⟨r, d, hinputs _ _ hr, hproject, hmount, hdatasets _ _ hd, hrest⟩
  only i r hr := h.only i r (hown i r hr)

/-- **The jobs of a ledger are what was admitted**: every document is in order,
every input is bound, and no input is bound for a job that is not there. -/
structure Ledger.Furnished (l : Ledger) : Prop where
  documents : ∀ id j, l.jobs.lookup id = some j → j.Documented
  bound : ∀ id j, l.jobs.lookup id = some j → l.Bound id j
  known : ∀ k r, l.jobInputs.lookup k = some r → l.jobs.lookup k.1 ≠ none

/-- A job as it is admitted into a ledger. What a retried child copies from its
parent is as good as it was there. -/
structure Ledger.Admitted (l l' : Ledger) (id : Uuid) (j : JobRow) : Prop where
  new : l.jobs.lookup id = none
  named : id ≠ 0
  owned : l.projects.lookup 0 = none → j.project ≠ 0
  queued : j.state = .queued
  counter : j.attemptCounter = 0
  current : j.currentAttempt = none
  uncancelled : j.cancelRequested = false
  unaccepted : j.acceptedAttempt = none ∧ j.acceptedManifest = none
  document : l.Furnished → j.Documented
  inputs : l.Furnished → l'.Bound id j
  sweep : ∀ x ∈ j.sweep, l.sweeps.lookup x.1 = none ∧ l'.sweeps.lookup x.1 ≠ none

/-- **An admission** adds jobs with their inputs, and the sweep they belong
to. -/
structure Ledger.Admits (l l' : Ledger) : Prop where
  rest : l'.others = l.others
  jobs : l.jobs.Extends l'.jobs
  sweeps : l.sweeps.Extends l'.sweeps
  jobInputs : l.jobInputs.Extends l'.jobInputs
  own : ∀ k r, l'.jobInputs.lookup k = some r → l.jobInputs.lookup k = some r ∨
    l.jobs.lookup k.1 = none ∧ l'.jobs.lookup k.1 ≠ none
  fresh : ∀ id j, l'.jobs.lookup id = some j →
    l.jobs.lookup id = some j ∨ l.Admitted l' id j

/-! ## Stops and ends -/

/-- A request to stop: a running job is to be cancelled by its worker, a
waiting one is cancelled. -/
def JobRow.halt (j : JobRow) : JobRow :=
  { j with
    state := if j.state = .active then .cancelling else .cancelled
    cancelRequested := true }

/-- The siblings that stop when `j` ends in state `next`. -/
def Ledger.stops (l : Ledger) (job : Uuid) (j : JobRow) (next : JobState) (id : Uuid)
    (k : JobRow) : Bool :=
  decide (next = .failed) && match j.sweep with
    | some (sweep, _) => match l.sweeps.lookup sweep with
      | some row => row.failFast && failFastCandidate job sweep row.cancelRunningOnFailure id k
      | none => false
    | none => false

/-- **The end of an attempt**: its own row, its reservation, its job and the
siblings that stop with it. -/
def Ledger.close (l : Ledger) (job attempt : Uuid) (j : JobRow) (own : JobRow → JobRow)
    (ended : AttemptRow → AttemptRow) (held : ReservationState) : Ledger :=
  { l with
    jobs := l.jobs.update (fun id k => if id = job then own k
      else if l.stops job j (own j).state id k then k.halt else k)
    attempts := l.attempts.modify attempt ended
    reservations := l.reservations.modify attempt ({ · with state := held }) }

/-- The attempt is the one its job is owned by, and holds its reservation. -/
structure Ledger.Holds (l : Ledger) (job attempt : Uuid) (j : JobRow) (a : AttemptRow)
    (r : ReservationRow) : Prop where
  found : l.jobs.lookup job = some j
  owned : j.state.isOwned = true
  current : j.currentAttempt = some attempt
  granted : l.attempts.lookup attempt = some a
  ofJob : a.job = job
  newest : a.generation = j.attemptCounter
  active : a.state.isActive = true
  reserved : l.reservations.lookup attempt = some r
  held : r.state = .active

/-! ## Assignments -/

/-- The weight of the reservations of a worker in given states. -/
def Ledger.load (l : Ledger) (worker : Uuid) (states : ReservationState → Bool)
    (weight : Resources → ℤ) : ℤ :=
  l.reservations.total (fun _ r =>
    if decide (r.worker = worker) && states r.state then weight r.resources else 0)

/-- The four weights of a reservation, and what a worker has of each. -/
inductive Measure where
  | cpu
  | memory
  | scratch
  | slot
  deriving DecidableEq, Repr

/-- How much of a measure a reservation takes. -/
def Measure.weight : Measure → Resources → ℤ
  | cpu => Resources.cpuMillis
  | memory => Resources.memoryMiB
  | scratch => Resources.scratchMiB
  | slot => fun _ => 1

/-- How much of a measure a worker has. -/
def Measure.capacity : Measure → WorkerRow → ℤ
  | cpu => fun w => w.resources.cpuMillis
  | memory => fun w => w.resources.memoryMiB
  | scratch => fun w => w.resources.scratchMiB
  | slot => WorkerRow.slots

/-- Reservations that still occupy their worker. -/
def ReservationState.occupies (st : ReservationState) : Bool := decide (st ≠ .released)

/-- **What a new assignment has passed**: the job waits and has an attempt
left, the host is ready under its current session, and what it still reserves
leaves room. -/
structure Ledger.Assigns (l : Ledger) (worker session attempt job : Uuid) (j : JobRow)
    (w : WorkerRow) : Prop where
  waits : l.jobs.lookup job = some j
  queued : j.state.isQueued = true
  uncancelled : j.cancelRequested = false
  valid : j.spec.isValid = true
  budget : (j.attemptCounter : ℤ) < j.spec.spec.retry.maxAttempts
  host : l.workers.lookup worker = some w
  seated : w.currentSession = some session
  unfenced : ∃ ss, l.sessions.lookup session = some ss ∧ ss.worker = worker ∧ ss.fencedAt = none
  ready : w.state = .ready ∧ w.reconciliationComplete = true
  fits : ∀ m : Measure, m.weight j.spec.spec.resources ≤
    m.capacity w - l.load worker ReservationState.occupies m.weight
  newAttempt : l.attempts.lookup attempt = none
  newReservation : l.reservations.lookup attempt = none

/-- **A new assignment** under the key of its request. -/
def Ledger.assign (l : Ledger) (now : Time) (worker session attempt job : Uuid) (j : JobRow)
    (key : Uuid × Uuid × Uuid) : Ledger :=
  { l with
    attempts := AList.insert attempt (newAttempt now worker session job j) l.attempts
    reservations := AList.insert attempt ⟨worker, j.spec.spec.resources, .active⟩ l.reservations
    jobs := l.jobs.modify job (fun j => { j with
      state := .active
      currentAttempt := some attempt
      attemptCounter := j.attemptCounter + 1 })
    workerRequests := AList.insert key ⟨.inl attempt⟩ l.workerRequests }

/-- The key an acquisition is answered under. -/
def Op.acquires (op : Op) (key : Uuid × Uuid × Uuid) : Prop :=
  ∃ observed queueNow identity request policy attempt,
    op = .acquire observed queueNow identity request policy attempt ∧
      key = (identity.workerID, request.sessionID, request.requestID)

/-! ## Phases -/

/-- **What an attempt that enters a phase has passed**: it was still within its
deadline, and the phase follows its state with the runtime evidence it has. -/
structure Ledger.Enters (l : Ledger) (now : Time) (attempt : Uuid) (a : AttemptRow)
    (claims : PhaseClaims) (deadline : Time) : Prop where
  granted : l.attempts.lookup attempt = some a
  active : a.state.isActive = true
  evidence : validPhaseEvidence claims = true
  moves : a.state ≠ claims.phase
  early : now < a.phaseDeadline
  deadline : ∃ j, l.jobs.lookup a.job = some j ∧
    nextPhaseDeadline claims a j.spec now = .ok deadline

/-! ## Completions -/

/-- **What a manifest publishes**: verified outputs that the attempt itself
uploaded, each under a name its document declares and within the declared size,
metrics with the exact bytes of the file they were read from, and for a success
every output the document requires. -/
structure Ledger.Publishes (l : Ledger) (r : CompletionRequest) (spec : JobSpec)
    (m : ResultManifest) : Prop where
  outputs : ∀ o ∈ m.outputs, ∃ a u, l.artifacts.lookup o.artifactID = some a ∧
    l.uploads.lookup a.upload = some u ∧ u.claims.authority.attemptID = r.authority.attemptID ∧
    u.claims.kind = .output ∧ u.claims.logicalName = o.name ∧
    o.object = ⟨u.key a.upload, a.objectVersion, u.claims.sizeBytes, u.claims.sha256⟩ ∧
    ∃ d ∈ spec.outputs, d.name = o.name ∧ u.claims.sizeBytes ≤ d.maxBytes
  required : r.reason = none → ∀ d ∈ spec.outputs, d.required = true →
    ∃ o ∈ m.outputs, o.name = d.name
  metrics : ∀ d ∈ r.metricsJSON, ∃ o ∈ m.outputs, o.name = "metrics" ∧
    m.metricsArtifactID = some o.artifactID ∧ o.object.sha256 = d.sha256 ∧
    o.object.sizeBytes = d.length
  source : ∀ o ∈ m.outputs, o.name = "metrics" → ∃ d ∈ r.metricsJSON,
    o.object.sha256 = d.sha256 ∧ o.object.sizeBytes = d.length
  measured : ∀ p, normalizeCompletion r = .ok p → m.metrics = p.metrics

/-- **What an accepted completion has passed.** -/
structure Ledger.Completes (l : Ledger) (completed now : Time) (identity : WorkerIdentity)
    (r : CompletionRequest) (p : CompletionPayload) (j : JobRow) (a : AttemptRow)
    (m : ResultManifest) : Prop where
  payload : normalizeCompletion r = .ok p
  authority : a.authority r.authority.attemptID = r.authority
  first : l.completions.lookup r.authority.attemptID = none
  unused : ∀ attempt c, l.completions.lookup attempt = some c →
    ¬ (c.worker = identity.workerID ∧ c.session = r.authority.sessionID ∧
      c.completionID = r.completionID)
  mine : r.authority.workerID = identity.workerID
  early : completionDecision r j.lease (a.lease r.authority.attemptID) completed = .accepted
  late : completionDecision r j.lease (a.lease r.authority.attemptID) now = .accepted
  phase : validateCompletionPhase r a.state a.exitCode j.cancelRequested = .ok ()
  manifest : l.Publishes r j.spec.spec m

/-- The row of an accepted completion. -/
def CompletionRequest.row (r : CompletionRequest) (p : CompletionPayload) (state : AttemptState)
    (m : ResultManifest) : CompletionRow where
  job := r.authority.jobID
  worker := r.authority.workerID
  session := r.authority.sessionID
  generation := r.authority.generation
  completionID := r.completionID
  payloadDigest := p
  state := state
  manifest := m

/-- **The end of an attempt by its own worker.** -/
def Ledger.complete (l : Ledger) (completed : Time) (r : CompletionRequest) (p : CompletionPayload)
    (j : JobRow) (out : CompletionOutcome) (m : ResultManifest) : Ledger :=
  { l.close r.authority.jobID r.authority.attemptID j (·.complete r.authority.attemptID out m)
      (·.complete r p out.state completed) (if r.stopped then .released else .quarantined) with
    completions := AList.insert r.authority.attemptID (r.row p out.state m) l.completions }

/-! ## Sessions and heartbeats -/

/-- The sessions of a worker fenced, as a replacement does before it seats its
own. -/
def Ledger.fenceSessions (l : Ledger) (now : Time) (worker : Uuid) : Table Uuid SessionRow :=
  l.sessions.update (fun _ ss =>
    if ss.worker = worker ∧ ss.fencedAt = none then { ss with fencedAt := some now } else ss)

/-- **What a new session finds**: nothing of its worker is active any more, and
every session of the worker is fenced or was never there. -/
structure Ledger.Vacant (l : Ledger) (now : Time) (worker : Uuid) (w : WorkerRow)
    (hash : RegistrationClaims) (sessions : Table Uuid SessionRow) (generation : ℕ)
    (takeovers : Table (Uuid × Uuid) TakeoverRow) : Prop where
  host : l.workers.lookup worker = some w
  idle : ∀ id a, l.attempts.lookup id = some a → a.worker = worker → a.state.isActive = false
  valid : validateWorkerConfiguration hash.resources hash.slots hash.labels = true
  fenced : sessions = l.fenceSessions now worker ∨ sessions = l.sessions ∧ w.currentSession = none
  fresh : l.sessions.lookup hash.sessionID = none
  newest : ∀ id ss, l.sessions.lookup id = some ss → ss.worker = worker → ss.generation < generation
  /-- An approval is used once. -/
  approval : takeovers = l.takeovers ∨ ∃ k t, l.takeovers.lookup k = some t ∧ t.usedAt = none ∧
    takeovers = l.takeovers.modify k (fun t => { t with usedAt := some now })

/-- **A new session takes a worker.** -/
def Ledger.install (l : Ledger) (now : Time) (worker : Uuid) (hash : RegistrationClaims)
    (sessions : Table Uuid SessionRow) (generation : ℕ)
    (takeovers : Table (Uuid × Uuid) TakeoverRow) : Ledger :=
  { l with
    sessions := AList.insert hash.sessionID ⟨worker, generation, now, none, hash, 0, none, none⟩
      sessions
    workers := l.workers.modify worker (·.register now hash)
    takeovers := takeovers }

/-- **What lets a report release a reservation**: it is quarantined, its
attempt has ended, and the session that ran it is another one and fenced. -/
structure Ledger.Releasable (l : Ledger) (worker session id : Uuid) : Prop where
  quarantined : ∃ r, l.reservations.lookup id = some r ∧ r.state = .quarantined
  ended : ∃ a ss, l.attempts.lookup id = some a ∧ a.worker = worker ∧
    a.state.isActive = false ∧ a.session ≠ session ∧ l.sessions.lookup a.session = some ss ∧
    ss.fencedAt ≠ none

/-- **What a first report of its number has passed.** -/
structure Ledger.Reports (l : Ledger) (identity : WorkerIdentity) (report : HeartbeatReport)
    (w : WorkerRow) (released : List Uuid) (reconciled : Bool) : Prop where
  host : l.workers.lookup identity.workerID = some w
  seated : w.currentSession = some report.claims.sessionID
  unfenced : ∃ ss, l.sessions.lookup report.claims.sessionID = some ss ∧
    ss.worker = identity.workerID ∧ ss.fencedAt = none ∧
    ss.heartbeatSequence < report.claims.sequence
  proven : ∀ id ∈ released, l.Releasable identity.workerID report.claims.sessionID id
  /-- A reconciled host has nothing quarantined left. -/
  clean : reconciled = true → ∀ id a j r ss, l.attempts.lookup id = some a →
    a.worker = identity.workerID → l.jobs.lookup a.job = some j →
    l.reservations.lookup id = some r → l.sessions.lookup a.session = some ss →
    r.state = .quarantined → id ∈ released

/-- **The report of a host.** -/
def Ledger.report (l : Ledger) (now : Time) (identity : WorkerIdentity) (report : HeartbeatReport)
    (hash : HeartbeatClaims) (drain : Bool) (released : List Uuid) (reconciled : Bool) : Ledger :=
  { l with
    reservations := l.reservations.update (fun id r =>
      if id ∈ released then { r with state := .released } else r)
    attempts := l.attempts.update (fun id a =>
      if id ∈ released then { a with cleanupPending := false } else a)
    sessions := l.sessions.modify report.claims.sessionID (fun ss => { ss with
      heartbeatSequence := report.claims.sequence
      heartbeatRequest := some report.requestID
      heartbeatHash := some hash })
    workers := l.workers.modify identity.workerID (fun w => { w with
      state := reportedState report.claims reconciled drain
      reconciliationComplete := reconciled
      runtimeHealthy := report.claims.runtimeHealthy
      diskPressure := report.claims.diskPressure
      lastHeartbeat := some now }) }

/-! ## The steps -/

/-- **What can happen to a ledger** in a transaction at a time. -/
inductive Ledger.Step (sha : Uuid → ℕ) (op : Op) (now : Time) : Ledger → Ledger → Prop where
  /-- Uploads and verified artifacts are added. -/
  | file (l : Ledger) (uploads : Table Uuid UploadRow) (artifacts : Table Uuid ArtifactRow)
      (huploads : l.uploads.Extends uploads) (hartifacts : l.artifacts.Extends artifacts) :
      Step sha op now l { l with uploads := uploads, artifacts := artifacts }
  | dataset (l : Ledger) (id : Uuid) (row : DatasetRow) (hfree : l.datasets.lookup id = none)
      (hvalid : row.manifest.validate row.object.sizeBytes = true) :
      Step sha op now l { l with datasets := AList.insert id row l.datasets }
  | admits (l l' : Ledger) (h : l.Admits l') : Step sha op now l l'
  | cancel (l : Ledger) (job : Uuid) (j : JobRow) (hj : l.jobs.lookup job = some j)
      (hstate : j.state.isQueued = true ∨ j.state = .active) :
      Step sha op now l { l with jobs := l.jobs.modify job JobRow.halt }
  /-- An acquisition finds nothing, and will find nothing when it is
  repeated. -/
  | refuse (l : Ledger) (key : Uuid × Uuid × Uuid) (reason : NoWork) (hop : op.acquires key)
      (hfree : l.workerRequests.lookup key = none) :
      Step sha op now l
        { l with workerRequests := AList.insert key ⟨.inr reason⟩ l.workerRequests }
  | assign (l : Ledger) (worker session request attempt job : Uuid) (j : JobRow) (w : WorkerRow)
      (hop : op.acquires (worker, session, request))
      (hfree : l.workerRequests.lookup (worker, session, request) = none)
      (h : l.Assigns worker session attempt job j w) :
      Step sha op now l (l.assign now worker session attempt job j (worker, session, request))
  | renew (l : Ledger) (attempt : Uuid) (a : AttemptRow) (lease : Time)
      (ha : l.attempts.lookup attempt = some a) (hactive : a.state.isActive = true) :
      Step sha op now l { l with
        attempts := l.attempts.modify attempt (fun a => { a with leaseExpiresAt := lease }) }
  | phase (l : Ledger) (attempt : Uuid) (a : AttemptRow) (claims : PhaseClaims) (deadline : Time)
      (hop : ∃ seen identity report, op = .phase seen identity report)
      (h : l.Enters now attempt a claims deadline) :
      Step sha op now l { l with
        attempts := l.attempts.modify attempt (·.enterPhase claims deadline) }
  | complete (l : Ledger) (completed : Time) (identity : WorkerIdentity) (r : CompletionRequest)
      (p : CompletionPayload) (j : JobRow) (a : AttemptRow) (res : ReservationRow)
      (m : ResultManifest) (hop : op = .complete completed identity r)
      (hholds : l.Holds r.authority.jobID r.authority.attemptID j a res)
      (h : l.Completes completed now identity r p j a m) :
      Step sha op now l
        (l.complete completed r p j (completionOutcome sha r j.spec completed now) m)
  /-- An attempt is lost, in a transaction that acquires none. -/
  | fence (l : Ledger) (job attempt : Uuid) (j : JobRow) (a : AttemptRow) (r : ReservationRow)
      (hholds : l.Holds job attempt j a r) (hop : ∀ key, ¬ op.acquires key) :
      Step sha op now l
        (l.close job attempt j (·.fence (fenceOutcome sha j a attempt now))
          (·.fence (fenceOutcome sha j a attempt now) now) .quarantined)
  /-- Expiry does not prove a physical stop: the host is ineligible. -/
  | retire (l : Ledger) (worker : Uuid) :
      Step sha op now l { l with
        workers := l.workers.modify worker (fun w => { w with
          state := .registering
          reconciliationComplete := false }) }
  | approve (l : Ledger) (worker fromSession toSession : Uuid)
      (hfree : l.takeovers.lookup (worker, fromSession) = none) :
      Step sha op now l { l with
        takeovers := AList.insert (worker, fromSession) ⟨toSession, none⟩ l.takeovers }
  | seat (l : Ledger) (worker : Uuid) (w : WorkerRow) (hash : RegistrationClaims)
      (sessions : Table Uuid SessionRow) (generation : ℕ)
      (takeovers : Table (Uuid × Uuid) TakeoverRow)
      (h : l.Vacant now worker w hash sessions generation takeovers)
      (hop : ∃ identity r, op = .register identity r) :
      Step sha op now l (l.install now worker hash sessions generation takeovers)
  | report (l : Ledger) (identity : WorkerIdentity) (report : HeartbeatReport)
      (hash : HeartbeatClaims) (w : WorkerRow) (released : List Uuid) (reconciled : Bool)
      (hop : op = .heartbeat identity report)
      (h : l.Reports identity report w released reconciled) :
      Step sha op now l
        (l.report now identity report hash w.drainRequested released reconciled)
  | drain (l : Ledger) (worker : Uuid) :
      Step sha op now l { l with
        workers := l.workers.modify worker (fun w => { w with
          drainRequested := true
          state := if w.state = .ready then .draining else w.state }) }
  | provision (l : Ledger) (worker : Uuid) (row : WorkerRow)
      (hfree : l.workers.lookup worker = none) :
      Step sha op now l { l with
        workers := AList.insert worker { row with currentSession := none } l.workers }
  | operate (l : Ledger) (projects : Table Uuid ProjectRow) (h : projects.lookup 0 = none) :
      Step sha op now l { l with projects := projects }

/-- Some steps of one transaction. -/
abbrev Ledger.Steps (sha : Uuid → ℕ) (op : Op) (now : Time) : Ledger → Ledger → Prop :=
  Relation.ReflTransGen (Ledger.Step sha op now)

end Dispatch
