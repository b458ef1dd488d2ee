import Dispatch.Spec.Sweep

/-!
# The tables of the control plane

One row type per table the modelled transactions read or write, under the
column names of the migrations, and the `Store` that holds them. A primary
key is the key of its `Table`; the other unique constraints are checks of the
transactions that insert.

* An identifier is a natural number, `0` being the nil UUID that no request
  may carry. PostgreSQL compares UUIDs as their 128 bits, so `ORDER BY id` is
  the order of the numbers.
* A time is a number of nanoseconds, `0` being Go's zero time.
* A request hash is the request it hashes: the column holds the normalised
  request itself, so that two hashes are equal exactly when the requests are.
-/

namespace Dispatch

/-- A UUID; `0` is the nil one. -/
abbrev Uuid : Type := ℕ

/-- Nanoseconds on the database clock. -/
abbrev Time : Type := ℕ

/-- A second, in nanoseconds. -/
def second : Time := 1000000000

/-- What a `timestamptz` column keeps of a time: whole microseconds. The
database's own times are such, those computed from them need not be. -/
def timestamptz (t : Time) : Time := t / 1000 * 1000

/-- A number as 64-bit arithmetic leaves it. -/
def int64 (x : ℤ) : ℤ := Int.bmod x 18446744073709551616

theorem int64_of_lt {x : ℤ} (hlow : 0 ≤ x) (hhigh : x < 9223372036854775808) : int64 x = x := by
  rw [int64, Int.bmod_def, Int.emod_eq_of_lt hlow (by omega)]
  exact if_pos (by omega)

/-- A canonical, non-nil UUID. -/
def canonicalUUID (id : Uuid) : Bool := decide (id ≠ 0)

/-! ## Enumerations -/

/-- The `state` of a job. -/
inductive JobState where
  | queued
  | active
  | retryWait
  | cancelling
  | succeeded
  | failed
  | cancelled
  deriving DecidableEq, Repr

/-- Waiting for a worker. -/
def JobState.isQueued : JobState → Bool
  | queued | retryWait => true
  | _ => false

/-- Owned by an attempt. -/
def JobState.isOwned : JobState → Bool
  | active | cancelling => true
  | _ => false

/-- Outcomes that never change. -/
def JobState.isTerminal : JobState → Bool
  | succeeded | failed | cancelled => true
  | _ => false

/-- The `state` of an attempt. -/
inductive AttemptState where
  | assigned
  | starting
  | running
  | finalizing
  | succeeded
  | failed
  | lost
  | cancelled
  deriving DecidableEq, Repr

/-- `ASSIGNED`, `STARTING`, `RUNNING` and `FINALIZING`: the states of an
attempt that owns its job. -/
def AttemptState.isActive : AttemptState → Bool
  | assigned | starting | running | finalizing => true
  | _ => false

/-- The `state` of a reservation: released when its container is known to be gone,
quarantined while it is not. -/
inductive ReservationState where
  | active
  | released
  | quarantined
  deriving DecidableEq, Repr

/-- The `state` of a worker. -/
inductive WorkerState where
  | registering
  | ready
  | draining
  | suspect
  | offline
  | quarantined
  deriving DecidableEq, Repr

/-- What a mutation of an attempt is answered. -/
inductive Decision where
  | accepted
  | fenced
  | stopRequested
  | alreadyTerminal
  deriving DecidableEq, Repr

/-- The errors of the store. `database` is an error of PostgreSQL itself: a
violated constraint, a failed scan or a lost connection. -/
inductive StoreError where
  | invalid
  | conflict
  | fenced
  | notFound
  | unauthorized
  | quota
  | disabled
  | sessionActive
  | staleHeartbeat
  | uploadLimit
  | database
  deriving DecidableEq, Repr

/-- What an upload is of. -/
inductive UploadKind where
  | output
  | log
  | manifest
  deriving DecidableEq, Repr

/-- The streams of a container. -/
inductive Stream where
  | stdout
  | stderr
  deriving DecidableEq, Repr

/-- `logName`: the artifact name of a stream. -/
def Stream.logName : Stream → String
  | stdout => "stdout"
  | stderr => "stderr"

/-- Why an acquisition assigned nothing, and what a queued job waits for. -/
inductive NoWork where
  | workerNotReady
  | placementMismatch
  | noResourceFit
  | projectQuota
  | sweepConcurrency
  | projectDisabled
  | retryBackoff
  | queueEmpty
  deriving DecidableEq, Repr

/-! ## Identities -/

/-- The host and the credential a call is authenticated with. -/
structure WorkerIdentity where
  workerID : Uuid
  credentialID : Uuid
  deriving DecidableEq, Repr

/-- **The authority tuple**: what every mutation of an attempt carries. -/
structure AttemptAuthority where
  jobID : Uuid
  attemptID : Uuid
  generation : ℕ
  workerID : Uuid
  sessionID : Uuid
  deriving DecidableEq, Repr

/-! ## Rows -/

/-- `projects`: a name, quotas, and whether it may submit and run. -/
structure ProjectRow where
  name : String
  cpuQuota : ℤ
  memoryQuotaMiB : ℤ
  concurrencyQuota : ℤ
  enabled : Bool
  deriving DecidableEq, Repr

/-- `workers` joined with its `worker_authorizations` row: the limits and
labels an operator provisioned, and what the current session registered. -/
structure WorkerRow where
  state : WorkerState
  labels : Table String String
  capabilities : List String
  resources : Resources
  slots : ℤ
  currentSession : Option Uuid
  drainRequested : Bool
  lastHeartbeat : Option Time
  reconciliationComplete : Bool
  runtimeHealthy : Bool
  diskPressure : Bool
  limit : Resources
  slotLimit : ℤ
  limitLabels : Table String String
  deriving DecidableEq

/-- `worker_credentials`, keyed by credential. -/
structure CredentialRow where
  worker : Uuid
  revoked : Bool
  deriving DecidableEq, Repr

/-- The claims of a registration, capabilities in sorted order. -/
structure RegistrationClaims where
  sessionID : Uuid
  protocolVersion : ℕ
  resources : Resources
  slots : ℤ
  labels : Table String String
  capabilities : List String
  deriving DecidableEq

/-- A container a worker reports. -/
structure ExecutionRecord where
  authority : AttemptAuthority
  containerID : String
  running : Bool
  deriving DecidableEq, Repr

/-- What a heartbeat reports, its inventory in sorted order. -/
structure HeartbeatClaims where
  sessionID : Uuid
  sequence : ℕ
  runtimeHealthy : Bool
  diskPressure : Bool
  reconciliationComplete : Bool
  inventory : List ExecutionRecord
  deriving DecidableEq, Repr

/-- `worker_sessions`, with its last heartbeat. A hash is modelled by what it is the
hash of. -/
structure SessionRow where
  worker : Uuid
  generation : ℕ
  createdAt : Time
  fencedAt : Option Time
  registrationHash : RegistrationClaims
  heartbeatSequence : ℕ
  heartbeatRequest : Option Uuid
  heartbeatHash : Option HeartbeatClaims
  deriving DecidableEq

/-- `worker_takeovers`, keyed by worker and replaced session. -/
structure TakeoverRow where
  toSession : Uuid
  usedAt : Option Time
  deriving DecidableEq, Repr

/-- `sweeps`, keyed by sweep. -/
structure SweepRow where
  project : Uuid
  parentSweep : Option Uuid
  name : String
  spec : SweepDocument
  childCount : ℕ
  maxConcurrent : ℤ
  failFast : Bool
  cancelRunningOnFailure : Bool
  createdAt : Time
  deriving DecidableEq

/-- A version of an object: where it is, its size and its hash. -/
structure ArtifactObject where
  key : String
  version : String
  sizeBytes : ℤ
  sha256 : String
  deriving DecidableEq, Repr

/-- A verified artifact, as a manifest lists it. -/
structure PublishedArtifact where
  name : String
  artifactID : Uuid
  object : ArtifactObject
  uploadID : Uuid
  kind : UploadKind
  deriving DecidableEq, Repr

/-- An output that a completion names. -/
structure CompletionOutput where
  name : String
  artifactID : Uuid
  deriving DecidableEq, Repr

/-- A range of sequence numbers of one stream, both ends included. -/
structure CompletionLogGap where
  stream : Stream
  first : ℕ
  last : ℕ
  deriving DecidableEq, Repr

/-- The evidence a completion binds, in normalised order. -/
structure CompletionPayload where
  authority : AttemptAuthority
  exitCode : Option ℤ
  reason : Option Reason
  stopped : Bool
  outputs : List CompletionOutput
  logsComplete : Bool
  gaps : List CompletionLogGap
  metrics : List (String × String)
  metricsSource : Option String
  deriving DecidableEq, Repr

/-- One attempt as the result manifest lists it. -/
structure ResultAttempt where
  attemptID : Uuid
  number : ℕ
  state : AttemptState
  reason : Option Reason
  exitCode : Option ℤ
  createdAt : Time
  finishedAt : Option Time
  deriving DecidableEq, Repr

/-- **The manifest of a completion**: what was run, how it ended, and what it left
behind. -/
structure ResultManifest where
  authority : AttemptAuthority
  projectID : Uuid
  spec : Job
  specSHA256 : Job
  state : AttemptState
  exitCode : Option ℤ
  reason : Option Reason
  completedAt : Time
  cleanupPending : Bool
  outputs : List PublishedArtifact
  logArtifacts : List PublishedArtifact
  logsComplete : Bool
  gaps : List CompletionLogGap
  metrics : List (String × String)
  metricsArtifactID : Option Uuid
  attempts : List ResultAttempt
  deriving DecidableEq

/-- `jobs`, keyed by job; `sweep` has the index among the children. -/
structure JobRow where
  project : Uuid
  parentJob : Option Uuid
  spec : Job
  specHash : Job
  state : JobState
  resources : Resources
  priority : ℤ
  nextEligibleAt : Time
  attemptCounter : ℕ
  currentAttempt : Option Uuid
  cancelRequested : Bool
  acceptedAttempt : Option Uuid
  acceptedManifest : Option ResultManifest
  eventSequence : ℕ
  createdAt : Time
  sweep : Option (Uuid × ℕ)
  deriving DecidableEq

/-- `attempts`, keyed by attempt. -/
structure AttemptRow where
  job : Uuid
  number : ℕ
  worker : Uuid
  session : Uuid
  generation : ℕ
  state : AttemptState
  leaseExpiresAt : Time
  phaseDeadline : Time
  exitCode : Option ℤ
  reason : Option Reason
  completionID : Option Uuid
  completionDigest : Option CompletionPayload
  cleanupPending : Bool
  createdAt : Time
  finishedAt : Option Time
  containerID : Option String
  deriving DecidableEq, Repr

/-- `reservations`, keyed by attempt. -/
structure ReservationRow where
  worker : Uuid
  resources : Resources
  state : ReservationState
  deriving DecidableEq, Repr

/-- The payloads of `job_events`, one constructor per event type. -/
inductive EventBody where
  | submitted (specHash : Job) (parent : Option (Uuid × Uuid))
  | assigned (worker session : Uuid) (generation : ℕ)
  | phaseChanged (previous state : AttemptState) (deadline : Time) (container : String)
      (exitCode : Option ℤ)
  | attemptLost (reason : Reason) (nextState : JobState) (nextEligibleAt : Time)
  | attemptCancelled (reason : Reason) (nextState : JobState) (nextEligibleAt : Time)
  | attemptTimedOut (reason : Reason) (nextState : JobState) (nextEligibleAt : Time)
  | attemptCompleted (completion : Uuid) (state : AttemptState) (nextState : JobState)
      (reason : Option Reason) (cleanupPending : Bool) (nextEligibleAt : Time)
  | cancelRequested (previous state : JobState)
  | sweepFailFast (sweep failedJob : Uuid) (previous state : JobState)
  | uploadCreated (upload : Uuid) (kind : UploadKind) (name : String) (size : ℤ) (sha : String)
  | multipartInitialized (upload initialization : Uuid)
  | multipartStored (upload initialization : Uuid)
  | artifactVerified (artifact upload : Uuid) (size : ℤ) (sha : String)
  deriving DecidableEq

/-- **What an event says became of its job**: the state it records, provided
the job was in the state it records having found. Evidence about an attempt
leaves the state of the job as it is. -/
def EventBody.next (state : JobState) : EventBody → Option JobState
  | submitted .. | phaseChanged .. | uploadCreated .. | multipartInitialized ..
  | multipartStored .. | artifactVerified .. => some state
  | assigned .. => if state.isQueued then some .active else none
  | attemptLost _ after _ | attemptCancelled _ after _ | attemptTimedOut _ after _
  | attemptCompleted _ _ after _ _ _ => some after
  | cancelRequested previous after | sweepFailFast _ _ previous after =>
    if state = previous then some after else none

/-- `job_events`, keyed by job and sequence number. -/
structure EventRow where
  attempt : Option Uuid
  body : EventBody
  createdAt : Time
  deriving DecidableEq

/-- `worker_requests`: the answer an acquisition request was given. -/
structure WorkerRequestRow where
  answer : Uuid ⊕ NoWork
  deriving DecidableEq, Repr

/-- One member of a lease batch as it was decided; both bounds are zero
unless the decision is to accept. -/
structure LeaseGrant where
  authority : AttemptAuthority
  decision : Decision
  leaseExpiresAt : Time
  phaseDeadline : Time
  serverTime : Time
  deriving DecidableEq, Repr

/-- `worker_lease_requests`. -/
structure LeaseRequestRow where
  requestHash : List AttemptAuthority
  results : List LeaseGrant
  deriving DecidableEq, Repr

/-- What a report of a phase claims; replays must repeat it. -/
structure PhaseClaims where
  authority : AttemptAuthority
  phase : AttemptState
  containerID : String
  exitCode : Option ℤ
  deriving DecidableEq, Repr

/-- What an upload declares; replays must repeat it. -/
structure UploadClaims where
  authority : AttemptAuthority
  kind : UploadKind
  logicalName : String
  sizeBytes : ℤ
  sha256 : String
  partCount : ℤ
  partSizeBytes : ℤ
  deriving DecidableEq, Repr

/-- `artifact_uploads`. The object key is derived from the identifiers. -/
structure UploadRow where
  project : Uuid
  request : Uuid
  claims : UploadClaims
  createdAt : Time
  deriving DecidableEq, Repr

/-- `artifact_multipart_uploads`. -/
structure MultipartRow where
  initializationID : Uuid
  backendUploadID : Option String
  deriving DecidableEq, Repr

/-- An uploaded part. -/
structure MultipartPart where
  number : ℕ
  etag : String
  sha256 : String
  deriving DecidableEq, Repr

/-- What the completion of a multipart upload claims; replays must repeat it. -/
structure MultipartClaims where
  authority : AttemptAuthority
  uploadID : Uuid
  parts : List MultipartPart
  object : Option ArtifactObject
  deriving DecidableEq, Repr

/-- `artifact_multipart_completions`, keyed by upload. -/
structure MultipartCompletionRow where
  worker : Uuid
  session : Uuid
  request : Uuid
  requestHash : MultipartClaims
  objectVersion : Option String
  deriving DecidableEq, Repr

/-- What the finalization of an upload claims; replays must repeat it. -/
structure FinalizeClaims where
  authority : AttemptAuthority
  uploadID : Uuid
  object : ArtifactObject
  deriving DecidableEq, Repr

/-- `artifact_finalizations`. -/
structure FinalizationRow where
  upload : Uuid
  worker : Uuid
  session : Uuid
  request : Uuid
  requestHash : FinalizeClaims
  objectVersion : String
  deriving DecidableEq, Repr

/-- `artifacts`: the one verified version of an upload. -/
structure ArtifactRow where
  upload : Uuid
  finalization : Uuid
  objectVersion : String
  verifiedAt : Time
  deriving DecidableEq, Repr

/-- A range of dropped records inside a segment. -/
structure LogSequenceGap where
  firstSequence : ℕ
  lastSequence : ℕ
  deriving DecidableEq, Repr

/-- What a log segment claims; replays must repeat it. -/
structure LogSegmentClaims where
  authority : AttemptAuthority
  artifactID : Uuid
  stream : Stream
  firstSequence : ℕ
  lastSequence : ℕ
  gaps : List LogSequenceGap
  deriving DecidableEq, Repr

/-- `log_segments`. -/
structure LogSegmentRow where
  request : Uuid
  upload : Uuid
  claims : LogSegmentClaims
  createdAt : Time
  deriving DecidableEq, Repr

/-- `attempt_completions`, keyed by attempt. -/
structure CompletionRow where
  job : Uuid
  worker : Uuid
  session : Uuid
  generation : ℕ
  completionID : Uuid
  payloadDigest : CompletionPayload
  state : AttemptState
  manifest : ResultManifest
  deriving DecidableEq

/-- `dataset_uploads` joined with the `datasets` row it became. -/
structure DatasetRow where
  project : Uuid
  name : String
  object : ArtifactObject
  manifest : DatasetManifest
  deriving DecidableEq

/-- `job_inputs`, keyed by job and position. -/
structure JobInputRow where
  project : Uuid
  dataset : Uuid
  mountPath : String
  deriving DecidableEq, Repr

/-- `idempotency_keys`, keyed by project, endpoint and key; the endpoint of a
retry carries the sweep it retries. -/
inductive Endpoint where
  | jobs
  | sweeps
  | retry (sweep : Uuid)
  deriving DecidableEq, Repr

/-- The hash of the first request under a key, and what it made. -/
structure IdempotencyRow where
  requestHash : String
  response : Uuid
  deriving DecidableEq, Repr

/-- `job_queue_blockers`, keyed by job and slot. -/
structure BlockerRow where
  id : ℕ
  worker : Uuid
  session : Uuid
  request : Uuid
  attemptCounter : ℕ
  reason : NoWork
  observedAt : Time
  deriving DecidableEq, Repr

/-- **The state of the control plane**: its tables. -/
structure Store where
  projects : Table Uuid ProjectRow
  workers : Table Uuid WorkerRow
  credentials : Table Uuid CredentialRow
  /-- `worker_projects` -/
  workerProjects : Table (Uuid × Uuid) Unit
  sessions : Table Uuid SessionRow
  /-- `worker_registrations`, keyed by worker and request. -/
  registrations : Table (Uuid × Uuid) RegistrationClaims
  takeovers : Table (Uuid × Uuid) TakeoverRow
  jobs : Table Uuid JobRow
  attempts : Table Uuid AttemptRow
  reservations : Table Uuid ReservationRow
  events : Table (Uuid × ℕ) EventRow
  sweeps : Table Uuid SweepRow
  idempotency : Table (Uuid × Endpoint × String) IdempotencyRow
  /-- Keyed by worker, session and request, like the next two. -/
  workerRequests : Table (Uuid × Uuid × Uuid) WorkerRequestRow
  leaseRequests : Table (Uuid × Uuid × Uuid) LeaseRequestRow
  phaseReports : Table (Uuid × Uuid × Uuid) PhaseClaims
  uploads : Table Uuid UploadRow
  multipart : Table Uuid MultipartRow
  /-- `artifact_upload_parts`, keyed by upload and part number. -/
  uploadParts : Table (Uuid × ℕ) String
  multipartCompletions : Table Uuid MultipartCompletionRow
  finalizations : Table Uuid FinalizationRow
  artifacts : Table Uuid ArtifactRow
  logSegments : Table Uuid LogSegmentRow
  completions : Table Uuid CompletionRow
  /-- `completion_artifacts`, keyed by attempt and artifact. -/
  completionArtifacts : Table (Uuid × Uuid) PublishedArtifact
  datasets : Table Uuid DatasetRow
  jobInputs : Table (Uuid × ℕ) JobInputRow
  blockers : Table (Uuid × ℕ) BlockerRow
  /-- The sequence behind `job_queue_blockers.id`. -/
  blockerSequence : ℕ
  /-- `scheduler_state.project_cursor`. -/
  projectCursor : Option Uuid
  deriving DecidableEq

namespace Store

/-- **A provisioned control plane**: projects, workers without a session and
their credentials, as operators set them up; nothing registered or submitted
yet. The identifier of a project is drawn at random and never nil. -/
def provisioned (projects : Table Uuid ProjectRow) (workers : Table Uuid WorkerRow)
    (credentials : Table Uuid CredentialRow) (workerProjects : Table (Uuid × Uuid) Unit) :
    Store where
  projects := AList.erase 0 projects
  workers := workers.update (fun _ w => { w with currentSession := none })
  credentials := credentials
  workerProjects := workerProjects
  sessions := ∅
  registrations := ∅
  takeovers := ∅
  jobs := ∅
  attempts := ∅
  reservations := ∅
  events := ∅
  sweeps := ∅
  idempotency := ∅
  workerRequests := ∅
  leaseRequests := ∅
  phaseReports := ∅
  uploads := ∅
  multipart := ∅
  uploadParts := ∅
  multipartCompletions := ∅
  finalizations := ∅
  artifacts := ∅
  logSegments := ∅
  completions := ∅
  completionArtifacts := ∅
  datasets := ∅
  jobInputs := ∅
  blockers := ∅
  blockerSequence := 0
  projectCursor := none

end Store

end Dispatch
