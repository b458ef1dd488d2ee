import Dispatch.Store.Completion

/-!
# Reads of a project

What a project can ask for: a job, its jobs, the attempts, the events and the
queue blockers of a job, the progress of a sweep and the log segments of an
attempt. A read is a function of the commits it sees. Two of them are more than
one statement outside of a transaction, and each statement may see a later
commit, so they are given one store for each statement.

`ORDER BY` does not say how rows that are level are ordered. The schema has a
`UNIQUE` constraint under every one of these orders, so that no two rows are;
here level rows go by their key.

The length of a page depends on the encoding of its rows: the lengths are
parameters of the reads.
-/

namespace Dispatch

open Txn

/-- `WHERE id=job AND project_id=project`. -/
def Store.jobIn (s : Store) (project job : Uuid) : Bool :=
  match s.jobs.lookup job with
  | some j => decide (j.project = project)
  | none => false

/-- `FROM attempts a JOIN jobs j ON j.id=a.job_id WHERE a.id=attempt AND
j.project_id=project`. -/
def Store.attemptIn (s : Store) (project attempt : Uuid) : Bool :=
  match s.attempts.lookup attempt with
  | some a => s.jobIn project a.job
  | none => false

/-! ## Pages -/

/-- Rows are taken while there is room for them; a row costs what it adds to
the page, which may depend on how many there are already. -/
def paginate {α : Type} (cost : ℕ → α → ℕ) (limit budget : ℕ) : ℕ → ℕ → List α → List α × Bool
  | _, _, [] => ([], false)
  | n, used, x :: rest =>
    if n = limit ∨ budget < used + cost n x then ([], true)
    else
      let (xs, more) := paginate cost limit budget (n + 1) (used + cost n x) rest
      (x :: xs, more)

/-! ## Jobs -/

/-- An observation of why a job waited. -/
structure QueueBlocker where
  sequence : ℕ
  workerID : Uuid
  sessionID : Uuid
  requestID : Uuid
  attemptCounter : ℕ
  reason : NoWork
  observedAt : Time
  deriving DecidableEq, Repr

/-- `queueBlockerHistorySQL`. -/
def queueBlockerHistory (s : Store) (job : Uuid) : List QueueBlocker :=
  (s.blockers.ordered (fun k _ => decide (k.1 = job)) (fun x => OrderDual.toDual x.2.id)
    (fun x => x.1.2)).map (fun x =>
      ⟨x.2.id, x.2.worker, x.2.session, x.2.request, x.2.attemptCounter, x.2.reason,
        x.2.observedAt⟩)

/-- `GetQueueBlockers`: the observations of a job of the project. -/
def getQueueBlockers (s : Store) (project job : Uuid) : Except StoreError (List QueueBlocker) := do
  require (s.jobIn project job) .notFound
  pure (queueBlockerHistory s job)

/-- Why a job waits: the observations, and the moment they were read. -/
structure QueueDiagnostics where
  asOf : Time
  attemptCounter : ℕ
  observations : List QueueBlocker
  deriving DecidableEq, Repr

/-- `LEFT JOIN attempt_completions c ON c.job_id=j.id AND
c.attempt_id=j.accepted_attempt_id AND c.state='SUCCEEDED'`. -/
def acceptedCompletion (s : Store) (job : Uuid) (j : JobRow) : Option CompletionRow := do
  let attempt ← j.acceptedAttempt
  let c ← s.completions.lookup attempt
  if c.job = job ∧ c.state = .succeeded then some c else none

/-- A job as its project reads it, and why it is waiting: one statement. -/
def getJobDiagnostics (s : Store) (now : Time) (project id : Uuid) :
    Except StoreError (JobRecord × QueueDiagnostics) := do
  let record ← getJob s project id
  let j ← orThrow (s.jobs.lookup id) .notFound
  pure (record, ⟨now, j.attemptCounter, queueBlockerHistory s id⟩)

/-- The jobs a listing is restricted to. -/
structure JobListFilter where
  state : Option JobState
  labels : Table String String
  deriving DecidableEq

/-- The last row of the page before. -/
structure JobListPosition where
  createdAt : Time
  id : Uuid
  deriving DecidableEq, Repr

/-- A job as a listing shows it. -/
structure JobSummary where
  id : Uuid
  projectID : Uuid
  name : String
  state : JobState
  labels : Table String String
  priority : ℤ
  createdAt : Time
  deriving DecidableEq

/-- A page of jobs, and where the next one begins. -/
structure JobListPage where
  jobs : List JobSummary
  hasMore : Bool
  next : Option JobListPosition
  deriving DecidableEq

/-- A filter is checked as labels are. -/
def validJobListFilter (filter : JobListFilter) : Bool :=
  decide (filter.labels.entries.length ≤ 128) && filter.labels.entries.all (fun e =>
    namePattern e.1 && decide (e.2.utf8ByteSize ≤ 8192) && !hasNul e.2)

/-- `labels @> filter`. -/
def hasLabels (labels filter : Table String String) : Bool :=
  filter.entries.all (fun e => decide (labels.lookup e.1 = some e.2))

/-- The largest size of a page of jobs. -/
def maxJobPageBytes : ℕ := 8 * 2 ^ 20

/-- The summary of a row. -/
def JobRow.summary (id : Uuid) (j : JobRow) : JobSummary :=
  ⟨id, j.project, j.spec.metadata.name, j.state, j.spec.metadata.labels, j.priority, j.createdAt⟩

/-- `(j.created_at,j.id)<(position)`. -/
def JobListPosition.precedes (position : JobListPosition) (id : Uuid) (j : JobRow) : Bool :=
  decide (j.createdAt < position.createdAt ∨ j.createdAt = position.createdAt ∧ id < position.id)

/-- The rows of a listing, newest first. -/
def listedJobs (s : Store) (project : Uuid) (filter : JobListFilter)
    (after : Option JobListPosition) : List (Uuid × JobRow) :=
  s.jobs.ordered (fun id j => decide (j.project = project) &&
    filter.state.all (fun state => decide (j.state = state)) &&
    hasLabels j.spec.metadata.labels filter.labels &&
    after.all (fun position => position.precedes id j))
      (fun x => OrderDual.toDual x.2.createdAt) (fun x => OrderDual.toDual x.1)

/-- A page of jobs; `size` is the length of the encoding of a summary. -/
def listJobs (size : JobSummary → ℕ) (s : Store) (project : Uuid) (filter : JobListFilter)
    (after : Option JobListPosition) (limit : ℕ) : Except StoreError JobListPage := do
  require (canonicalUUID project ∧ 1 ≤ limit ∧ limit ≤ 100 ∧ validJobListFilter filter) .invalid
  require (after.all (fun position => canonicalUUID position.id && decide (position.createdAt ≠ 0)))
    .invalid
  let rows := ((listedJobs s project filter after).take (limit + 1)).map (fun x => x.2.summary x.1)
  let (jobs, more) := paginate (fun _ job => size job + 1) limit maxJobPageBytes 0 1024 rows
  -- A row that does not fit an empty page is an error: no page could go past it.
  require (more → jobs ≠ []) .invalid
  pure ⟨jobs, more, if more then jobs.getLast?.map (fun job => ⟨job.createdAt, job.id⟩) else none⟩

/-! ## Attempts and events -/

/-- An attempt as its project reads it. -/
structure AttemptRecord where
  id : Uuid
  number : ℕ
  state : AttemptState
  reason : Option Reason
  exitCode : Option ℤ
  workerID : Uuid
  cleanupPending : Bool
  createdAt : Time
  finishedAt : Option Time
  deriving DecidableEq, Repr

/-- The attempts of a job; the second statement may see a later commit than the
first. -/
def listAttempts (s₁ s₂ : Store) (project job : Uuid) : Except StoreError (List AttemptRecord) := do
  require (canonicalUUID project ∧ canonicalUUID job) .invalid
  require (s₁.jobIn project job) .notFound
  pure ((s₂.attempts.ordered (fun _ a => decide (a.job = job) && s₂.jobIn project a.job)
    (fun x => x.2.number) (fun x => x.1)).map (fun x =>
      ⟨x.1, x.2.number, x.2.state, x.2.reason, x.2.exitCode, x.2.worker, x.2.cleanupPending,
        x.2.createdAt, x.2.finishedAt⟩))

/-- An event of a job, with its number. -/
structure JobEvent where
  sequence : ℕ
  attemptID : Option Uuid
  body : EventBody
  createdAt : Time
  deriving DecidableEq

/-- A page of events, and the number of the last one. -/
structure JobEventPage where
  events : List JobEvent
  hasMore : Bool
  nextSequence : ℕ
  deriving DecidableEq

/-- The largest size of a page of events. -/
def maxEventPageBytes : ℕ := 2 ^ 20

/-- A page of the events of a job; `size` is the length of the encoding of an
event. -/
def listJobEvents (size : JobEvent → ℕ) (s : Store) (project job : Uuid) (after limit : ℕ) :
    Except StoreError JobEventPage := do
  require (canonicalUUID project ∧ canonicalUUID job ∧ 1 ≤ limit ∧ limit ≤ 100) .invalid
  require (s.jobIn project job) .notFound
  let rows := ((s.events.ordered (fun k _ => decide (k.1 = job) && s.jobIn project k.1 &&
    decide (after < k.2)) (fun x => x.1.2) (fun x => x.1.1)).take (limit + 1)).map
      (fun x => (⟨x.1.2, x.2.attempt, x.2.body, x.2.createdAt⟩ : JobEvent))
  let (events, more) := paginate (fun _ event => size event + 1) limit maxEventPageBytes 0 1024 rows
  require (more → events ≠ []) .database
  pure ⟨events, more, (events.getLast?.map JobEvent.sequence).getD after⟩

/-! ## Sweeps -/

/-- How many children of a sweep are in each state. -/
structure SweepProgress where
  total : ℕ
  queued : ℕ
  retryWait : ℕ
  active : ℕ
  cancelling : ℕ
  succeeded : ℕ
  failed : ℕ
  cancelled : ℕ
  deriving DecidableEq, Repr

/-- The state of a sweep, which no column holds. -/
inductive SweepState where
  | queued
  | active
  | succeeded
  | failed
  | cancelled
  deriving DecidableEq, Repr

/-- A sweep goes on while any child does; at its end a failure counts for more
than a cancellation. -/
def sweepState (p : SweepProgress) : SweepState :=
  if p.succeeded + p.failed + p.cancelled = p.total then
    if 0 < p.failed then .failed else if 0 < p.cancelled then .cancelled else .succeeded
  else if p.queued = p.total then .queued
  else .active

/-- A sweep as its project reads it. -/
structure SweepSummary where
  id : Uuid
  projectID : Uuid
  name : String
  state : SweepState
  specHash : SweepDocument
  maxConcurrent : ℤ
  failFast : Bool
  cancelRunningOnFailure : Bool
  createdAt : Time
  progress : SweepProgress
  deriving DecidableEq

/-- A child of a sweep, with its parameters and its metrics. -/
structure SweepChild where
  id : Uuid
  index : ℕ
  state : JobState
  parameters : List (String × String)
  currentAttemptID : Option Uuid
  acceptedAttemptID : Option Uuid
  metrics : List (String × String)
  deriving DecidableEq, Repr

/-- A sweep and a page of its children. -/
structure SweepPage where
  sweep : SweepSummary
  children : List SweepChild
  hasMore : Bool
  nextIndex : ℤ
  deriving DecidableEq

/-- The largest number of children on a page. -/
def maxSweepPageSize : ℕ := 100

/-- The largest size of a page of children. -/
def maxSweepPageBytes : ℕ := 2 * 2 ^ 20

/-- The children of a sweep in the sweep's own project, in order. -/
def childrenOf (s : Store) (project sweep : Uuid) : List (Uuid × JobRow) :=
  s.jobs.ordered (fun _ j => decide (j.project = project) &&
    decide (j.sweep.map Prod.fst = some sweep))
    (fun x => (x.2.sweep.map Prod.snd).getD 0) (fun x => x.1)

/-- `count(*) FILTER(WHERE j.state=..)`, for each state. -/
def sweepProgress (total : ℕ) (children : List (Uuid × JobRow)) : SweepProgress :=
  let count (state : JobState) : ℕ := children.countP (fun x => decide (x.2.state = state))
  ⟨total, count .queued, count .retryWait, count .active, count .cancelling, count .succeeded,
    count .failed, count .cancelled⟩

/-- The children in any state. -/
def SweepProgress.sum (p : SweepProgress) : ℕ :=
  p.queued + p.retryWait + p.active + p.cancelling + p.succeeded + p.failed + p.cancelled

/-- A child, with the values of the sweep's parameters and the metrics of its
accepted completion and of no other. -/
def sweepChild (s : Store) (row : SweepRow) (x : Uuid × JobRow) : SweepChild where
  id := x.1
  index := (x.2.sweep.map Prod.snd).getD 0
  state := x.2.state
  parameters :=
    row.spec.sweep.matrix.entries.map (fun e => (e.1, (x.2.spec.spec.env.lookup e.1).getD ""))
  currentAttemptID := x.2.currentAttempt
  acceptedAttemptID := x.2.acceptedAttempt
  metrics := ((acceptedCompletion s x.1 x.2).map (fun c => c.manifest.metrics)).getD []

/-- The progress of a sweep and a page of its children; `size` is the length of
the encoding of a child. -/
def getSweep (size : SweepChild → ℕ) (s : Store) (project sweep : Uuid) (after : ℤ) (limit : ℕ) :
    Except StoreError SweepPage := do
  require (canonicalUUID project ∧ canonicalUUID sweep ∧ -1 ≤ after ∧ after < maxSweepJobs ∧
    1 ≤ limit ∧ limit ≤ maxSweepPageSize) .invalid
  let row ← orThrow (s.sweeps.lookup sweep) .notFound
  require (row.project = project) .notFound
  let progress := sweepProgress row.childCount (childrenOf s project sweep)
  require (progress.total = progress.sum) .invalid
  let rows := (((childrenOf s project sweep).filter (fun x =>
    decide (after < (x.2.sweep.map Prod.snd).getD 0))).take (limit + 1)).map (sweepChild s row)
  let (children, more) := paginate (fun n child => size child + if n = 0 then 0 else 1) limit
    maxSweepPageBytes 0 2 rows
  -- The rows looked at are those taken and the one that did not fit. Without
  -- parameters the aggregate is `NULL`, which does not decode.
  require ((rows.take (children.length + 1)).all (fun child =>
    !child.parameters.isEmpty && decide (size child + 2 ≤ maxSweepPageBytes))) .invalid
  pure
    { sweep := ⟨sweep, row.project, row.name, sweepState progress, row.spec, row.maxConcurrent,
        row.failFast, row.cancelRunningOnFailure, row.createdAt, progress⟩
      children := children
      hasMore := more
      nextIndex := (children.getLast?.map (fun child => (child.index : ℤ))).getD after }

/-! ## Logs -/

/-- A segment as a reader of the log gets it. -/
structure LogSegment where
  artifactID : Uuid
  stream : Stream
  firstSequence : ℕ
  lastSequence : ℕ
  gaps : List LogSequenceGap
  object : ArtifactObject
  registeredAt : Time
  deriving DecidableEq, Repr

/-- What a completion says of the logs. -/
structure LogCompletion where
  logsComplete : Bool
  gaps : List CompletionLogGap
  deriving DecidableEq, Repr

/-- A page of the segments of a stream. -/
structure LogSegmentPage where
  segments : List LogSegment
  more : Bool
  completion : Option LogCompletion
  deriving DecidableEq, Repr

/-- The largest number of segments on a page. -/
def maxLogPageSize : ℕ := 100

/-- What the completion of an attempt says of its logs. -/
def logCompletion (s : Store) (project attempt : Uuid) : Option LogCompletion :=
  if s.attemptIn project attempt then
    (s.completions.lookup attempt).map (fun c => ⟨c.manifest.logsComplete, c.manifest.gaps⟩)
  else none

/-- `JOIN artifacts a ON a.id=s.artifact_id JOIN artifact_uploads u ON
u.upload_id=s.upload_id`. -/
def logSegment (s : Store) (l : LogSegmentRow) : Option LogSegment := do
  let a ← s.artifacts.lookup l.claims.artifactID
  let u ← s.uploads.lookup l.upload
  pure ⟨l.claims.artifactID, l.claims.stream, l.claims.firstSequence, l.claims.lastSequence,
    l.claims.gaps, ⟨u.key l.upload, a.objectVersion, u.claims.sizeBytes, u.claims.sha256⟩,
    l.createdAt⟩

/-- The segments of a stream after a record, in order. -/
def logSegments (s : Store) (project attempt : Uuid) (stream : Stream) (after : ℕ) :
    List LogSegment :=
  (s.logSegments.ordered (fun _ l => decide (l.claims.authority.attemptID = attempt) &&
    s.attemptIn project l.claims.authority.attemptID && decide (l.claims.stream = stream) &&
    decide (after < l.claims.lastSequence)) (fun x => x.2.claims.firstSequence)
      (fun x => x.1)).filterMap (fun x => logSegment s x.2)

/-- **A page of log segments.** Three statements, the completion before the
segments: if it is there, so are all segments it was accepted with. -/
def listLogSegments (s₁ s₂ s₃ : Store) (project attempt : Uuid) (stream : Stream)
    (after limit : ℕ) : Except StoreError LogSegmentPage := do
  require (canonicalUUID project ∧ canonicalUUID attempt ∧ after < 2 ^ 63 ∧ 1 ≤ limit ∧
    limit ≤ maxLogPageSize) .invalid
  require (s₁.attemptIn project attempt) .notFound
  let rows := (logSegments s₃ project attempt stream after).take (limit + 1)
  pure ⟨rows.take limit, decide (limit < rows.length), logCompletion s₂ project attempt⟩

end Dispatch
