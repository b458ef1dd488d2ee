import Dispatch.Store.Uploads

/-!
# Completion

A worker seals what it knows about the end of an attempt into a completion:
exit code, reason, whether the container is known to have stopped, outputs,
log evidence and metrics. `completeAttempt` checks the digest, answers an exact
repetition from what it stored, and otherwise ends the attempt, settles its
reservation and moves the job on, all in one transaction.

The clock is sampled twice: `completed` when the result is classified and the
manifest built, `now` immediately before the terminal writes, so that an expiry
in between leaves nothing behind.

A digest is the normalised payload it digests. A metrics document is its
tokens, with what the number parser of the standard library says about each.
-/

namespace Dispatch

open Txn

/-- The largest file of metrics. -/
def maxCompletionMetricsBytes : ℕ := 64 * 1024

/-- The largest number of metrics. -/
def maxCompletionMetrics : ℕ := 256

/-- The largest number of gaps a completion names. -/
def maxCompletionGaps : ℕ := 1024

/-- What `Float64` makes of a number's text. -/
inductive ParsedFloat where
  | outOfRange
  | zero
  | nonzero
  deriving DecidableEq, Repr

/-- A number of the metrics file: its text, and what the parser makes of it. -/
structure MetricNumber where
  text : String
  value : ParsedFloat
  deriving DecidableEq, Repr

/-- A metrics file: its size and hash, and its members when it is one JSON
object of numbers. -/
structure MetricsDocument where
  length : ℕ
  sha256 : String
  members : Option (List (String × MetricNumber))
  deriving DecidableEq, Repr

/-- **The report that an attempt has ended.** Its hash is modelled by the payload it
is the hash of. -/
structure CompletionRequest where
  authority : AttemptAuthority
  completionID : Uuid
  payloadSHA256 : CompletionPayload
  exitCode : Option ℤ
  reason : Option Reason
  stopped : Bool
  outputs : List CompletionOutput
  logsComplete : Bool
  gaps : List CompletionLogGap
  metricsJSON : Option MetricsDocument
  deriving DecidableEq, Repr

/-! ## Normalisation -/

/-- `metricNamePattern`. -/
def metricNamePattern (s : String) : Bool :=
  identifier isAlnum (fun c => isAlnum c || c == '_' || c == '.' || c == ':' || c == '/' ||
    c == '-') s

/-- `strings.Trim(mantissa, "-+.0") != ""` of the part before an exponent: a
nonzero number that the parser rounded to zero. -/
def underflows (text : String) : Bool :=
  (text.toList.takeWhile (fun c => c != 'e' && c != 'E')).any
    (fun c => !(c == '-' || c == '+' || c == '.' || c == '0'))

/-- The text a metric is stored with. -/
def metricText (n : MetricNumber) : Except StoreError String := do
  require (n.text.utf8ByteSize ≤ 1024) .invalid
  match n.value with
  | .outOfRange => throw .invalid
  | .nonzero => pure n.text
  | .zero =>
    require (underflows n.text = false) .invalid
    pure "0"

/-- The members in document order, each name once. -/
def collectMetrics (metrics : List (String × String)) :
    List (String × MetricNumber) → Except StoreError (List (String × String))
  | [] => pure metrics
  | (name, n) :: rest => do
    require (metricNamePattern name ∧ metrics.length < maxCompletionMetrics) .invalid
    require (name ∉ metrics.map Prod.fst) .invalid
    let text ← metricText n
    collectMetrics (metrics ++ [(name, text)]) rest

/-- `completionMetrics`; the map is listed in the order it is marshalled. -/
def completionMetrics (document : Option MetricsDocument) :
    Except StoreError (List (String × String)) :=
  match document with
  | none => pure []
  | some d => do
    require (d.length ≤ maxCompletionMetricsBytes) .invalid
    let members ← orThrow d.members .invalid
    let metrics ← collectMetrics [] members
    pure (metrics.insertionSort (fun a b => a.1 ≤ b.1))

/-- The reasons a worker may give. -/
def completionReasons : List Reason :=
  [.runtimeUnavailable, .transferFailed, .applicationExit, .oom, .startupTimeout,
    .executionTimeout, .outputInvalid, .userCancelled, .finalizationTimeout]

/-- The order of gaps: `"stderr"` before `"stdout"`, then by first record. -/
def gapOrder (a b : CompletionLogGap) : Bool :=
  match a.stream, b.stream with
  | .stderr, .stdout => true
  | .stdout, .stderr => false
  | _, _ => decide (a.first ≤ b.first)

/-- Sorted gaps are ranges that do not overlap within a stream. -/
def disjointGaps : List CompletionLogGap → Bool
  | [] => true
  | [g] => decide (1 ≤ g.first) && decide (g.first ≤ g.last)
  | g :: h :: rest =>
    decide (1 ≤ g.first) && decide (g.first ≤ g.last) &&
      !(decide (g.stream = h.stream) && decide (h.first ≤ g.last)) && disjointGaps (h :: rest)

/-- An exit code is a byte; a success has exit code zero and is stopped; an
application exit has another. -/
def validExit (exitCode : Option ℤ) (reason : Option Reason) (stopped : Bool) : Bool :=
  (match exitCode with
    | some e => decide (0 ≤ e) && decide (e ≤ 255)
    | none => true) &&
  (match reason with
    | none => decide (exitCode = some 0) && stopped
    | some .applicationExit => exitCode.isSome && decide (exitCode ≠ some 0)
    | some _ => true)

/-- Outputs have distinct names and distinct artifacts. -/
def validOutputs (outputs : List CompletionOutput) : Bool :=
  outputs.all (fun o => namePattern o.name && canonicalUUID o.artifactID) &&
    decide (outputs.map CompletionOutput.name).Nodup &&
    decide (outputs.map CompletionOutput.artifactID).Nodup

/-- **The normal form of a completion**: outputs and gaps as sorted sets. -/
def normalizeCompletion (r : CompletionRequest) : Except StoreError CompletionPayload := do
  let a := r.authority
  require (canonicalUUID r.completionID ∧ validAuthority a a.workerID ∧ canonicalUUID a.workerID ∧
    r.outputs.length ≤ 64 ∧ r.gaps.length ≤ maxCompletionGaps) .invalid
  require (∀ x ∈ r.reason, x ∈ completionReasons) .invalid
  require (validExit r.exitCode r.reason r.stopped) .invalid
  require (validOutputs r.outputs) .invalid
  require (r.logsComplete → r.gaps = []) .invalid
  let gaps := r.gaps.insertionSort (fun a b => gapOrder a b)
  require (disjointGaps gaps) .invalid
  let metrics ← completionMetrics r.metricsJSON
  pure
    { authority := a
      exitCode := r.exitCode
      reason := r.reason
      stopped := r.stopped
      outputs := r.outputs.insertionSort (fun a b => a.name ≤ b.name)
      logsComplete := r.logsComplete
      gaps := gaps
      metrics := metrics
      metricsSource := r.metricsJSON.map MetricsDocument.sha256 }

/-! ## The gate -/

/-- **The gate of a completion**: that of every mutation, except that a
confirmed cancellation answers the request to stop. -/
def completionDecision (r : CompletionRequest) (job : LeaseJob) (attempt : LeaseAttempt)
    (now : Time) : Decision :=
  let decision := leaseDecision r.authority job (some attempt) now
  if decision = .stopRequested ∧ job.cancelled = true ∧ r.reason = some .userCancelled ∧
      r.stopped = true ∧ now < attempt.expires ∧ now < attempt.phase then .accepted
  else decision

/-- The reason fits the phase, and the exit code is the one reported. -/
def validateCompletionPhase (r : CompletionRequest) (state : AttemptState) (exit : Option ℤ)
    (cancelled : Bool) : Except StoreError Unit := do
  require (exit = r.exitCode) .conflict
  match r.reason with
  | none | some .applicationExit | some .oom | some .outputInvalid | some .finalizationTimeout =>
    require (state = .finalizing) .conflict
  | some .startupTimeout => require (state = .assigned ∨ state = .starting) .conflict
  | some .executionTimeout => require (state = .running ∨ state = .finalizing) .conflict
  | some .userCancelled => require (cancelled = true ∧ r.stopped = true) .conflict
  | some _ => pure ()

/-! ## The manifest -/

/-- A two-digit field. -/
def twoDigits (n : ℕ) : String :=
  String.ofList ((if n < 10 then ['0'] else []) ++ (toString n).toList)

/-- The civil date of a day counted from 1970-01-01. -/
def civilDate (days : ℕ) : ℕ × ℕ × ℕ :=
  let z := days + 719468
  let era := z / 146097
  let doe := z % 146097
  let yoe := (doe - doe / 1460 + doe / 36524 - doe / 146096) / 365
  let doy := doe - (365 * yoe + yoe / 4 - yoe / 100)
  let mp := (5 * doy + 2) / 153
  let day := doy - (153 * mp + 2) / 5 + 1
  let month := if mp < 10 then mp + 3 else mp - 9
  (yoe + era * 400 + (if month ≤ 2 then 1 else 0), month, day)

/-- The fraction of a second without its trailing zeros. -/
def fractionText (ns : ℕ) : List Char :=
  let digits := (toString (ns % second)).toList
  let padded := List.replicate (9 - digits.length) '0' ++ digits
  match (padded.reverse.dropWhile (· == '0')).reverse with
  | [] => []
  | ds => '.' :: ds

/-- A time as JSON writes it: RFC 3339 in UTC. -/
def timeText (t : Time) : String :=
  let seconds := t / second
  let (year, month, day) := civilDate (seconds / 86400)
  let clock := seconds % 86400
  toString year ++ "-" ++ twoDigits month ++ "-" ++ twoDigits day ++ "T" ++
    twoDigits (clock / 3600) ++ ":" ++ twoDigits (clock % 3600 / 60) ++ ":" ++
    twoDigits (clock % 60) ++ String.ofList (fractionText t) ++ "Z"

/-- A time as a JSON value. -/
def timeJson (t : Time) : Json := .str (timeText t)

/-- The `text` of a state column. -/
def AttemptState.text : AttemptState → String
  | assigned => "ASSIGNED"
  | starting => "STARTING"
  | running => "RUNNING"
  | finalizing => "FINALIZING"
  | succeeded => "SUCCEEDED"
  | failed => "FAILED"
  | lost => "LOST"
  | cancelled => "CANCELLED"

/-- A value, or `null` for none. -/
def orNull {α : Type} (f : α → Json) : Option α → Json
  | some a => f a
  | none => .null

/-- A reason that is a string in Go, empty for none. -/
def reasonJson (r : Option Reason) : Json := .str ((r.map Reason.text).getD "")

/-- An artifact of a manifest; its upload and its kind are not sent. -/
def PublishedArtifact.toJson (a : PublishedArtifact) : Json :=
  .obj [("name", .str a.name), ("artifactId", uuidJson a.artifactID), ("object", a.object.toJson)]

/-- A gap of a manifest. -/
def CompletionLogGap.toJson (g : CompletionLogGap) : Json :=
  .obj [("stream", .str g.stream.logName), ("first", intJson g.first), ("last", intJson g.last)]

/-- An attempt of the manifest; the one that completes gives its reason even
when that is empty. -/
def ResultAttempt.toJson (completing : Uuid) (a : ResultAttempt) : Json :=
  .obj [("attemptId", uuidJson a.attemptID), ("number", intJson a.number),
    ("state", .str a.state.text),
    ("reason", if a.attemptID = completing then reasonJson a.reason
      else orNull (fun r => Json.str r.text) a.reason),
    ("exitCode", orNull intJson a.exitCode), ("createdAt", timeJson a.createdAt),
    ("finishedAt", orNull timeJson a.finishedAt)]

/-- The hash of a document is 64 characters; the manifest's size depends on
nothing else of it. -/
def hashJson : Json := .str (String.ofList (List.replicate 64 '0'))

/-- `ResultManifest`, in the order of its fields. -/
def ResultManifest.toJson (m : ResultManifest) : Json :=
  .obj [("version", intJson 1), ("authority", m.authority.toJson),
    ("projectId", uuidJson m.projectID), ("spec", m.spec.toJson), ("specSha256", hashJson),
    ("state", .str m.state.text), ("exitCode", orNull intJson m.exitCode),
    ("reason", reasonJson m.reason), ("completedAt", timeJson m.completedAt),
    ("cleanupPending", .bool m.cleanupPending),
    ("outputs", .arr (m.outputs.map PublishedArtifact.toJson)),
    ("logArtifacts", .arr (m.logArtifacts.map PublishedArtifact.toJson)),
    ("logsComplete", .bool m.logsComplete),
    ("gaps", .arr (m.gaps.map CompletionLogGap.toJson)),
    ("metrics", .obj (m.metrics.map (fun x => (x.1, Json.num x.2)))),
    ("metricsArtifactId", .str ((m.metricsArtifactID.map uuidText).getD "")),
    ("attempts", .arr (m.attempts.map (ResultAttempt.toJson m.authority.attemptID)))]

/-- The largest manifest, as it is encoded. -/
def manifestLimit : ℕ := 2 * 2 ^ 20

/-- A verified artifact joined with its upload. -/
def publishedArtifact (s : Store) (artifact : Uuid) (a : ArtifactRow) : Option PublishedArtifact :=
  (s.uploads.lookup a.upload).map (fun u =>
    { name := u.claims.logicalName
      artifactID := artifact
      object := ⟨u.key a.upload, a.objectVersion, u.claims.sizeBytes, u.claims.sha256⟩
      uploadID := a.upload
      kind := u.claims.kind })

/-- A verified artifact of one attempt. -/
def attemptArtifact (s : Store) (attempt artifact : Uuid) : Option PublishedArtifact := do
  let a ← s.artifacts.lookup artifact
  let u ← s.uploads.lookup a.upload
  if u.claims.authority.attemptID = attempt then publishedArtifact s artifact a else none

/-- One output a completion names: declared, of this attempt, an output of
that name within its bound; metrics bound to the file's exact bytes. -/
def completionOutput (s : Store) (r : CompletionRequest) (job : Job) (o : CompletionOutput) :
    Except StoreError PublishedArtifact := do
  let definition ← orThrow (job.spec.outputs.find? (fun d => decide (d.name = o.name))) .invalid
  let a ← orThrow (attemptArtifact s r.authority.attemptID o.artifactID) .invalid
  require (a.kind = .output ∧ a.name = o.name ∧ a.object.sizeBytes ≤ definition.maxBytes) .invalid
  require (o.name = "metrics" → ∃ d ∈ r.metricsJSON, a.object.sha256 = d.sha256 ∧
    a.object.sizeBytes = d.length) .invalid
  pure a

/-- The registered segments of an attempt, in catalogue order: `'STDERR'`
before `'STDOUT'`, then by first record. -/
def attemptSegments (s : Store) (attempt : Uuid) : List LogSegmentRow :=
  ((streamSegments s attempt .stderr).map Prod.snd).insertionSort
      (fun a b => a.claims.firstSequence ≤ b.claims.firstSequence) ++
    ((streamSegments s attempt .stdout).map Prod.snd).insertionSort
      (fun a b => a.claims.firstSequence ≤ b.claims.firstSequence)

/-- `completionCoversSegmentGap`, the claims from the record `next` on. -/
def coversFrom (stream : Stream) (last : ℕ) (next : ℕ) : List CompletionLogGap → Bool
  | [] => false
  | claim :: rest =>
    if claim.stream ≠ stream ∨ claim.last < next then coversFrom stream last next rest
    else if next < claim.first then false
    else if last ≤ claim.last then true
    else coversFrom stream last (claim.last + 1) rest

/-- **A registered gap is covered by the claimed ones.** -/
def completionCoversSegmentGap (claims : List CompletionLogGap) (stream : Stream)
    (known : LogSequenceGap) : Bool :=
  coversFrom stream known.lastSequence known.firstSequence claims

/-- A segment's artifact, if the completion hides none of its gaps. -/
def completionSegment (s : Store) (gaps : List CompletionLogGap) (l : LogSegmentRow) :
    Except StoreError PublishedArtifact := do
  let a ← orThrow (s.artifacts.lookup l.claims.artifactID) .database
  let published ← orThrow (publishedArtifact s l.claims.artifactID a) .database
  require (∀ g ∈ l.claims.gaps, completionCoversSegmentGap gaps l.claims.stream g = true) .invalid
  pure published

/-- Some log upload of the attempt is not verified or not catalogued. -/
def logsPending (s : Store) (attempt : Uuid) : Bool :=
  (attemptUploads s attempt).any (fun x => decide (x.2.claims.kind = .log) &&
    match uploadArtifact s x.1 with
    | none => true
    | some (artifact, _) => !s.logSegments.entries.any (fun e =>
        decide (e.2.claims.artifactID = artifact)))

/-- The attempts of a job as the manifest lists them, the completing one with
its outcome. -/
def resultAttempts (s : Store) (r : CompletionRequest) (state : AttemptState) (completed : Time) :
    List ResultAttempt :=
  ((s.attempts.select (fun _ a => decide (a.job = r.authority.jobID))).insertionSort
    (fun x y => x.2.number ≤ y.2.number)).map (fun (id, a) =>
      if id = r.authority.attemptID then
        ⟨id, a.number, state, r.reason, r.exitCode, a.createdAt, some completed⟩
      else ⟨id, a.number, a.state, a.reason, a.exitCode, a.createdAt, a.finishedAt⟩)

/-- **The manifest of a completion.** -/
def completionManifest (s : Store) (r : CompletionRequest) (p : CompletionPayload) (j : JobRow)
    (state : AttemptState) (completed : Time) : Except StoreError ResultManifest := do
  let job := j.spec
  let outputs ← p.outputs.mapM (completionOutput s r job)
  require (r.reason = none → ∀ d ∈ job.spec.outputs, d.required = true →
    d.name ∈ p.outputs.map CompletionOutput.name) .invalid
  let metricsArtifact := (p.outputs.find? (fun o => decide (o.name = "metrics"))).map
    CompletionOutput.artifactID
  require (r.metricsJSON.isSome = true → metricsArtifact.isSome = true) .invalid
  let logs ← (attemptSegments s r.authority.attemptID).mapM (completionSegment s p.gaps)
  require (r.logsComplete = true → logsPending s r.authority.attemptID = false) .invalid
  let m : ResultManifest :=
    { authority := r.authority
      projectID := j.project
      spec := job
      specSHA256 := j.specHash
      state := state
      exitCode := r.exitCode
      reason := r.reason
      completedAt := completed
      cleanupPending := !r.stopped
      outputs := outputs
      logArtifacts := logs
      logsComplete := r.logsComplete
      gaps := p.gaps
      metrics := p.metrics
      metricsArtifactID := metricsArtifact
      attempts := resultAttempts s r state completed }
  require (Json.size goStyle m.toJson ≤ manifestLimit) .invalid
  pure m

/-! ## The transaction -/

/-- What a completion is answered. -/
structure CompletionResult where
  decision : Decision
  state : Option AttemptState
  manifest : Option ResultManifest
  deriving DecidableEq

/-- What becomes of the attempt and of its job. -/
structure CompletionOutcome where
  state : AttemptState
  jobState : JobState
  nextEligible : Time
  deriving DecidableEq, Repr

/-- **The classification of a completion.** -/
def completionOutcome (sha : Uuid → ℕ) (r : CompletionRequest) (job : Job)
    (completed now : Time) : CompletionOutcome :=
  match r.reason with
  | none => ⟨.succeeded, .succeeded, completed⟩
  | some .userCancelled => ⟨.cancelled, .cancelled, completed⟩
  | some reason =>
    if (r.authority.generation : ℤ) < job.spec.retry.maxAttempts ∧ reason ∈ job.spec.retry.on then
      ⟨.failed, .retryWait,
        now + retryDelay sha job.spec.retry r.authority.generation r.authority.attemptID⟩
    else ⟨.failed, .failed, completed⟩

/-- The answer to an exact repetition. -/
def CompletionRow.replay (c : CompletionRow) : CompletionResult :=
  ⟨.accepted, some c.state, if c.state = .succeeded then some c.manifest else none⟩

/-- The evidence a completion stores: its row and its artifact references. -/
def recordCompletion (s : Store) (r : CompletionRequest) (p : CompletionPayload)
    (state : AttemptState) (m : ResultManifest) : Except StoreError Store := do
  let a := r.authority
  let rows ← orThrow (s.completions.insertNew a.attemptID
    ⟨a.jobID, a.workerID, a.sessionID, a.generation, r.completionID, p, state, m⟩) .database
  let references ← (m.outputs ++ m.logArtifacts).foldlM (fun t x =>
    orThrow (t.insertNew (a.attemptID, x.artifactID) x) .database) s.completionArtifacts
  pure { s with completions := rows, completionArtifacts := references }

/-- The end of an attempt: its row, its reservation, its job, the event and
the sweep's policy. -/
def finishAttempt (s : Store) (completed now : Time) (r : CompletionRequest) (p : CompletionPayload)
    (out : CompletionOutcome) (m : ResultManifest) : Except StoreError Store := do
  let a := r.authority
  let ended := { s with
    attempts := s.attempts.modify a.attemptID (fun row => { row with
      state := out.state
      exitCode := r.exitCode
      reason := r.reason
      completionID := some r.completionID
      completionDigest := some p
      cleanupPending := !r.stopped
      finishedAt := some completed }) }
  let settled ← settleReservation ended a.attemptID (if r.stopped then .released else .quarantined)
    .conflict
  let closed := { settled with
    jobs := settled.jobs.modify a.jobID (fun j => { j with
      state := out.jobState
      currentAttempt := none
      acceptedAttempt := if out.state = AttemptState.succeeded then some a.attemptID else none
      acceptedManifest := if out.state = AttemptState.succeeded then some m else none
      nextEligibleAt := timestamptz out.nextEligible }) }
  let logged ← closed.appendEvent now a.jobID (some a.attemptID)
    (.attemptCompleted r.completionID out.state out.jobState r.reason (!r.stopped) out.nextEligible)
  if out.jobState = .failed then applySweepFailFast logged now a.jobID else pure logged

/-- **The completion of an attempt.** The session check needs no older view:
the transaction holds the cluster lock under which sessions are replaced. -/
def completeAttempt (sha : Uuid → ℕ) (s : Store) (completed now : Time) (id : WorkerIdentity)
    (r : CompletionRequest) : Except StoreError (Store × CompletionResult) := do
  require (canonicalUUID id.workerID ∧ canonicalUUID id.credentialID ∧
    r.authority.workerID = id.workerID) .unauthorized
  let p ← normalizeCompletion r
  require (p = r.payloadSHA256) .invalid
  authorizeWorkerTx s id
  let attempt := r.authority.attemptID
  match s.attempts.lookup attempt with
  | none => pure (s, ⟨.fenced, none, none⟩)
  | some a =>
    if a.authority attempt ≠ r.authority then pure (s, ⟨.fenced, none, none⟩)
    else match s.completions.lookup attempt with
      | some saved =>
        require (saved.completionID = r.completionID ∧ saved.payloadDigest = p) .conflict
        pure (s, saved.replay)
      | none =>
        require (∀ e ∈ s.completions.entries, ¬ (e.2.worker = id.workerID ∧
          e.2.session = r.authority.sessionID ∧ e.2.completionID = r.completionID)) .conflict
        if !a.state.isActive then pure (s, ⟨.alreadyTerminal, some a.state, none⟩)
        else
          let j ← orThrow (s.jobs.lookup a.job) .database
          require j.spec.isValid .invalid
          requireCurrentWorkerSession s id.workerID r.authority.sessionID
          let first := completionDecision r j.lease (a.lease attempt) completed
          if first ≠ .accepted then pure (s, ⟨first, some a.state, none⟩)
          else
            validateCompletionPhase r a.state a.exitCode j.cancelRequested
            let out := completionOutcome sha r j.spec completed now
            let m ← completionManifest s r p j out.state completed
            let recorded ← recordCompletion s r p out.state m
            let last := completionDecision r j.lease (a.lease attempt) now
            if last ≠ .accepted then pure (s, ⟨last, some a.state, none⟩)
            else
              let finished ← finishAttempt recorded completed now r p out m
              pure (finished, ⟨.accepted, some out.state,
                if out.state = .succeeded then some m else none⟩)

/-- **A completion that commits**: the checks that passed and the writes. -/
structure CompletionCommits (sha : Uuid → ℕ) (s s' : Store) (completed now : Time)
    (id : WorkerIdentity) (r : CompletionRequest) (p : CompletionPayload) (a : AttemptRow)
    (j : JobRow) (m : ResultManifest) : Prop where
  mine : r.authority.workerID = id.workerID
  payload : normalizeCompletion r = .ok p
  attempt : s.attempts.lookup r.authority.attemptID = some a
  authority : a.authority r.authority.attemptID = r.authority
  first : s.completions.lookup r.authority.attemptID = none
  unused : ∀ e ∈ s.completions.entries, ¬ (e.2.worker = id.workerID ∧
    e.2.session = r.authority.sessionID ∧ e.2.completionID = r.completionID)
  active : a.state.isActive = true
  job : s.jobs.lookup a.job = some j
  session : isCurrentSession s id.workerID r.authority.sessionID = true
  early : completionDecision r j.lease (a.lease r.authority.attemptID) completed = .accepted
  late : completionDecision r j.lease (a.lease r.authority.attemptID) now = .accepted
  phase : validateCompletionPhase r a.state a.exitCode j.cancelRequested = .ok ()
  manifest : completionManifest s r p j (completionOutcome sha r j.spec completed now).state
    completed = .ok m
  finished : ∃ recorded,
    recordCompletion s r p (completionOutcome sha r j.spec completed now).state m = .ok recorded ∧
    finishAttempt recorded completed now r p (completionOutcome sha r j.spec completed now) m
      = .ok s'

/-- **What a completion does**: it commits, repeats the answer of the
completion that did, or is turned away and changes nothing. -/
theorem completeAttempt_cases {sha : Uuid → ℕ} {s s' : Store} {completed now : Time}
    {id : WorkerIdentity} {r : CompletionRequest} {result : CompletionResult}
    (h : completeAttempt sha s completed now id r = .ok (s', result)) :
    (∃ p a j m, CompletionCommits sha s s' completed now id r p a j m ∧
      result = ⟨.accepted, some (completionOutcome sha r j.spec completed now).state,
        if (completionOutcome sha r j.spec completed now).state = .succeeded then some m
        else none⟩) ∨
      (s' = s ∧ ∃ saved a, s.completions.lookup r.authority.attemptID = some saved ∧
        s.attempts.lookup r.authority.attemptID = some a ∧
        a.authority r.authority.attemptID = r.authority ∧ saved.completionID = r.completionID ∧
        normalizeCompletion r = .ok saved.payloadDigest ∧ result = saved.replay) ∨
      (s' = s ∧ result.decision ≠ .accepted) := by
  simp only [completeAttempt, bind_ok] at h
  obtain ⟨_, hmine, p, hp, _, -, _, -, h⟩ := h
  split at h
  · obtain ⟨rfl, rfl⟩ := pure_pair_ok.mp h
    exact .inr (.inr ⟨rfl, by simp⟩)
  rename_i a ha
  split at h
  · obtain ⟨rfl, rfl⟩ := pure_pair_ok.mp h
    exact .inr (.inr ⟨rfl, by simp⟩)
  rename_i hauthority
  rw [not_not] at hauthority
  split at h
  · rename_i saved hsaved
    simp only [bind_ok, require_ok, pure_pair_ok] at h
    obtain ⟨_, ⟨hid, rfl⟩, rfl, rfl⟩ := h
    exact .inr (.inl ⟨rfl, saved, a, hsaved, ha, hauthority, hid, hp, rfl⟩)
  rename_i hfirst
  simp only [bind_ok] at h
  obtain ⟨_, hunused, h⟩ := h
  split at h
  · obtain ⟨rfl, rfl⟩ := pure_pair_ok.mp h
    exact .inr (.inr ⟨rfl, by simp⟩)
  rename_i hactive
  simp only [bind_ok, orThrow_ok] at h
  obtain ⟨j, hj, _, -, _, hsession, h⟩ := h
  split at h
  · rename_i hdecision
    obtain ⟨rfl, rfl⟩ := pure_pair_ok.mp h
    exact .inr (.inr ⟨rfl, hdecision⟩)
  rename_i hearly
  simp only [bind_ok] at h
  obtain ⟨_, hphase, m, hm, recorded, hrecorded, h⟩ := h
  split at h
  · rename_i hdecision
    obtain ⟨rfl, rfl⟩ := pure_pair_ok.mp h
    exact .inr (.inr ⟨rfl, hdecision⟩)
  rename_i hlate
  simp only [bind_ok, pure_pair_ok] at h
  obtain ⟨finished, hfinished, rfl, rfl⟩ := h
  refine .inl ⟨p, a, j, m, ⟨(require_ok.mp hmine).2.2, hp, ha, hauthority, hfirst,
    require_ok.mp hunused, ?_, hj, ?_, not_not.mp hearly,
    not_not.mp hlate, hphase, hm, recorded, hrecorded, hfinished⟩, rfl⟩
  · simpa using hactive
  · exact require_ok.mp hsession

end Dispatch
