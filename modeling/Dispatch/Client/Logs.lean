import Dispatch.Store.Reads

/-!
# The command that follows logs

`dispatch logs --follow` is a loop of requests. It lists the attempts of a job,
reads the streams of the latest one page by page up to their end, and asks for
the state of the job; it is done when the job is, and the attempt it listed. The
control plane goes on between any two requests, and between the statements of
one.

Each request is a step of the command here, from the stores its statements see.
A response the client library refuses, a failed transfer and a cancelled context
all end the command with an error.
-/

namespace Dispatch

open Txn

/-! ## The client library -/

/-- A record of a stream, with its number. -/
structure LogRecord where
  sequence : ℕ
  payload : List UInt8
  deriving DecidableEq, Repr

/-- `logformat.Segment`. -/
structure LogObject where
  attemptID : Uuid
  stream : Stream
  records : List LogRecord
  deriving DecidableEq, Repr

/-- The object store as the client finds it. A version of an object never
changes. -/
structure Storage where
  /-- The grant of a segment passes the client's checks. -/
  grants : LogSegment → Bool
  /-- The bytes of a version, if they have the right digest and decode. -/
  object : ArtifactObject → Option LogObject

/-- `Client.ListAttempts`: the numbers have to count from one. -/
def clientAttempts (s₁ s₂ : Store) (project job : Uuid) : Option (List AttemptRecord) := do
  let attempts ← (listAttempts s₁ s₂ project job).toOption
  if attempts.length ≤ 10 ∧ (∀ x ∈ attempts.zipIdx, x.1.number = x.2 + 1 ∧
      canonicalUUID x.1.workerID ∧ x.1.createdAt ≠ 0 ∧
      x.1.finishedAt.all (fun t => decide (x.1.createdAt ≤ t))) then some attempts else none

/-- A page of the segments of a stream, as the client returns it. -/
structure LogPage where
  segments : List LogSegment
  nextCursor : Option ℕ
  hasMore : Bool
  completion : Option LogCompletion
  deriving DecidableEq, Repr

/-- The largest object of a segment that the client fetches. -/
def maxSegmentBytes : ℤ := 2 ^ 20

/-- The ranges of a page in order, each with its gaps in order inside it. -/
def validSegments (storage : Storage) (previous : ℕ) : List LogSegment → Bool
  | [] => true
  | x :: rest =>
    decide (x.firstSequence ≠ 0 ∧ x.firstSequence ≤ x.lastSequence ∧ x.lastSequence < 2 ^ 63 ∧
      previous < x.firstSequence ∧ x.gaps.length ≤ 1024 ∧ 1 ≤ x.object.sizeBytes ∧
      x.object.sizeBytes ≤ maxSegmentBytes) && storage.grants x &&
    validGaps x.firstSequence x.lastSequence 0 x.gaps && validSegments storage x.lastSequence rest

/-- What the client accepts of a completion: gaps are ranges, and complete logs have
none. -/
def validLogCompletion (c : LogCompletion) : Bool :=
  decide (c.gaps.length ≤ 1024 ∧ (c.logsComplete = true → c.gaps = [])) &&
    c.gaps.all (fun g => decide (g.first ≠ 0 ∧ g.first ≤ g.last ∧ g.last < 2 ^ 63))

/-- The page size the control plane uses if it is asked for none. -/
def defaultLogPage : ℕ := 50

/-- **`Client.ListLogs`.** A cursor is the last record of the page before. -/
def clientLogs (storage : Storage) (s₁ s₂ s₃ : Store) (project attempt : Uuid) (stream : Stream)
    (cursor : Option ℕ) : Option LogPage := do
  let page ← (listLogSegments s₁ s₂ s₃ project attempt stream (cursor.getD 0)
    defaultLogPage).toOption
  let next := (page.segments.getLast?.map LogSegment.lastSequence).or cursor
  if validSegments storage 0 page.segments ∧ page.completion.all validLogCompletion then
    some ⟨page.segments, next, page.more, page.completion⟩
  else none

/-- The records of a range and the gaps between them. -/
def rangeGaps (last : ℕ) : ℕ → List LogRecord → Option (ℕ × List LogSequenceGap)
  | next, [] => some (next, [])
  | next, r :: rest =>
    if r.sequence < next ∨ last < r.sequence then none
    else (rangeGaps last (r.sequence + 1) rest).map (fun (n, gaps) =>
      (n, if next < r.sequence then ⟨next, r.sequence - 1⟩ :: gaps else gaps))

/-- `verifyLogRange`. -/
def verifyLogRange (x : LogSegment) (records : List LogRecord) : Bool :=
  decide (rangeGaps x.lastSequence x.firstSequence records = some (x.lastSequence + 1, x.gaps))

/-- **`Client.FetchLogSegment`.** -/
def fetchLogSegment (storage : Storage) (attempt : Uuid) (x : LogSegment) :
    Option (List LogRecord) := do
  let decoded ← storage.object x.object
  if storage.grants x ∧ decoded.attemptID = attempt ∧ decoded.stream = x.stream ∧
      verifyLogRange x decoded.records then some decoded.records
  else none

/-! ## The command -/

/-- A line of output. Records are printed below the heading of their attempt. -/
inductive Line where
  | attempt (id : Uuid)
  | record (stream : Stream) (record : LogRecord)
  | incomplete (gaps : List CompletionLogGap)
  deriving DecidableEq, Repr

/-- What is followed: a job of a project, its streams, and whether to wait for more.
-/
structure Command where
  project : Uuid
  job : Uuid
  streams : List Stream
  follow : Bool

/-- Where the loop stands. -/
inductive FollowStage where
  | list
  /-- The attempt listed last, the streams that are left of this pass and what was
  found about the attempt's completion. -/
  | poll (latest : AttemptRecord) (left : List Stream) (completion : Option LogCompletion)
  | job (latest : Option AttemptRecord)
  | returned
  | failed
  deriving DecidableEq

/-- **The state of a follower**: where the loop stands, the attempt it follows, a
cursor and the last record for each stream, and what it has printed. -/
structure Follow where
  stage : FollowStage
  current : Option Uuid
  cursors : Stream → Option ℕ
  lastSequence : Stream → ℕ
  reportedCompletion : Bool
  out : List Line

/-- Before the first request. -/
def Follow.start : Follow where
  stage := .list
  current := none
  cursors := fun _ => none
  lastSequence := fun _ => 0
  reportedCompletion := false
  out := []

/-- A request has failed, and the follower with it. -/
def Follow.fail (f : Follow) : Follow := { f with stage := .failed }

/-- Another attempt is followed from its beginning. -/
def Follow.select (f : Follow) (attempt : Uuid) : Follow :=
  if f.current = some attempt then f
  else
    { f with
      current := some attempt
      cursors := fun _ => none
      lastSequence := fun _ => 0
      reportedCompletion := false
      out := f.out ++ [.attempt attempt] }

/-- The top of the loop. -/
def Follow.list (c : Command) (s₁ s₂ : Store) (f : Follow) : Follow :=
  match clientAttempts s₁ s₂ c.project c.job with
  | none => f.fail
  | some attempts =>
    match attempts.getLast? with
    | some latest => { f.select latest.id with stage := .poll latest c.streams none }
    | none => if c.follow then { f with stage := .job none } else f.fail

/-- The records above the last one printed. -/
def newRecords : ℕ → List LogRecord → List LogRecord
  | _, [] => []
  | last, r :: rest =>
    if r.sequence ≤ last then newRecords last rest else r :: newRecords r.sequence rest

/-- `renderCompletion`. -/
def LogCompletion.lines (c : LogCompletion) : List Line :=
  if c.logsComplete then [] else [.incomplete c.gaps]

/-- The end of a stream: the next one, or what follows the pass. -/
def Follow.advance (c : Command) (latest : AttemptRecord) (left : List Stream)
    (completion : Option LogCompletion) (f : Follow) : Follow :=
  match left with
  | _ :: _ => { f with stage := .poll latest left completion }
  | [] =>
    let next : FollowStage := if c.follow then .job (some latest) else .returned
    match completion with
    | some found =>
      if f.reportedCompletion then { f with stage := next }
      else { f with stage := next, reportedCompletion := true, out := f.out ++ found.lines }
    | none => { f with stage := next }

/-- The records of a page are printed, and the cursor goes behind them. -/
def Follow.print (f : Follow) (stream : Stream) (cursor : Option ℕ) (records : List LogRecord) :
    Follow :=
  let printed := newRecords (f.lastSequence stream) records
  let last := (printed.getLast?.map LogRecord.sequence).getD (f.lastSequence stream)
  { f with
    cursors := Function.update f.cursors stream cursor
    lastSequence := Function.update f.lastSequence stream last
    out := f.out ++ printed.map (.record stream) }

/-- One page of `pollLogStream`. -/
def Follow.poll (c : Command) (storage : Storage) (s₁ s₂ s₃ : Store) (f : Follow) : Follow :=
  match f.stage, f.current with
  | .poll latest (stream :: left) completion, some attempt =>
    match clientLogs storage s₁ s₂ s₃ c.project attempt stream (f.cursors stream) with
    | none => f.fail
    | some page =>
      match page.segments.mapM (fetchLogSegment storage attempt) with
      | none => f.fail
      | some fetched =>
        let f' := f.print stream page.nextCursor fetched.flatten
        if page.hasMore then
          if page.nextCursor = f.cursors stream then f.fail else f'
        else f'.advance c latest left (page.completion.or completion)
  | _, _ => f

/-- `terminalAttempt`. -/
def AttemptState.terminal (state : AttemptState) : Bool := !state.isActive

/-- The state of the job, and whether the command is done. -/
def Follow.getJob (c : Command) (s : Store) (f : Follow) : Follow :=
  match f.stage with
  | .job latest =>
    match Dispatch.getJob s c.project c.job with
    | .error _ => f.fail
    | .ok record =>
      if record.state.isTerminal && latest.all (fun a => a.state.terminal) then
        { f with stage := .returned }
      else { f with stage := .list }
  | _ => f

end Dispatch
