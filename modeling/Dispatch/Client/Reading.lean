import Dispatch.Ledger.Transactions
import Dispatch.Store.Arguments
import Dispatch.Store.Footprint
import Dispatch.Store.Reads

/-!
# Reading a job

The client reads at most four mebibytes of a response. The response to a read
of a job holds its document and, once it has succeeded, the accepted manifest,
both escaped by Go's encoder. The manifest was bounded in that form when it was
accepted (`Reachable.manifest_fits`), the document never: its column bounds the
text without escapes. So a job may be admitted that the client can never read.

What is neither the document nor the manifest, and what the manifest may be at
most, leave the document about two mebibytes: a document that is not larger than
that, as it is sent, can be read in every state of its job.
-/

namespace Dispatch

open Txn

variable {sha : Uuid → ℕ} {s : Store} {now : Time} {project id : Uuid}

/-! ## The response -/

/-- The `text` of a state column. -/
def JobState.text : JobState → String
  | queued => "QUEUED"
  | active => "ACTIVE"
  | retryWait => "RETRY_WAIT"
  | cancelling => "CANCELLING"
  | succeeded => "SUCCEEDED"
  | failed => "FAILED"
  | cancelled => "CANCELLED"

/-- The text of a reason for no work. -/
def NoWork.text : NoWork → String
  | workerNotReady => "WORKER_NOT_READY"
  | placementMismatch => "PLACEMENT_MISMATCH"
  | noResourceFit => "NO_RESOURCE_FIT"
  | projectQuota => "PROJECT_QUOTA"
  | sweepConcurrency => "SWEEP_CONCURRENCY"
  | projectDisabled => "PROJECT_DISABLED"
  | retryBackoff => "RETRY_BACKOFF"
  | queueEmpty => "QUEUE_EMPTY"

/-- `QueueBlocker`, as it is sent. -/
def QueueBlocker.toJson (b : QueueBlocker) : Json :=
  .obj [("sequence", intJson b.sequence), ("workerId", uuidJson b.workerID),
    ("sessionId", uuidJson b.sessionID), ("requestId", uuidJson b.requestID),
    ("attemptCounter", intJson b.attemptCounter), ("reason", .str b.reason.text),
    ("observedAt", timeJson b.observedAt)]

/-- `QueueDiagnostics`, as it is sent. -/
def QueueDiagnostics.toJson (d : QueueDiagnostics) : Json :=
  .obj [("asOf", timeJson d.asOf), ("attemptCounter", intJson d.attemptCounter),
    ("observations", .arr (d.observations.map QueueBlocker.toJson))]

/-- The response to a read. The document and the manifest are stored texts, which
the encoder compacts and escapes. -/
def JobRecord.toJson (r : JobRecord) (d : QueueDiagnostics) : Json :=
  .obj [("id", uuidJson r.id), ("projectId", uuidJson r.projectID), ("state", .str r.state.text),
    ("spec", r.spec.toJson), ("specHash", hashJson), ("createdAt", timeJson r.createdAt),
    ("acceptedAttemptId", orNull uuidJson r.acceptedAttemptID),
    ("acceptedManifest", orNull ResultManifest.toJson r.acceptedManifest),
    ("queueDiagnostics", d.toJson)]

/-- `writeJSON`: the text and a newline. -/
def responseSize (body : Json) : ℕ := Json.size goStyle body + 1

/-- `MaxResponseBytes`. -/
def maxResponseBytes : ℕ := 4 * 2 ^ 20

/-! ## The client -/

/-- Why a read of a job fails. -/
inductive ReadError where
  /-- An error envelope. -/
  | api (e : StoreError)
  /-- `server response unreadable or exceeds 4 MiB`. -/
  | unreadable
  /-- `invalid queue diagnostics response`. -/
  | diagnostics
  deriving DecidableEq

/-- `validDiagnosticTime`; the zero time is long before the first one here. -/
def validDiagnosticTime (t : Time) : Bool := decide ((civilDate (t / second / 86400)).1 ≤ 9999)

/-- Observations from the newest on, each of its own request. -/
def validObservations (attempts : ℕ) : List QueueBlocker → Bool
  | [] => true
  | b :: rest =>
    decide (1 ≤ b.sequence) && rest.all (fun c => decide (c.sequence < b.sequence)) &&
      canonicalUUID b.workerID && canonicalUUID b.sessionID && canonicalUUID b.requestID &&
      decide (b.attemptCounter ≤ attempts) && validDiagnosticTime b.observedAt &&
      decide (b.reason ≠ .workerNotReady ∧ b.reason ≠ .queueEmpty) &&
      rest.all (fun c => decide ((c.workerID, c.sessionID, c.requestID)
        ≠ (b.workerID, b.sessionID, b.requestID))) &&
      validObservations attempts rest

/-- `decodeQueueDiagnostics`. -/
def QueueDiagnostics.isValid (d : QueueDiagnostics) : Bool :=
  validDiagnosticTime d.asOf && decide (d.observations.length ≤ 16) &&
    validObservations d.attemptCounter d.observations

/-- **`Client.GetJob`.** -/
def clientGetJob (s : Store) (now : Time) (project id : Uuid) :
    Except ReadError (JobRecord × QueueDiagnostics) :=
  match getJobDiagnostics s now project id with
  | .error e => .error (.api e)
  | .ok (record, d) => do
    require (responseSize (record.toJson d) ≤ maxResponseBytes) .unreadable
    require d.isValid .diagnostics
    pure (record, d)

/-! ## What bounds a response -/

/-- **What a response takes beside its document and its manifest**: the names of
the members, the two identifiers and the hash are as long in every response; the
state, the times, the accepted attempt, the counter and the observations are not. -/
def readOverhead (r : JobRecord) (d : QueueDiagnostics) : ℕ :=
  309 + Json.size goStyle (.str r.state.text) + Json.size goStyle (timeJson r.createdAt)
    + Json.size goStyle (orNull uuidJson r.acceptedAttemptID) + Json.size goStyle (timeJson d.asOf)
    + Json.size goStyle (intJson d.attemptCounter)
    + Json.size goStyle (.arr (d.observations.map QueueBlocker.toJson))

/-- The size of the diagnostics. -/
theorem QueueDiagnostics.size_toJson (d : QueueDiagnostics) :
    Json.size goStyle d.toJson = 43 + Json.size goStyle (timeJson d.asOf)
      + Json.size goStyle (intJson d.attemptCounter)
      + Json.size goStyle (.arr (d.observations.map QueueBlocker.toJson)) := by
  have hnames : (["asOf", "attemptCounter", "observations"].map (fun k =>
      Json.utf8Length (Json.quote goStyle k) + Json.utf8Length goStyle.colon)).sum = 39 := by decide
  have hcomma : Json.utf8Length goStyle.comma = 1 := by decide
  rw [QueueDiagnostics.toJson,
    Json.size_obj_of_names goStyle ["asOf", "attemptCounter", "observations"] rfl, hnames, hcomma]
  generalize Json.size goStyle = size
  simp only [List.map_cons, List.map_nil, List.length_cons, List.length_nil]
  iterate 3 rw [List.sum_cons]
  rw [List.sum_nil]
  omega

/-- The names of a response's members. -/
def recordNames : List String :=
  ["id", "projectId", "state", "spec", "specHash", "createdAt", "acceptedAttemptId",
    "acceptedManifest", "queueDiagnostics"]

/-- **The response is its parts.** -/
theorem JobRecord.responseSize_toJson (r : JobRecord) (d : QueueDiagnostics) :
    responseSize (r.toJson d) = Json.size goStyle r.spec.toJson
      + Json.size goStyle (orNull ResultManifest.toJson r.acceptedManifest) + readOverhead r d := by
  have hnames : (recordNames.map (fun k =>
      Json.utf8Length (Json.quote goStyle k) + Json.utf8Length goStyle.colon)).sum
        = 113 := by decide
  have hcomma : Json.utf8Length goStyle.comma = 1 := by decide
  have hhash : Json.size goStyle hashJson = 66 := by decide +kernel
  have hlength : recordNames.length = 9 := rfl
  have hid := size_uuidJson r.id
  have hproject := size_uuidJson r.projectID
  have hdiagnostics := d.size_toJson
  rw [responseSize, JobRecord.toJson, Json.size_obj_of_names goStyle recordNames rfl,
    hnames, hcomma, hlength, readOverhead]
  -- What is left are sums, to which a size is a number like any other.
  generalize Json.size goStyle = size at *
  simp only [List.map_cons, List.map_nil]
  rw [hid, hproject, hhash, hdiagnostics]
  iterate 9 rw [List.sum_cons]
  rw [List.sum_nil]
  omega

/-- **Every manifest in a run is within its bound.** -/
theorem Reachable.manifest_fits {w : World} (h : Reachable sha w) {attempt : Uuid}
    {c : CompletionRow} (hc : w.store.completions.lookup attempt = some c) :
    Json.size goStyle c.manifest.toJson ≤ manifestLimit := by
  induction h generalizing attempt c with
  | start projects workers credentials workerProjects clock =>
    exact absurd hc (by simp [Store.provisioned])
  | @step w w' hw hstep ih =>
    obtain ⟨hle, op, reply, hexec⟩ := hstep
    cases op with
    | complete completed identity r =>
      simp only [Op.exec, bind_ok, pure_pair_ok] at hexec
      obtain ⟨⟨t, result⟩, hcomplete, rfl, -⟩ := hexec
      obtain ⟨p, a, j, m, hcommit, -⟩ | ⟨hsame, -⟩ | ⟨hsame, -⟩ := completeAttempt_cases hcomplete
      · have hrows : w'.store.completions = AList.insert r.authority.attemptID
            (r.row p (completionOutcome sha r j.spec completed w'.clock).state m)
            w.store.completions := congrArg Ledger.completions hcommit.toLedger
        have hm := hcommit.manifest
        simp only [completionManifest, bind_ok, require_ok, pure_ok] at hm
        obtain ⟨_, -, _, -, _, -, _, -, _, -, _, hsize, rfl⟩ := hm
        rw [hrows, Table.lookup_insert_ite] at hc
        split_ifs at hc with hattempt
        · obtain rfl := Option.some.inj hc
          exact hsize
        · exact ih hc
      · exact ih (hsame ▸ hc)
      · exact ih (hsame ▸ hc)
    | _ =>
      have hrows : w'.store.completions = w.store.completions :=
        Op.exec_writes hexec .completions (by simp only [Op.footprint]; decide)
      exact ih (hrows ▸ hc)

/-- The record of a job in a state of a run has no larger manifest. -/
theorem Reachable.record_fits {w : World} (h : Reachable sha w) (j : JobRow) :
    Json.size goStyle (orNull ResultManifest.toJson (j.record w.store id false).acceptedManifest)
      ≤ manifestLimit := by
  cases hm : (j.record w.store id false).acceptedManifest with
  | none =>
    show Json.size goStyle .null ≤ manifestLimit
    decide
  | some m =>
    simp only [JobRow.record, Option.bind_eq_some_iff] at hm
    obtain ⟨attempt, -, c, hc, hm⟩ := hm
    split_ifs at hm
    obtain rfl := Option.some.inj hm
    exact h.manifest_fits hc

/-- The diagnostics of a read. -/
def JobRow.diagnostics (j : JobRow) (s : Store) (now : Time) (id : Uuid) : QueueDiagnostics :=
  ⟨now, j.attemptCounter, queueBlockerHistory s id⟩

theorem clientGetJob_eq {j : JobRow} (hj : s.jobs.lookup id = some j)
    (hproject : j.project = project) :
    clientGetJob s now project id = (do
      require (responseSize ((j.record s id false).toJson (j.diagnostics s now id))
        ≤ maxResponseBytes) .unreadable
      require (j.diagnostics s now id).isValid .diagnostics
      pure (j.record s id false, j.diagnostics s now id)) := by
  have hread : getJobDiagnostics s now project id
      = .ok (j.record s id false, j.diagnostics s now id) := by
    simp only [getJobDiagnostics, getJob, hj, orThrow_some, ok_bind, require_of hproject]
    rfl
  rw [clientGetJob, hread]

/-- A read fails for its size exactly when the response is too large. -/
theorem clientGetJob_unreadable_iff {j : JobRow} (hj : s.jobs.lookup id = some j)
    (hproject : j.project = project) :
    clientGetJob s now project id = .error .unreadable ↔
      maxResponseBytes < responseSize ((j.record s id false).toJson (j.diagnostics s now id)) := by
  rw [clientGetJob_eq hj hproject]
  by_cases hsize : responseSize ((j.record s id false).toJson (j.diagnostics s now id))
      ≤ maxResponseBytes
  · refine iff_of_false (fun hunreadable => ?_) (not_lt.mpr hsize)
    rw [require_of hsize] at hunreadable
    refine absurd rfl ((?_ : Throws (fun e => e ≠ ReadError.unreadable) _) _ hunreadable)
    exact .bind (.pure _) fun _ => .bind (.require (by decide)) fun _ => .pure _
  · refine iff_of_true ?_ (not_le.mp hsize)
    rw [require, if_neg hsize]
    rfl

/-- **A job can be read unless its document and its manifest are too large.** In
every state of a run and at every time, the client's read of a job of its project
does not fail for the size of the response exactly when the stored document and
the accepted manifest, as Go escapes them, and what a response takes beside them
are at most four mebibytes. The manifest never takes more than two of them, so a
document that fits the other two with the rest can be read in whatever state its
job is. -/
theorem job_readable_iff_texts_fit {w : World} (h : Reachable sha w) {j : JobRow}
    (hj : w.store.jobs.lookup id = some j) (hproject : j.project = project) (now : Time) :
    (clientGetJob w.store now project id ≠ .error .unreadable ↔
      Json.size goStyle j.spec.toJson
        + Json.size goStyle (orNull ResultManifest.toJson
            (j.record w.store id false).acceptedManifest)
        + readOverhead (j.record w.store id false) (j.diagnostics w.store now id) ≤ 4 * 2 ^ 20) ∧
    (Json.size goStyle j.spec.toJson
        + readOverhead (j.record w.store id false) (j.diagnostics w.store now id) ≤ 2 * 2 ^ 20 →
      clientGetJob w.store now project id ≠ .error .unreadable) := by
  have hsize := JobRecord.responseSize_toJson (j.record w.store id false)
    (j.diagnostics w.store now id)
  have hspec : (j.record w.store id false).spec = j.spec := rfl
  rw [hspec] at hsize
  have hmanifest : Json.size goStyle
      (orNull ResultManifest.toJson (j.record w.store id false).acceptedManifest) ≤ manifestLimit :=
    h.record_fits j
  rw [Ne, clientGetJob_unreadable_iff hj hproject]
  rw [maxResponseBytes]
  rw [manifestLimit] at hmanifest
  constructor
  · omega
  · intro hdocument
    omega

/-- A response is at least as large as the document in it. -/
theorem JobRecord.size_spec_lt (r : JobRecord) (d : QueueDiagnostics) :
    Json.size goStyle r.spec.toJson < responseSize (r.toJson d) :=
  Nat.lt_succ_of_le (Json.size_le_size_obj goStyle
    (List.mem_cons_of_mem _ (List.mem_cons_of_mem _ (List.mem_cons_of_mem _ List.mem_cons_self))))

/-- The sample's job, with a document that is too large to be sent. -/
theorem Sample.queuedWith_unreadable {args : List String}
    (h : maxResponseBytes ≤ Json.size goStyle (job.withArgs args).toJson) (now : Time) :
    clientGetJob (queuedWith args).store now 1 1 = .error .unreadable := by
  have hjob : (queuedWith args).store.jobs.lookup 1 = some (submissionWith args) := rfl
  refine (clientGetJob_unreadable_iff hjob rfl).mpr (lt_of_le_of_lt h ?_)
  exact JobRecord.size_spec_lt ((submissionWith args).record (queuedWith args).store 1 false) _

/-- **A job that was admitted and can never be read.** Its document is 721
kilobytes long, and over four mebibytes when Go escapes it. -/
theorem bracketed_job_unreadable : ∃ w j, Reachable Sample.sha w ∧
    w.store.jobs.lookup 1 = some j ∧ j.project = 1 ∧
    ∀ now, clientGetJob w.store now 1 1 = .error .unreadable := by
  have hvalid : (Sample.bracketed Sample.job (87 + 1)).isValid = true :=
    Sample.bracketed_isValid (by decide +kernel) (by decide)
  have hfits : (Sample.bracketed Sample.job (87 + 1)).fitsColumn = true :=
    Sample.bracketed_fitsColumn rfl rfl (by decide +kernel)
  have hreach := Sample.queuedWith_reachable hvalid hfits
  have hnone : Sample.job.spec.args = [] := rfl
  have hspec := Sample.size_go_bracketed hnone 87
  rw [Sample.bracketed] at hspec
  refine ⟨_, Sample.submissionWith (List.replicate (87 + 1) (Sample.brackets 8192)), hreach,
    rfl, rfl, Sample.queuedWith_unreadable ?_⟩
  rw [hspec, maxResponseBytes]
  omega

/-- Without arguments the job can be read. -/
theorem sample_job_readable : ∃ w j, Reachable Sample.sha w ∧
    w.store.jobs.lookup 1 = some j ∧ j.project = 1 ∧
    clientGetJob w.store second 1 1 ≠ .error .unreadable := by
  have hreach : Reachable Sample.sha (Sample.queuedWith []) :=
    Sample.queuedWith_reachable (by decide +kernel) (by decide +kernel)
  have hjob : (Sample.queuedWith []).store.jobs.lookup 1 = some (Sample.submissionWith []) := rfl
  refine ⟨_, _, hreach, hjob, rfl, ?_⟩
  exact (job_readable_iff_texts_fit hreach hjob rfl second).2 (by decide +kernel)

end Dispatch
