import Dispatch.Outcome.Completion
import Dispatch.Store.Arguments

/-!
# When a success cannot be published

The manifest of a completion holds the document of its job once more, as Go
marshals it, beside the attempts and the artifacts, and is refused above two
mebibytes as an invalid request. That is also the bound of the document alone
in its column, where it is not escaped. So the worker may have done everything
right (`Publishable`) and its success is refused: exactly when the document, the
artifacts, the gaps, the metrics and the attempts, with what every manifest has
beside them, are too large together (`successManifest_size`).

Since the request is the only one it has, and every repetition is refused
alike, the attempt then ends when its lease or its deadline runs out.
-/

namespace Dispatch

open Txn

variable {sha : Uuid → ℕ} {s : Store} {completed now : Time} {id : WorkerIdentity}
  {r : CompletionRequest} {a : AttemptRow} {j : JobRow} {outputs logs : List PublishedArtifact}

/-- **A legal success**: the request of the attempt's own worker passes every
check of a first completion. The container has ended with the reported exit
code, which is zero by `normalizeCompletion`, every required output is verified,
and the logs are accounted for. -/
structure Publishable (s : Store) (completed : Time) (id : WorkerIdentity) (r : CompletionRequest)
    (a : AttemptRow) (j : JobRow) (outputs logs : List PublishedArtifact) : Prop where
  mine : canonicalUUID id.workerID = true ∧ canonicalUUID id.credentialID = true ∧
    r.authority.workerID = id.workerID
  payload : normalizeCompletion r = .ok r.payloadSHA256
  authorized : authorizeWorkerTx s id = .ok ()
  attempt : s.attempts.lookup r.authority.attemptID = some a
  authority : a.authority r.authority.attemptID = r.authority
  first : s.completions.lookup r.authority.attemptID = none
  unused : ∀ e ∈ s.completions.entries, ¬ (e.2.worker = id.workerID ∧
    e.2.session = r.authority.sessionID ∧ e.2.completionID = r.completionID)
  job : s.jobs.lookup a.job = some j
  session : requireCurrentWorkerSession s id.workerID r.authority.sessionID = .ok ()
  live : completionDecision r j.lease (a.lease r.authority.attemptID) completed = .accepted
  success : r.reason = none
  ended : a.state = .finalizing ∧ a.exitCode = r.exitCode
  outputs : r.payloadSHA256.outputs.mapM (completionOutput s r j.spec) = .ok outputs
  required : ∀ d ∈ j.spec.spec.outputs, d.required = true →
    d.name ∈ r.payloadSHA256.outputs.map CompletionOutput.name
  metrics : r.metricsJSON.isSome = true →
    ((r.payloadSHA256.outputs.find? (fun o => decide (o.name = "metrics"))).map
      CompletionOutput.artifactID).isSome = true
  logs : (attemptSegments s r.authority.attemptID).mapM (completionSegment s r.payloadSHA256.gaps)
    = .ok logs
  settled : r.logsComplete = true → logsPending s r.authority.attemptID = false

/-- The manifest of a success. -/
def successManifest (s : Store) (completed : Time) (r : CompletionRequest) (j : JobRow)
    (outputs logs : List PublishedArtifact) : ResultManifest where
  authority := r.authority
  projectID := j.project
  spec := j.spec
  specSHA256 := j.specHash
  state := .succeeded
  exitCode := r.exitCode
  reason := r.reason
  completedAt := completed
  cleanupPending := !r.stopped
  outputs := outputs
  logArtifacts := logs
  logsComplete := r.logsComplete
  gaps := r.payloadSHA256.gaps
  metrics := r.payloadSHA256.metrics
  metricsArtifactID := (r.payloadSHA256.outputs.find? (fun o => decide (o.name = "metrics"))).map
    CompletionOutput.artifactID
  attempts := resultAttempts s r .succeeded completed

/-- A manifest is at least as large as the document in it. -/
theorem ResultManifest.size_spec_le (st : Json.Style) (m : ResultManifest) :
    Json.size st m.spec.toJson ≤ Json.size st m.toJson :=
  Json.size_le_size_obj st
    (List.mem_cons_of_mem _ (List.mem_cons_of_mem _ (List.mem_cons_of_mem _ List.mem_cons_self)))

/-- **What a success takes beside its parts**: the names of the manifest's members,
its identifiers and its hash are as long in every manifest, the generation, the
time, the two flags and the metrics' artifact are not. -/
def successOverhead (completed : Time) (r : CompletionRequest) : ℕ :=
  552 + Json.size goStyle (intJson r.authority.generation) + Json.size goStyle (timeJson completed)
    + Json.size goStyle (.bool !r.stopped) + Json.size goStyle (.bool r.logsComplete)
    + Json.size goStyle (.str (((r.payloadSHA256.outputs.find?
        (fun o => decide (o.name = "metrics"))).map (fun o => uuidText o.artifactID)).getD ""))

/-- A success has exit code zero. -/
theorem Publishable.exitCode_eq (h : Publishable s completed id r a j outputs logs) :
    r.exitCode = some 0 := by
  have hpayload := h.payload
  simp only [normalizeCompletion, bind_ok, require_ok] at hpayload
  obtain ⟨-, -, -, -, -, hexit, -⟩ := hpayload
  simp only [validExit, h.success, Bool.and_eq_true, decide_eq_true_eq] at hexit
  exact hexit.2.1

/-- The size of an authority. -/
theorem AttemptAuthority.size_toJson (x : AttemptAuthority) :
    Json.size goStyle x.toJson = 214 + Json.size goStyle (intJson x.generation) := by
  have hnames : (["jobId", "attemptId", "generation", "workerId", "sessionId"].map (fun k =>
      Json.utf8Length (Json.quote goStyle k) + Json.utf8Length goStyle.colon)).sum = 56 := by decide
  have hcomma : Json.utf8Length goStyle.comma = 1 := by decide
  rw [AttemptAuthority.toJson, Json.size_obj_of_names goStyle
    ["jobId", "attemptId", "generation", "workerId", "sessionId"] rfl, hnames, hcomma]
  simp only [List.map_cons, List.map_nil, List.sum_cons, List.sum_nil, List.length_cons,
    List.length_nil, size_uuidJson]
  omega

/-- The names of a manifest's members. -/
def manifestNames : List String :=
  ["version", "authority", "projectId", "spec", "specSha256", "state", "exitCode", "reason",
    "completedAt", "cleanupPending", "outputs", "logArtifacts", "logsComplete", "gaps", "metrics",
    "metricsArtifactId", "attempts"]

/-- **The manifest of a success is its parts.** -/
theorem ResultManifest.size_toJson {m : ResultManifest} (hsucceeded : m.state = .succeeded)
    (hcode : m.exitCode = some 0) (hnone : m.reason = none) :
    Json.size goStyle m.toJson
      = Json.size goStyle m.spec.toJson
        + Json.size goStyle (.arr (m.outputs.map PublishedArtifact.toJson))
        + Json.size goStyle (.arr (m.logArtifacts.map PublishedArtifact.toJson))
        + Json.size goStyle (.arr (m.gaps.map CompletionLogGap.toJson))
        + Json.size goStyle (.obj (m.metrics.map (fun x => (x.1, Json.num x.2))))
        + Json.size goStyle (.arr (m.attempts.map (ResultAttempt.toJson m.authority.attemptID)))
        + (552 + Json.size goStyle (intJson m.authority.generation)
          + Json.size goStyle (timeJson m.completedAt)
          + Json.size goStyle (.bool m.cleanupPending) + Json.size goStyle (.bool m.logsComplete)
          + Json.size goStyle (.str ((m.metricsArtifactID.map uuidText).getD ""))) := by
  -- The names, and the values that are the same in every success.
  have hnames : (manifestNames.map (fun k =>
      Json.utf8Length (Json.quote goStyle k) + Json.utf8Length goStyle.colon)).sum
        = 201 := by decide
  have hcomma : Json.utf8Length goStyle.comma = 1 := by decide
  have hfixed : Json.size goStyle (intJson 1) = 1 ∧ Json.size goStyle hashJson = 66 ∧
      Json.size goStyle (.str AttemptState.succeeded.text) = 11 ∧
      Json.size goStyle (orNull intJson (some 0)) = 1 ∧
      Json.size goStyle (reasonJson none) = 2 := by decide +kernel
  obtain ⟨hversion, hhash, hstate, hexit, hreason⟩ := hfixed
  have hauthority := AttemptAuthority.size_toJson m.authority
  have hproject := size_uuidJson m.projectID
  have hlength : manifestNames.length = 17 := rfl
  rw [ResultManifest.toJson, Json.size_obj_of_names goStyle manifestNames rfl, hnames, hcomma,
    hsucceeded, hcode, hnone, hlength]
  -- What is left are sums, to which a size is a number like any other.
  generalize Json.size goStyle = size at *
  simp only [List.map_cons, List.map_nil]
  rw [hversion, hauthority, hproject, hhash, hstate, hexit, hreason]
  iterate 17 rw [List.sum_cons]
  rw [List.sum_nil]
  omega

theorem Publishable.successManifest_size (h : Publishable s completed id r a j outputs logs) :
    Json.size goStyle (successManifest s completed r j outputs logs).toJson
      = Json.size goStyle j.spec.toJson
        + Json.size goStyle (.arr (outputs.map PublishedArtifact.toJson))
        + Json.size goStyle (.arr (logs.map PublishedArtifact.toJson))
        + Json.size goStyle (.arr (r.payloadSHA256.gaps.map CompletionLogGap.toJson))
        + Json.size goStyle (.obj (r.payloadSHA256.metrics.map (fun x => (x.1, Json.num x.2))))
        + Json.size goStyle (.arr ((resultAttempts s r .succeeded completed).map
            (ResultAttempt.toJson r.authority.attemptID)))
        + successOverhead completed r := by
  rw [ResultManifest.size_toJson (m := successManifest s completed r j outputs logs) rfl
    h.exitCode_eq h.success, successOverhead]
  simp only [successManifest, Option.map_map, Function.comp_def]

/-- The manifest is built exactly when it is not too large. -/
theorem Publishable.completionManifest_eq (h : Publishable s completed id r a j outputs logs) :
    completionManifest s r r.payloadSHA256 j .succeeded completed
      = (require (Json.size goStyle (successManifest s completed r j outputs logs).toJson
          ≤ manifestLimit) StoreError.invalid >>= fun _ =>
        pure (successManifest s completed r j outputs logs)) := by
  simp only [completionManifest, h.outputs, ok_bind, require_of (fun _ => h.required),
    require_of h.metrics, h.logs, require_of h.settled]
  rfl

/-- Nothing after the manifest makes a request invalid. -/
theorem finishSuccess_throws (m : ResultManifest) (out : CompletionOutcome)
    (hout : out.jobState ≠ .failed) (p : CompletionPayload) :
    Throws (fun e => e ≠ StoreError.invalid) (finishAttempt s completed now r p out m) := by
  have hdatabase : StoreError.database ≠ .invalid := by decide
  have hconflict : StoreError.conflict ≠ .invalid := by decide
  unfold finishAttempt
  simp only [if_neg hout]
  exact .bind (.bind (.orThrow hconflict) fun _ => .bind (.require hconflict) fun _ => .pure _)
    fun _ => .bind (.bind (.orThrow hdatabase) fun _ => .bind (.orThrow hdatabase) fun _ => .pure _)
    fun _ => .pure _

/-- **A legal success is refused exactly when its manifest is too large.** -/
theorem completeAttempt_invalid_iff {w : World} (h : Reachable sha w)
    (hp : Publishable w.store completed id r a j outputs logs) :
    completeAttempt sha w.store completed now id r = .error .invalid ↔
      manifestLimit < Json.size goStyle
        (successManifest w.store completed r j outputs logs).toJson := by
  have hdatabase : StoreError.database ≠ .invalid := by decide
  have hvalid : j.spec.isValid = true :=
    (h.ledger_sound.furnished.documents a.job _ (Store.toLedger_job hp.job)).valid
  have hauthority : ¬ a.authority r.authority.attemptID ≠ r.authority := not_not.mpr hp.authority
  have hactive : ¬ (!a.state.isActive) = true := by
    rw [hp.ended.1]
    decide
  have hlive : ¬ completionDecision r j.lease (a.lease r.authority.attemptID) completed
      ≠ .accepted := not_not.mpr hp.live
  have hphase : validateCompletionPhase r a.state a.exitCode j.cancelRequested = .ok () := by
    simp only [validateCompletionPhase, require_of hp.ended.2, ok_bind, hp.success,
      require_of hp.ended.1]
  have hout : completionOutcome sha r j.spec completed now
      = ⟨.succeeded, .succeeded, completed⟩ := by
    simp only [completionOutcome, hp.success]
  simp only [completeAttempt, require_of hp.mine, ok_bind, hp.payload, require_of trivial,
    hp.authorized, hp.attempt, if_neg hauthority, hp.first, require_of hp.unused, if_neg hactive,
    hp.job, orThrow_some, require_of hvalid, hp.session, if_neg hlive, hphase, hout,
    hp.completionManifest_eq]
  by_cases hsize : Json.size goStyle (successManifest w.store completed r j outputs logs).toJson
      ≤ manifestLimit
  · refine iff_of_false (fun hinvalid => ?_) (not_lt.mpr hsize)
    rw [require_of hsize] at hinvalid
    refine absurd rfl ((?_ : Throws (fun e => e ≠ StoreError.invalid) _) _ hinvalid)
    refine .bind (.pure _) fun m => .bind ?_ fun recorded => ?_
    · refine .bind (.orThrow hdatabase) fun _ =>
        .bind (.foldlM (fun _ _ => ?_) _ _) fun _ => .pure _
      exact .orThrow hdatabase
    · split
      · exact .pure _
      · have hsucceeded : JobState.succeeded ≠ .failed := by decide
        exact .bind (finishSuccess_throws m _ hsucceeded _) fun _ => .pure _
  · refine iff_of_true ?_ (not_le.mp hsize)
    rw [require, if_neg hsize]
    rfl

/-- **Successful work is published unless its parts are too large.** In every
state of a run and for every legal success in it, whatever the document of the
job, the number of its attempts and the artifacts of this one: the completion is
not refused as invalid exactly when the stored document, the verified outputs and
log segments, the gaps, the metrics and the attempts, each as Go writes it, leave
room for the rest of a manifest in two mebibytes. -/
theorem success_published_iff_parts_fit {w : World} (h : Reachable sha w)
    (hp : Publishable w.store completed id r a j outputs logs) (now : Time) :
    completeAttempt sha w.store completed now id r ≠ .error .invalid ↔
      Json.size goStyle j.spec.toJson
        + Json.size goStyle (.arr (outputs.map PublishedArtifact.toJson))
        + Json.size goStyle (.arr (logs.map PublishedArtifact.toJson))
        + Json.size goStyle (.arr (r.payloadSHA256.gaps.map CompletionLogGap.toJson))
        + Json.size goStyle (.obj (r.payloadSHA256.metrics.map (fun x => (x.1, Json.num x.2))))
        + Json.size goStyle (.arr ((resultAttempts w.store r .succeeded completed).map
            (ResultAttempt.toJson r.authority.attemptID)))
        + successOverhead completed r ≤ 2 * 2 ^ 20 := by
  rw [Ne, completeAttempt_invalid_iff h hp, not_lt, hp.successManifest_size, manifestLimit]

namespace Sample

/-- The completion of the sample run is a legal success, whatever the arguments. -/
theorem finalizingWith_publishable (args : List String) :
    Publishable (finalizingWith args).store second identity success
      (attemptWith args .finalizing (some container) (some 0) (second + seconds 300))
      (activeWith args 5) [] [] where
  mine := by decide
  payload := toOption_eq_some.mp (by decide +kernel)
  authorized := rfl
  attempt := rfl
  authority := rfl
  first := rfl
  unused := by
    intro e he
    exact absurd he List.not_mem_nil
  job := rfl
  session := rfl
  live := rfl
  success := rfl
  ended := ⟨rfl, rfl⟩
  outputs := rfl
  required := by
    intro d hd
    exact absurd hd List.not_mem_nil
  metrics := by
    intro hmetrics
    cases hmetrics
  logs := rfl
  settled := fun _ => rfl

/-- Its manifest holds the document. -/
theorem size_le_finalizingWith (args : List String) :
    Json.size goStyle (job.withArgs args).toJson ≤ Json.size goStyle
      (successManifest (finalizingWith args).store second success (activeWith args 5) []
        []).toJson :=
  ResultManifest.size_spec_le goStyle
    (successManifest (finalizingWith args).store second success (activeWith args 5) [] [])

end Sample

/-- **A success that can never be published.** The document has 43 arguments of
8192 angle brackets, 353 kilobytes; the container has ended with exit code zero
and the worker's request is in order. -/
theorem bracketed_success_refused : ∃ w a j, Reachable Sample.sha w ∧
    Publishable w.store second Sample.identity Sample.success a j [] [] ∧
    ∀ now, completeAttempt Sample.sha w.store second now Sample.identity Sample.success
      = .error .invalid := by
  have hvalid : (Sample.bracketed Sample.job (42 + 1)).isValid = true :=
    Sample.bracketed_isValid (by decide +kernel) (by decide)
  have hfits : (Sample.bracketed Sample.job (42 + 1)).fitsColumn = true :=
    Sample.bracketed_fitsColumn rfl rfl (by decide +kernel)
  have hreach := Sample.finalizingWith_reachable hvalid hfits
  have hpublishable := Sample.finalizingWith_publishable
    (List.replicate (42 + 1) (Sample.brackets 8192))
  refine ⟨_, _, _, hreach, hpublishable, fun now => ?_⟩
  refine (completeAttempt_invalid_iff hreach hpublishable).mpr ?_
  have hnone : Sample.job.spec.args = [] := rfl
  have hspec := Sample.size_go_bracketed hnone 42
  rw [Sample.bracketed] at hspec
  have hmember := Sample.size_le_finalizingWith (List.replicate (42 + 1) (Sample.brackets 8192))
  rw [manifestLimit]
  omega

/-- Without arguments the success is published. -/
theorem sample_success_published : ∃ w a j, Reachable Sample.sha w ∧
    Publishable w.store second Sample.identity Sample.success a j [] [] ∧
    completeAttempt Sample.sha w.store second second Sample.identity Sample.success
      ≠ .error .invalid := by
  have hreach : Reachable Sample.sha (Sample.finalizingWith []) :=
    Sample.finalizingWith_reachable (by decide +kernel) (by decide +kernel)
  have hpublishable := Sample.finalizingWith_publishable []
  refine ⟨_, _, _, hreach, hpublishable, ?_⟩
  exact (success_published_iff_parts_fit hreach hpublishable second).mpr (by decide +kernel)

end Dispatch
