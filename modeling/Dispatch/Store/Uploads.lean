import Dispatch.Store.Submission

/-!
# Uploads, artifacts and log segments

A worker declares an upload before it is given a capability to write, and has
it verified afterwards; a large output goes through a multipart upload whose
parts are bound one by one. A verified log object is then catalogued as a
segment of its stream.

All six transactions share a prologue (`ownedAttempt`) and a gate
(`leaseDecision`), the clock being sampled after every lock; an answer other
than `ACCEPTED` rolls everything back. The exception is the replay of a
registered segment, which is answered before the gate and changes nothing.

Verification and the completion of a multipart upload each call the object
store between two transactions; the model has the two transactions.
-/

namespace Dispatch

open Txn

variable {s s' seen : Store} {now : Time} {id : WorkerIdentity}

/-- The largest object of one part, and the largest part. -/
def maxUploadBytes : ℤ := 64 * 2 ^ 20

/-- The largest object of several parts. -/
def maxMultipartUploadBytes : ℤ := 8 * 2 ^ 30

/-- The smallest part of several. -/
def minUploadPartBytes : ℤ := 5 * 2 ^ 20

/-- The largest number of parts. -/
def maxUploadParts : ℤ := 10000

/-- The largest number of uploads of an attempt. -/
def maxAttemptUploadCount : ℕ := 1024

/-- The largest size of an attempt's uploads together. -/
def maxAttemptUploadBytes : ℤ := 8 * 2 ^ 30

/-- The largest number of finalizations of an attempt. -/
def maxAttemptFinalizations : ℕ := 1024

/-- The largest log segment. -/
def maxLogSegmentBytes : ℤ := 2 ^ 20

/-- The largest number of gaps in a segment. -/
def maxLogSegmentGaps : ℕ := 1024

/-- The authority of a request is well formed and of this worker. -/
def validAuthority (a : AttemptAuthority) (worker : Uuid) : Bool :=
  canonicalUUID a.jobID && canonicalUUID a.attemptID && canonicalUUID a.sessionID &&
    decide (a.workerID = worker) && decide (1 ≤ a.generation)

/-- Printable ASCII without blanks, as versions, entity tags and backend
identities are written. -/
def validMultipartValue (v : String) : Bool :=
  decide (0 < v.utf8ByteSize) && decide (v.utf8ByteSize ≤ 1024) &&
    v.toList.all (fun c => decide (33 ≤ c.toNat) && decide (c.toNat ≤ 126))

/-- `STARTING`, `RUNNING` and `FINALIZING`: when logs may be uploaded. -/
def AttemptState.acceptsLogs : AttemptState → Bool
  | starting | running | finalizing => true
  | _ => false

/-- When an upload of a kind may be finalized. -/
def AttemptState.finalizes (state : AttemptState) : UploadKind → Bool
  | .log => state.acceptsLogs
  | .output | .manifest => decide (state = .finalizing)

/-! ## Declarations -/

/-- A request to upload an object. -/
structure UploadRequest where
  requestID : Uuid
  claims : UploadClaims
  deriving DecidableEq, Repr

/-- An upload, with the identity the object store gave a multipart one. -/
structure UploadRecord where
  uploadID : Uuid
  row : UploadRow
  initializationID : Option Uuid
  backendUploadID : Option String
  deriving DecidableEq, Repr

/-- What a request to upload is answered. -/
structure UploadResult where
  decision : Decision
  state : Option AttemptState
  upload : Option UploadRecord
  serverTime : Time
  leaseExpiresAt : Time
  phaseDeadline : Time
  deriving DecidableEq, Repr

/-- An answer that grants nothing. -/
def UploadResult.refused (d : Decision) (state : Option AttemptState) (now : Time) : UploadResult :=
  ⟨d, state, none, now, 0, 0⟩

/-- The generated `object_key` column. -/
def objectKey (project job attempt upload : Uuid) : String :=
  "projects/" ++ uuidText project ++ "/jobs/" ++ uuidText job ++ "/attempts/" ++ uuidText attempt ++
    "/uploads/" ++ uuidText upload

/-- The key of an upload's object. -/
def UploadRow.key (upload : Uuid) (u : UploadRow) : String :=
  objectKey u.project u.claims.authority.jobID u.claims.authority.attemptID upload

/-- The part plan is part of the request's identity. -/
def UploadClaims.validPartPlan (c : UploadClaims) : Bool :=
  if c.partCount = 1 then
    decide (c.partSizeBytes = 0) && decide (0 ≤ c.sizeBytes) &&
      decide (c.sizeBytes ≤ maxUploadBytes)
  else
    decide (c.kind = .output) && decide (2 ≤ c.partCount) &&
      decide (c.partCount ≤ maxUploadParts) &&
      decide (0 < c.sizeBytes) && decide (c.sizeBytes ≤ maxMultipartUploadBytes) &&
      decide (minUploadPartBytes ≤ c.partSizeBytes) && decide (c.partSizeBytes ≤ maxUploadBytes) &&
      decide (c.partCount = 1 + (c.sizeBytes - 1) / c.partSizeBytes)

/-- The request is well formed and of this worker. -/
def UploadRequest.isValid (r : UploadRequest) (worker : Uuid) : Bool :=
  canonicalUUID r.requestID && validAuthority r.claims.authority worker &&
    namePattern r.claims.logicalName && hashPattern r.claims.sha256 && r.claims.validPartPlan

/-- What may be uploaded in which phase. -/
def validateUploadDeclaration (c : UploadClaims) (job : Job) (state : AttemptState) :
    Except StoreError Unit :=
  match c.kind with
  | .log => do
    require state.acceptsLogs .conflict
    require ((c.logicalName = "stdout" ∨ c.logicalName = "stderr") ∧ 1 ≤ c.sizeBytes ∧
      c.sizeBytes ≤ maxLogSegmentBytes) .invalid
  | .manifest => do
    require (state = .finalizing) .conflict
    require (c.logicalName = "result" ∧ c.sizeBytes ≤ 2 ^ 20) .invalid
  | .output => do
    require (state = .finalizing) .conflict
    require (∃ o ∈ job.spec.outputs, c.logicalName = o.name ∧ c.sizeBytes ≤ o.maxBytes) .invalid

/-- `readUpload`: the upload a request of a session declared. -/
def readUpload (s : Store) (worker session request : Uuid) : Option (Uuid × UploadRow) :=
  (s.uploads.select (fun _ u => decide (u.claims.authority.workerID = worker) &&
    decide (u.claims.authority.sessionID = session) && decide (u.request = request))).head?

/-- The uploads of an attempt. -/
def attemptUploads (s : Store) (attempt : Uuid) : List (Uuid × UploadRow) :=
  s.uploads.select (fun _ u => decide (u.claims.authority.attemptID = attempt))

/-- Claim a declaration: insert it, or find the one the request made before.
The last component says whether it was inserted. -/
def claimUpload (s : Store) (now : Time) (project upload : Uuid) (r : UploadRequest) :
    Except StoreError (Store × Uuid × UploadRow × Bool) :=
  match readUpload s r.claims.authority.workerID r.claims.authority.sessionID r.requestID with
  | some (saved, row) => do
    require (row.claims = r.claims) .conflict
    require (row.project = project) .invalid
    pure (s, saved, row, false)
  | none => do
    let row : UploadRow := ⟨project, r.requestID, r.claims, now⟩
    let uploads ← orThrow (s.uploads.insertNew upload row) .database
    pure ({ s with uploads := uploads }, upload, row, true)

/-- The multipart identity of an upload, created on first use; a single-part
upload has none. -/
def claimMultipart (s : Store) (initialization upload : Uuid) (row : UploadRow) :
    Store × Option MultipartRow :=
  if row.claims.partCount ≤ 1 then (s, none)
  else match s.multipart.lookup upload with
    | some m => (s, some m)
    | none =>
      ({ s with multipart := AList.insert upload ⟨initialization, none⟩ s.multipart },
        some ⟨initialization, none⟩)

/-- A first declaration stays within the attempt's limits and is logged; a
repeated one costs nothing. -/
def admitUpload (s : Store) (now : Time) (upload : Uuid) (row : UploadRow) (inserted : Bool) :
    Except StoreError Store :=
  if inserted then do
    let c := row.claims
    let all := attemptUploads s c.authority.attemptID
    require (all.length ≤ maxAttemptUploadCount ∧
      (all.map (fun x => x.2.claims.sizeBytes)).sum ≤ maxAttemptUploadBytes) .uploadLimit
    s.appendEvent now c.authority.jobID (some c.authority.attemptID)
      (.uploadCreated upload c.kind c.logicalName c.sizeBytes c.sha256)
  else pure s

/-- The multipart row with its backend identity. -/
def Store.setBackend (s : Store) (upload : Uuid) (backend : String) : Store :=
  { s with multipart := s.multipart.modify upload ({ · with backendUploadID := some backend }) }

/-- Bind a backend identity, if one is given, once. -/
def bindBackend (s : Store) (now : Time) (upload : Uuid) (authority : AttemptAuthority)
    (multipart : Option MultipartRow) (backend : Option String) : Except StoreError Store :=
  match multipart, backend with
  | some m, some b =>
    match m.backendUploadID with
    | some saved => do
      require (saved = b) .conflict
      pure s
    | none =>
      (s.setBackend upload b).appendEvent now authority.jobID (some authority.attemptID)
        (.multipartInitialized upload m.initializationID)
  | _, _ => pure s

/-- **The declaration of an upload**, and with `backend` the binding of its
multipart identity. `upload` and `initialization` are the fresh ids. -/
def createUpload (s seen : Store) (now : Time) (id : WorkerIdentity) (r : UploadRequest)
    (backend : Option String) (upload initialization : Uuid) :
    Except StoreError (Store × UploadResult) := do
  require (canonicalUUID id.workerID ∧ canonicalUUID id.credentialID) .unauthorized
  require (r.isValid id.workerID) .invalid
  let authority := r.claims.authority
  match ← ownedAttempt s seen id authority with
  | none => pure (s, UploadResult.refused .fenced none 0)
  | some a =>
    let j ← orThrow (s.jobs.lookup a.job) .database
    require j.spec.isValid .invalid
    let (claimed, saved, row, inserted) ← claimUpload s now j.project upload r
    let (prepared, multipart) := claimMultipart claimed initialization saved row
    let decision := leaseDecision authority j.lease (some (a.lease authority.attemptID)) now
    if decision ≠ .accepted then pure (s, UploadResult.refused decision (some a.state) now)
    else
      validateUploadDeclaration r.claims j.spec a.state
      let admitted ← admitUpload prepared now saved row inserted
      let bound ← bindBackend admitted now saved authority multipart backend
      pure (bound, ⟨.accepted, some a.state, some ⟨saved, row,
          multipart.map MultipartRow.initializationID,
          (multipart.bind MultipartRow.backendUploadID) <|> (multipart.bind (fun _ => backend))⟩,
        now, a.leaseExpiresAt, a.phaseDeadline⟩)

/-- A declaration changes nothing and is turned away unless the gate is open. -/
theorem createUpload_gated {r : UploadRequest} {backend : Option String}
    {upload initialization : Uuid} {result : UploadResult}
    (h : createUpload s seen now id r backend upload initialization = .ok (s', result)) :
    s' = s ∧ result.decision ≠ .accepted ∨ Authorized s now r.claims.authority := by
  simp only [createUpload, bind_ok] at h
  obtain ⟨_, -, _, -, owned, howned, h⟩ := h
  cases owned with
  | none =>
    obtain ⟨rfl, rfl⟩ := pure_pair_ok.mp h
    exact .inl ⟨rfl, by simp [UploadResult.refused]⟩
  | some a =>
    obtain ⟨ha, -⟩ := ownedAttempt_eq_some howned
    simp only [bind_ok, orThrow_ok] at h
    obtain ⟨j, hj, _, -, ⟨claimed, saved, row, inserted⟩, -, h⟩ := h
    split at h
    · rename_i hdecision
      obtain ⟨rfl, rfl⟩ := pure_pair_ok.mp h
      exact .inl ⟨rfl, hdecision⟩
    · rename_i hdecision
      exact .inr ⟨a, j, ha, hj, not_not.mp hdecision⟩

/-- The binding of a backend identity is a declaration that carries one. -/
def bindMultipartUpload (s seen : Store) (now : Time) (id : WorkerIdentity) (r : UploadRequest)
    (backend : String) (upload initialization : Uuid) :
    Except StoreError (Store × UploadResult) := do
  require (2 ≤ r.claims.partCount ∧ validMultipartValue backend) .invalid
  createUpload s seen now id r (some backend) upload initialization

/-! ## Multipart parts and their completion -/

/-- `loadMultipartUploadTx`: a bound multipart upload of this authority. -/
def loadMultipartUpload (s : Store) (authority : AttemptAuthority) (upload : Uuid) :
    Except StoreError (UploadRow × MultipartRow × String) := do
  let row ← orThrow (s.uploads.lookup upload) .notFound
  require (row.claims.authority.workerID = authority.workerID ∧
    row.claims.authority.sessionID = authority.sessionID) .notFound
  require (row.claims.authority = authority ∧ 2 ≤ row.claims.partCount) .invalid
  let m ← orThrow (s.multipart.lookup upload) .database
  let backend ← orThrow m.backendUploadID .conflict
  pure (row, m, backend)

/-- A request to upload one part. -/
structure MultipartPartRequest where
  authority : AttemptAuthority
  uploadID : Uuid
  number : ℕ
  sha256 : String
  deriving DecidableEq, Repr

/-- **The grant of a part.** -/
def prepareMultipartPart (s seen : Store) (now : Time) (id : WorkerIdentity)
    (r : MultipartPartRequest) : Except StoreError (Store × UploadResult) := do
  require (canonicalUUID id.workerID ∧ canonicalUUID id.credentialID) .unauthorized
  require (canonicalUUID r.uploadID ∧ validAuthority r.authority id.workerID ∧ 1 ≤ r.number ∧
    (r.number : ℤ) ≤ maxUploadParts ∧ hashPattern r.sha256) .invalid
  match ← ownedAttempt s seen id r.authority with
  | none => pure (s, UploadResult.refused .fenced none 0)
  | some a =>
    let j ← orThrow (s.jobs.lookup a.job) .database
    let (row, m, backend) ← loadMultipartUpload s r.authority r.uploadID
    require ((r.number : ℤ) ≤ row.claims.partCount) .invalid
    require (∀ saved ∈ s.uploadParts.lookup (r.uploadID, r.number), saved = r.sha256) .conflict
    let decision := leaseDecision r.authority j.lease (some (a.lease r.authority.attemptID)) now
    if decision ≠ .accepted then pure (s, UploadResult.refused decision (some a.state) now)
    else
      require (a.state = .finalizing) .conflict
      require (∀ c ∈ s.multipartCompletions.lookup r.uploadID, c.objectVersion = none) .conflict
      pure ({ s with uploadParts := AList.insert (r.uploadID, r.number) r.sha256 s.uploadParts },
        ⟨.accepted, some a.state, some ⟨r.uploadID, row, some m.initializationID, some backend⟩,
          now, a.leaseExpiresAt, a.phaseDeadline⟩)

theorem prepareMultipartPart_gated {r : MultipartPartRequest} {result : UploadResult}
    (h : prepareMultipartPart s seen now id r = .ok (s', result)) :
    s' = s ∧ result.decision ≠ .accepted ∨ Authorized s now r.authority := by
  simp only [prepareMultipartPart, bind_ok] at h
  obtain ⟨_, -, _, -, owned, howned, h⟩ := h
  cases owned with
  | none =>
    obtain ⟨rfl, rfl⟩ := pure_pair_ok.mp h
    exact .inl ⟨rfl, by simp [UploadResult.refused]⟩
  | some a =>
    obtain ⟨ha, -⟩ := ownedAttempt_eq_some howned
    simp only [bind_ok, orThrow_ok] at h
    obtain ⟨j, hj, ⟨row, m, backend⟩, -, _, -, _, -, h⟩ := h
    split at h
    · rename_i hdecision
      obtain ⟨rfl, rfl⟩ := pure_pair_ok.mp h
      exact .inl ⟨rfl, hdecision⟩
    · rename_i hdecision
      exact .inr ⟨a, j, ha, hj, not_not.mp hdecision⟩

/-- A request to put the parts together. -/
structure MultipartCompletionRequest where
  requestID : Uuid
  claims : MultipartClaims
  deriving DecidableEq, Repr

/-- What a request to put parts together is answered. -/
structure MultipartCompletionResult where
  decision : Decision
  state : Option AttemptState
  version : Option String
  upload : Option UploadRecord
  deriving DecidableEq, Repr

/-- `artifactKeyPattern`, with its length bound. -/
def validObjectKey (key : String) : Bool :=
  decide (key.utf8ByteSize ≤ 1024) && (splitSlash key.toList).all (fun e =>
    !e.isEmpty && e.all (fun c => isAlnum c || c == '_' || c == '-'))

/-- `AttemptAuthority`, in the order of its fields. -/
def AttemptAuthority.toJson (a : AttemptAuthority) : Json :=
  .obj [("jobId", uuidJson a.jobID), ("attemptId", uuidJson a.attemptID),
    ("generation", intJson a.generation), ("workerId", uuidJson a.workerID),
    ("sessionId", uuidJson a.sessionID)]

/-- `ArtifactObject`, in the order of its fields. -/
def ArtifactObject.toJson (o : ArtifactObject) : Json :=
  .obj [("key", .str o.key), ("version", .str o.version), ("sizeBytes", intJson o.sizeBytes),
    ("sha256", .str o.sha256)]

/-- The parts of an upload, as the request is encoded. -/
def partsJson (parts : List MultipartPart) : Json :=
  .arr (parts.map (fun p => Json.obj [("number", intJson p.number), ("etag", .str p.etag),
    ("sha256", .str p.sha256)]))

/-- The claims of a completion, as the request is encoded. -/
def MultipartClaims.toJson (c : MultipartClaims) : Json :=
  .obj ([("authority", c.authority.toJson), ("uploadId", uuidJson c.uploadID),
    ("parts", partsJson c.parts)] ++ match c.object with
      | some o => [("object", o.toJson)]
      | none => [])

/-- The request is well formed and of this worker, its parts numbered from one. -/
def MultipartCompletionRequest.isValid (r : MultipartCompletionRequest) (worker : Uuid) : Bool :=
  let c := r.claims
  canonicalUUID r.requestID && canonicalUUID c.uploadID && validAuthority c.authority worker &&
    decide (2 ≤ c.parts.length) && decide ((c.parts.length : ℤ) ≤ maxUploadParts) &&
    c.parts.zipIdx.all (fun x => decide (x.1.number = x.2 + 1) && validMultipartValue x.1.etag &&
      hashPattern x.1.sha256) &&
    (match c.object with
      | none => true
      | some o => decide (o.version = "") && decide (0 ≤ o.sizeBytes) &&
          decide (o.sizeBytes ≤ maxUploadBytes) && validObjectKey o.key && hashPattern o.sha256) &&
    decide (Json.size goStyle c.toJson ≤ 2 * 2 ^ 20)

/-- The one completion intent of an upload: the one saved, which must be this
request's, or a new one, unless the session used the request id for another
upload. -/
def claimMultipartCompletion (s : Store) (r : MultipartCompletionRequest) :
    Except StoreError (Store × MultipartCompletionRow) :=
  let c := r.claims
  match s.multipartCompletions.lookup c.uploadID with
  | some saved => do
    require (saved.request = r.requestID ∧ saved.requestHash = c) .conflict
    pure (s, saved)
  | none => do
    require (∀ e ∈ s.multipartCompletions.entries, ¬ (e.2.worker = c.authority.workerID ∧
      e.2.session = c.authority.sessionID ∧ e.2.request = r.requestID)) .conflict
    require (Json.size jsonbStyle (partsJson c.parts) ≤ 2097152) .database
    let row : MultipartCompletionRow :=
      ⟨c.authority.workerID, c.authority.sessionID, r.requestID, c, none⟩
    pure ({ s with
      multipartCompletions := AList.insert c.uploadID row s.multipartCompletions }, row)

/-- The completion row with its stored version. -/
def Store.setVersion (s : Store) (upload : Uuid) (version : String) : Store :=
  { s with
    multipartCompletions := s.multipartCompletions.modify upload
      ({ · with objectVersion := some version }) }

/-- Bind the stored version, if one is given, once. -/
def storeVersion (s : Store) (now : Time) (c : MultipartClaims) (m : MultipartRow)
    (saved version : Option String) : Except StoreError Store :=
  match version, saved with
  | none, _ => pure s
  | some v, some old => do
    require (old = v) .conflict
    pure s
  | some v, none =>
    (s.setVersion c.uploadID v).appendEvent now c.authority.jobID (some c.authority.attemptID)
      (.multipartStored c.uploadID m.initializationID)

/-- **One of the two transactions of a multipart completion**: the first has
no version and commits the intent, the second has the version the object store
answered. -/
def multipartCompletionTx (s seen : Store) (now : Time) (id : WorkerIdentity)
    (r : MultipartCompletionRequest) (version : Option String) :
    Except StoreError (Store × MultipartCompletionResult) := do
  require (canonicalUUID id.workerID ∧ canonicalUUID id.credentialID) .unauthorized
  require (r.isValid id.workerID) .invalid
  require (∀ v ∈ version, validMultipartValue v = true ∧ v ≠ "null") .invalid
  let c := r.claims
  match ← ownedAttempt s seen id c.authority with
  | none => pure (s, ⟨.fenced, none, none, none⟩)
  | some a =>
    let j ← orThrow (s.jobs.lookup a.job) .database
    let (row, m, backend) ← loadMultipartUpload s c.authority c.uploadID
    require (row.claims.partCount = c.parts.length) .invalid
    require (∀ o ∈ c.object, o = ⟨row.key c.uploadID, "", row.claims.sizeBytes, row.claims.sha256⟩)
      .invalid
    require (∀ p ∈ c.parts, s.uploadParts.lookup (c.uploadID, p.number) = some p.sha256) .conflict
    let (claimed, saved) ← claimMultipartCompletion s r
    let decision := leaseDecision c.authority j.lease (some (a.lease c.authority.attemptID)) now
    if decision ≠ .accepted then pure (s, ⟨decision, some a.state, none, none⟩)
    else
      require (a.state = .finalizing) .conflict
      let stored ← storeVersion claimed now c m saved.objectVersion version
      pure (stored, ⟨.accepted, some a.state, saved.objectVersion <|> version,
        some ⟨c.uploadID, row, some m.initializationID, some backend⟩⟩)

theorem multipartCompletionTx_gated {r : MultipartCompletionRequest} {version : Option String}
    {result : MultipartCompletionResult}
    (h : multipartCompletionTx s seen now id r version = .ok (s', result)) :
    s' = s ∧ result.decision ≠ .accepted ∨ Authorized s now r.claims.authority := by
  simp only [multipartCompletionTx, bind_ok] at h
  obtain ⟨_, -, _, -, _, -, owned, howned, h⟩ := h
  cases owned with
  | none =>
    obtain ⟨rfl, rfl⟩ := pure_pair_ok.mp h
    exact .inl ⟨rfl, by simp⟩
  | some a =>
    obtain ⟨ha, -⟩ := ownedAttempt_eq_some howned
    simp only [bind_ok, orThrow_ok] at h
    obtain ⟨j, hj, ⟨row, m, backend⟩, -, _, -, _, -, _, -, ⟨claimed, saved⟩, -, h⟩ := h
    split at h
    · rename_i hdecision
      obtain ⟨rfl, rfl⟩ := pure_pair_ok.mp h
      exact .inl ⟨rfl, hdecision⟩
    · rename_i hdecision
      exact .inr ⟨a, j, ha, hj, not_not.mp hdecision⟩

/-! ## Verified artifacts -/

/-- A request to verify an uploaded object. -/
structure FinalizeUploadRequest where
  requestID : Uuid
  claims : FinalizeClaims
  deriving DecidableEq, Repr

/-- A verified artifact, as its worker is told of it. -/
structure ArtifactRecord where
  artifactID : Uuid
  uploadID : Uuid
  object : ArtifactObject
  verifiedAt : Time
  deriving DecidableEq, Repr

/-- What a request to verify is answered. -/
structure FinalizeUploadResult where
  decision : Decision
  state : Option AttemptState
  artifact : Option ArtifactRecord
  deriving DecidableEq, Repr

/-- The request is well formed, of this worker and about a version of an object. -/
def FinalizeUploadRequest.isValid (r : FinalizeUploadRequest) (worker : Uuid) : Bool :=
  let o := r.claims.object
  canonicalUUID r.requestID && canonicalUUID r.claims.uploadID &&
    validAuthority r.claims.authority worker && validObjectKey o.key &&
    validMultipartValue o.version && decide (o.version ≠ "null") && decide (0 ≤ o.sizeBytes) &&
    decide (o.sizeBytes ≤ maxUploadBytes) && hashPattern o.sha256

/-- The finalization a request of a session made. -/
def readFinalization (s : Store) (worker session request : Uuid) :
    Option (Uuid × FinalizationRow) :=
  (s.finalizations.select (fun _ f => decide (f.worker = worker) && decide (f.session = session) &&
    decide (f.request = request))).head?

/-- Claim a finalization: insert it, or find the one the request made. -/
def claimFinalization (s : Store) (fresh : Uuid) (r : FinalizeUploadRequest) :
    Except StoreError (Store × Uuid × Bool) :=
  let c := r.claims
  match readFinalization s c.authority.workerID c.authority.sessionID r.requestID with
  | some (saved, row) => do
    require (row.requestHash = c) .conflict
    pure (s, saved, false)
  | none => do
    let rows ← orThrow (s.finalizations.insertNew fresh ⟨c.uploadID, c.authority.workerID,
      c.authority.sessionID, r.requestID, c, c.object.version⟩) .database
    pure ({ s with finalizations := rows }, fresh, true)

/-- The finalizations of the uploads of an attempt. -/
def attemptFinalizations (s : Store) (attempt : Uuid) : List (Uuid × FinalizationRow) :=
  s.finalizations.select (fun _ f => match s.uploads.lookup f.upload with
    | some u => decide (u.claims.authority.attemptID = attempt)
    | none => false)

/-- The verified artifact of an upload. -/
def uploadArtifact (s : Store) (upload : Uuid) : Option (Uuid × ArtifactRow) :=
  (s.artifacts.select (fun _ a => decide (a.upload = upload))).head?

/-- The artifact of an upload: the one verified before, which must be the same
version, or after a verification a new one. -/
def publishArtifact (s : Store) (now : Time) (c : FinalizeClaims) (finalization artifact : Uuid)
    (verified : Bool) : Except StoreError (Store × Option ArtifactRecord) :=
  match uploadArtifact s c.uploadID with
  | some (saved, row) => do
    require (row.objectVersion = c.object.version) .conflict
    pure (s, some ⟨saved, c.uploadID, c.object, row.verifiedAt⟩)
  | none =>
    if verified then do
      let artifacts ← orThrow (s.artifacts.insertNew artifact
        ⟨c.uploadID, finalization, c.object.version, now⟩) .database
      let logged ← Store.appendEvent { s with artifacts := artifacts } now c.authority.jobID
        (some c.authority.attemptID)
        (.artifactVerified artifact c.uploadID c.object.sizeBytes c.object.sha256)
      pure (logged, some ⟨artifact, c.uploadID, c.object, now⟩)
    else pure (s, none)

/-- **One of the two transactions of a finalization**: the first commits the
claim, the second, after the object store confirmed the bytes, the artifact. -/
def finalizeUploadTx (s seen : Store) (now : Time) (id : WorkerIdentity)
    (r : FinalizeUploadRequest) (verified : Bool) (finalization artifact : Uuid) :
    Except StoreError (Store × FinalizeUploadResult) := do
  require (canonicalUUID id.workerID ∧ canonicalUUID id.credentialID) .unauthorized
  require (r.isValid id.workerID) .invalid
  let c := r.claims
  match ← ownedAttempt s seen id c.authority with
  | none => pure (s, ⟨.fenced, none, none⟩)
  | some a =>
    let j ← orThrow (s.jobs.lookup a.job) .database
    let row ← orThrow (s.uploads.lookup c.uploadID) .notFound
    require (row.claims.authority = c.authority) .notFound
    require (c.object = ⟨row.key c.uploadID, c.object.version, row.claims.sizeBytes,
      row.claims.sha256⟩) .invalid
    require (1 < row.claims.partCount → ∃ m ∈ s.multipartCompletions.lookup c.uploadID,
      m.objectVersion = some c.object.version) .conflict
    let (claimed, saved, inserted) ← claimFinalization s finalization r
    let decision := leaseDecision c.authority j.lease (some (a.lease c.authority.attemptID)) now
    if decision ≠ .accepted then pure (s, ⟨decision, some a.state, none⟩)
    else
      require (a.state.finalizes row.claims.kind) .conflict
      require (inserted → (attemptFinalizations claimed c.authority.attemptID).length ≤
        maxAttemptFinalizations) .uploadLimit
      let (published, record) ← publishArtifact claimed now c saved artifact verified
      pure (published, ⟨.accepted, some a.state, record⟩)

theorem finalizeUploadTx_gated {r : FinalizeUploadRequest} {verified : Bool}
    {finalization artifact : Uuid} {result : FinalizeUploadResult}
    (h : finalizeUploadTx s seen now id r verified finalization artifact = .ok (s', result)) :
    s' = s ∧ result.decision ≠ .accepted ∨ Authorized s now r.claims.authority := by
  simp only [finalizeUploadTx, bind_ok] at h
  obtain ⟨_, -, _, -, owned, howned, h⟩ := h
  cases owned with
  | none =>
    obtain ⟨rfl, rfl⟩ := pure_pair_ok.mp h
    exact .inl ⟨rfl, by simp⟩
  | some a =>
    obtain ⟨ha, -⟩ := ownedAttempt_eq_some howned
    simp only [bind_ok, orThrow_ok] at h
    obtain ⟨j, hj, row, -, _, -, _, -, _, -, ⟨claimed, saved, inserted⟩, -, h⟩ := h
    split at h
    · rename_i hdecision
      obtain ⟨rfl, rfl⟩ := pure_pair_ok.mp h
      exact .inl ⟨rfl, hdecision⟩
    · rename_i hdecision
      exact .inr ⟨a, j, ha, hj, not_not.mp hdecision⟩

/-! ## Log segments -/

/-- A request to register a log segment. -/
structure LogSegmentRequest where
  requestID : Uuid
  claims : LogSegmentClaims
  deriving DecidableEq, Repr

/-- The gaps are increasing, disjoint and inside the segment. -/
def validGaps (first last : ℕ) (previous : ℕ) : List LogSequenceGap → Bool
  | [] => true
  | g :: rest =>
    decide (first ≤ g.firstSequence) && decide (g.lastSequence ≤ last) &&
      decide (g.firstSequence ≤ g.lastSequence) && decide (previous < g.firstSequence) &&
      validGaps first last g.lastSequence rest

/-- How many records of a segment were dropped. -/
def droppedRecords (gaps : List LogSequenceGap) : ℕ :=
  (gaps.map (fun g => g.lastSequence - g.firstSequence + 1)).sum

/-- `LogSegmentRequest.normalized`: a segment holds at least one record. -/
def LogSegmentRequest.isValid (r : LogSegmentRequest) (worker : Uuid) : Bool :=
  let c := r.claims
  canonicalUUID r.requestID && canonicalUUID c.artifactID && validAuthority c.authority worker &&
    decide (1 ≤ c.firstSequence) && decide (c.firstSequence ≤ c.lastSequence) &&
    decide (c.lastSequence < 2 ^ 63) && decide (c.gaps.length ≤ maxLogSegmentGaps) &&
    validGaps c.firstSequence c.lastSequence 0 c.gaps &&
    decide (droppedRecords c.gaps < c.lastSequence - c.firstSequence + 1)

/-- The registered segments of a stream of an attempt. -/
def streamSegments (s : Store) (attempt : Uuid) (stream : Stream) : List (Uuid × LogSegmentRow) :=
  s.logSegments.select (fun _ l => decide (l.claims.authority.attemptID = attempt) &&
    decide (l.claims.stream = stream))

/-- The sequence number after the last one registered. -/
def nextSequence (s : Store) (attempt : Uuid) (stream : Stream) : ℕ :=
  ((streamSegments s attempt stream).map (fun x => x.2.claims.lastSequence)).foldr max 0 + 1

/-- The upload of a verified log artifact of the authority's stream. -/
def logUpload (s : Store) (c : LogSegmentClaims) : Option (Uuid × UploadRow) := do
  let a ← s.artifacts.lookup c.artifactID
  let u ← s.uploads.lookup a.upload
  if u.claims.authority = c.authority ∧ u.claims.kind = .log ∧
      u.claims.logicalName = c.stream.logName then some (a.upload, u) else none

/-- What the upload of a log artifact is. -/
theorem logUpload_eq_some {c : LogSegmentClaims} {upload : Uuid} {u : UploadRow}
    (h : logUpload s c = some (upload, u)) :
    ∃ a, s.artifacts.lookup c.artifactID = some a ∧ a.upload = upload ∧
      s.uploads.lookup upload = some u ∧ u.claims.authority = c.authority ∧ u.claims.kind = .log ∧
      u.claims.logicalName = c.stream.logName := by
  simp only [logUpload, Option.bind_eq_bind, Option.bind_eq_some_iff] at h
  obtain ⟨a, ha, row, hrow, h⟩ := h
  split_ifs at h with hlog
  · obtain ⟨rfl, rfl⟩ := Prod.mk.inj (Option.some.inj h)
    exact ⟨a, ha, rfl, hrow, hlog⟩

/-- **The registration of a log segment.** -/
def registerLogSegment (s seen : Store) (now : Time) (id : WorkerIdentity) (r : LogSegmentRequest)
    (fresh : Uuid) : Except StoreError (Store × MutationResult) := do
  require (canonicalUUID id.workerID ∧ canonicalUUID id.credentialID) .unauthorized
  require (r.isValid id.workerID) .invalid
  let c := r.claims
  match ← ownedAttempt s seen id c.authority with
  | none => pure (s, ⟨.fenced, none⟩)
  | some a =>
    match s.logSegments.select (fun _ l => decide (l.claims.authority.workerID = id.workerID) &&
        decide (l.claims.authority.sessionID = c.authority.sessionID) &&
        decide (l.request = r.requestID)) with
    | (_, saved) :: _ =>
      require (saved.claims = c) .conflict
      pure (s, ⟨.accepted, some a.state⟩)
    | [] =>
      let j ← orThrow (s.jobs.lookup a.job) .database
      let decision := leaseDecision c.authority j.lease (some (a.lease c.authority.attemptID)) now
      if decision ≠ .accepted then pure (s, ⟨decision, some a.state⟩)
      else
        require a.state.acceptsLogs .conflict
        let (upload, u) ← orThrow (logUpload s c) .notFound
        require (1 ≤ u.claims.sizeBytes ∧ u.claims.sizeBytes ≤ maxLogSegmentBytes) .invalid
        require (∀ e ∈ s.logSegments.entries, e.2.claims.artifactID ≠ c.artifactID) .conflict
        require (c.firstSequence = nextSequence s c.authority.attemptID c.stream) .conflict
        let segments ←
          orThrow (s.logSegments.insertNew fresh ⟨r.requestID, upload, c, now⟩) .database
        pure ({ s with logSegments := segments }, ⟨.accepted, some a.state⟩)

/-- **What a registration does**: it inserts the segment while the gate is
open, repeats the answer of the registration that did, or is turned away. -/
theorem registerLogSegment_cases {r : LogSegmentRequest} {fresh : Uuid} {result : MutationResult}
    (h : registerLogSegment s seen now id r fresh = .ok (s', result)) :
    (Authorized s now r.claims.authority ∧ s.logSegments.lookup fresh = none ∧
        (∀ id l, s.logSegments.lookup id = some l → l.claims.artifactID ≠ r.claims.artifactID) ∧
        r.claims.firstSequence =
          nextSequence s r.claims.authority.attemptID r.claims.stream ∧
        ∃ upload u, logUpload s r.claims = some (upload, u) ∧ s' = { s with
          logSegments := AList.insert fresh ⟨r.requestID, upload, r.claims, now⟩ s.logSegments }) ∨
      (s' = s ∧ ∃ segment saved, s.logSegments.lookup segment = some saved ∧
        saved.request = r.requestID ∧ saved.claims = r.claims) ∨
      (s' = s ∧ result.decision ≠ .accepted) := by
  simp only [registerLogSegment, bind_ok] at h
  obtain ⟨_, -, _, -, owned, howned, h⟩ := h
  cases owned with
  | none =>
    obtain ⟨rfl, rfl⟩ := pure_pair_ok.mp h
    exact .inr (.inr ⟨rfl, by simp⟩)
  | some a =>
    obtain ⟨ha, -⟩ := ownedAttempt_eq_some howned
    simp only at h
    split at h
    · rename_i segment saved rest hselect
      simp only [bind_ok, require_ok, pure_pair_ok] at h
      obtain ⟨_, hclaims, rfl, -⟩ := h
      have hmem : (segment, saved) ∈ s.logSegments.select _ := hselect ▸ List.mem_cons_self
      obtain ⟨hrow, hmatch⟩ := (Table.mem_select ..).mp hmem
      simp only [Bool.and_eq_true, decide_eq_true_eq] at hmatch
      exact .inr (.inl ⟨rfl, segment, saved, hrow, hmatch.2, hclaims⟩)
    · simp only [bind_ok, orThrow_ok] at h
      obtain ⟨j, hj, h⟩ := h
      split at h
      · rename_i hdecision
        obtain ⟨rfl, rfl⟩ := pure_pair_ok.mp h
        exact .inr (.inr ⟨rfl, hdecision⟩)
      · rename_i hdecision
        simp only [bind_ok, orThrow_ok, require_ok, pure_pair_ok] at h
        obtain ⟨_, -, ⟨upload, u⟩, hupload, _, -, _, hfirst, _, hnext, segments, hsegments,
          rfl, -⟩ := h
        obtain ⟨hfree, rfl⟩ := Table.insertNew_eq_some hsegments
        exact .inl ⟨⟨a, j, ha, hj, not_not.mp hdecision⟩, hfree,
          fun id l hl => hfirst ⟨id, l⟩ (AList.mem_lookup_iff.mp hl), hnext, upload, u,
          hupload, rfl⟩

end Dispatch
