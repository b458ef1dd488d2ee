import Dispatch.Store.Tables

/-!
# Entries in the files of an attempt

Seven tables keep what an attempt uploads: declarations, multipart identities,
part hashes, multipart completions, finalizations, verified artifacts and
catalogued log segments. `Files` keeps those tables, and `Files.Step` says what
can happen to them, entry by entry and with the checks that were passed.

A transaction that makes an entry has found its attempt active under the full
authority tuple of the request, and the entry belongs to an upload of that same
authority. `Op.exec_entries` says once what such a transaction does to the
store: entries in the files, and events of its own job that move no job. What
it writes, whom it spares and what ownership notices of it are read off the
entries.
-/

namespace Dispatch

open Txn

variable {upload worker : Uuid} {u : UploadRow} {seen : Store} {id : WorkerIdentity}
  {inserted : Bool} {sha : Uuid → ℕ}

/-! ## The tables -/

/-- **The tables of uploads, artifacts and log segments.** -/
structure Files where
  uploads : Table Uuid UploadRow
  multipart : Table Uuid MultipartRow
  uploadParts : Table (Uuid × ℕ) String
  multipartCompletions : Table Uuid MultipartCompletionRow
  finalizations : Table Uuid FinalizationRow
  artifacts : Table Uuid ArtifactRow
  logSegments : Table Uuid LogSegmentRow

/-- **The files of a store.** -/
def Store.files (s : Store) : Files where
  uploads := s.uploads
  multipart := s.multipart
  uploadParts := s.uploadParts
  multipartCompletions := s.multipartCompletions
  finalizations := s.finalizations
  artifacts := s.artifacts
  logSegments := s.logSegments

theorem Writes.files {ts : List TableName} {s s' : Store} (h : Writes ts s s')
    (hts : ∀ t ∈ [TableName.uploads, .multipart, .uploadParts, .multipartCompletions,
      .finalizations, .artifacts, .logSegments], t ∉ ts) : s'.files = s.files := by
  have hsame : ∀ t ∈ [TableName.uploads, .multipart, .uploadParts, .multipartCompletions,
      .finalizations, .artifacts, .logSegments], s'.contents t = s.contents t :=
    fun t ht => h t (hts t ht)
  simp only [List.forall_mem_cons, Store.contents] at hsame
  obtain ⟨huploads, hmultipart, hparts, hcompletions, hfinalizations, hartifacts, hsegments, -⟩ :=
    hsame
  simp only [Store.files, Files.mk.injEq]
  exact ⟨huploads, hmultipart, hparts, hcompletions, hfinalizations, hartifacts, hsegments⟩

/-- The uploads of an attempt. -/
def Files.uploadsOf (f : Files) (attempt : Uuid) : List (Uuid × UploadRow) :=
  f.uploads.select (fun _ u => decide (u.claims.authority.attemptID = attempt))

/-- The finalizations of the uploads of an attempt. -/
def Files.finalizationsOf (f : Files) (attempt : Uuid) : List (Uuid × FinalizationRow) :=
  f.finalizations.select (fun _ x => match f.uploads.lookup x.upload with
    | some u => decide (u.claims.authority.attemptID = attempt)
    | none => false)

/-- The segments of a stream of an attempt. -/
def Files.segmentsOf (f : Files) (attempt : Uuid) (stream : Stream) :
    List (Uuid × LogSegmentRow) :=
  f.logSegments.select (fun _ l => decide (l.claims.authority.attemptID = attempt) &&
    decide (l.claims.stream = stream))

/-- The sequence number after the last one registered. -/
def Files.next (f : Files) (attempt : Uuid) (stream : Stream) : ℕ :=
  ((f.segmentsOf attempt stream).map (fun x => x.2.claims.lastSequence)).foldr max 0 + 1

/-- **The upload is one of the authority.** -/
def Files.Owns (f : Files) (authority : AttemptAuthority) (upload : Uuid) : Prop :=
  ∃ u, f.uploads.lookup upload = some u ∧ u.claims.authority = authority

/-- **The uploads of an attempt are within its limits.** -/
def Files.Within (f : Files) (attempt : Uuid) : Prop :=
  (f.uploadsOf attempt).length ≤ maxAttemptUploadCount ∧
    ((f.uploadsOf attempt).map (fun x => x.2.claims.sizeBytes)).sum ≤ maxAttemptUploadBytes

theorem Files.Within.of_uploads {f f' : Files} {attempt : Uuid} (h : f.Within attempt)
    (hsame : f'.uploads = f.uploads) : f'.Within attempt := by
  unfold Files.Within Files.uploadsOf
  rw [hsame]
  exact h

/-! ## The steps -/

/-- **What a segment has passed**: the artifact it catalogues is a verified log
of the same authority and stream, and it begins where the stream ends. -/
structure Files.Registers (f : Files) (authority : AttemptAuthority) (l : LogSegmentRow) :
    Prop where
  mine : l.claims.authority = authority
  valid : 1 ≤ l.claims.firstSequence ∧ l.claims.firstSequence ≤ l.claims.lastSequence ∧
    validGaps l.claims.firstSequence l.claims.lastSequence 0 l.claims.gaps = true
  artifact : ∃ a u, f.artifacts.lookup l.claims.artifactID = some a ∧ a.upload = l.upload ∧
    f.uploads.lookup l.upload = some u ∧ u.claims.authority = authority ∧ u.claims.kind = .log ∧
    u.claims.logicalName = l.claims.stream.logName
  unclaimed : ∀ id l', f.logSegments.lookup id = some l' →
    l'.claims.artifactID ≠ l.claims.artifactID
  follows : l.claims.firstSequence = f.next authority.attemptID l.claims.stream
  bounded : l.claims.lastSequence < 2 ^ 63

/-- **What can happen to the files** in a transaction of an authority. -/
inductive Files.Step (op : Op) (authority : AttemptAuthority) : Files → Files → Prop where
  | declare (f : Files) (upload : Uuid) (u : UploadRow) (hfree : f.uploads.lookup upload = none)
      (hmine : u.claims.authority = authority)
      (hwithin : { f with uploads := AList.insert upload u f.uploads }.Within authority.attemptID) :
      Step op authority f { f with uploads := AList.insert upload u f.uploads }
  | identify (f : Files) (upload initialization : Uuid) (hmine : f.Owns authority upload)
      (hfree : f.multipart.lookup upload = none) :
      Step op authority f
        { f with multipart := AList.insert upload ⟨initialization, none⟩ f.multipart }
  | bind (f : Files) (upload : Uuid) (m : MultipartRow) (backend : String)
      (hmine : f.Owns authority upload) (hm : f.multipart.lookup upload = some m)
      (hunbound : m.backendUploadID = none) :
      Step op authority f { f with
        multipart := f.multipart.modify upload ({ · with backendUploadID := some backend }) }
  | part (f : Files) (upload : Uuid) (number : ℕ) (sha256 : String)
      (hmine : f.Owns authority upload)
      (hsame : ∀ saved ∈ f.uploadParts.lookup (upload, number), saved = sha256) :
      Step op authority f
        { f with uploadParts := AList.insert (upload, number) sha256 f.uploadParts }
  | intend (f : Files) (upload : Uuid) (row : MultipartCompletionRow)
      (hmine : f.Owns authority upload) (hfree : f.multipartCompletions.lookup upload = none)
      (hunstored : row.objectVersion = none) :
      Step op authority f
        { f with multipartCompletions := AList.insert upload row f.multipartCompletions }
  | store (f : Files) (upload : Uuid) (row : MultipartCompletionRow) (version : String)
      (hmine : f.Owns authority upload) (hrow : f.multipartCompletions.lookup upload = some row)
      (hunstored : row.objectVersion = none) :
      Step op authority f { f with
        multipartCompletions := f.multipartCompletions.modify upload
          ({ · with objectVersion := some version }) }
  | claim (f : Files) (id : Uuid) (row : FinalizationRow) (hmine : f.Owns authority row.upload)
      (hfree : f.finalizations.lookup id = none)
      (hwithin : ({ f with
        finalizations := AList.insert id row f.finalizations }.finalizationsOf
          authority.attemptID).length ≤ maxAttemptFinalizations) :
      Step op authority f { f with finalizations := AList.insert id row f.finalizations }
  /-- The object store has confirmed the bytes of the version. -/
  | verify (f : Files) (artifact : Uuid) (row : ArtifactRow) (u : UploadRow)
      (hu : f.uploads.lookup row.upload = some u) (hmine : u.claims.authority = authority)
      (hfree : f.artifacts.lookup artifact = none)
      (hfirst : ∀ id a, f.artifacts.lookup id = some a → a.upload ≠ row.upload)
      (hop : ∃ seen identity r finalization, op = .finalizeUpload seen identity r true finalization
        artifact ∧ r.claims.object
          = ⟨u.key row.upload, row.objectVersion, u.claims.sizeBytes, u.claims.sha256⟩)
      (hstored : 1 < u.claims.partCount → ∃ m, f.multipartCompletions.lookup row.upload = some m ∧
        m.objectVersion = some row.objectVersion) :
      Step op authority f { f with artifacts := AList.insert artifact row f.artifacts }
  | register (f : Files) (id : Uuid) (l : LogSegmentRow) (hfree : f.logSegments.lookup id = none)
      (h : f.Registers authority l) :
      Step op authority f { f with logSegments := AList.insert id l f.logSegments }

/-- Some entries of one transaction. -/
abbrev Files.Steps (op : Op) (authority : AttemptAuthority) : Files → Files → Prop :=
  Relation.ReflTransGen (Files.Step op authority)

/-! ## Entries -/

/-- The store with other files. -/
def Store.withFiles (s : Store) (f : Files) : Store :=
  { s with
    uploads := f.uploads
    multipart := f.multipart
    uploadParts := f.uploadParts
    multipartCompletions := f.multipartCompletions
    finalizations := f.finalizations
    artifacts := f.artifacts
    logSegments := f.logSegments }

/-- **One entry of a transaction** that may write the tables named: a step of the
files, or an event of the job of the authority that moves no job. -/
inductive Entry (ts : List TableName) (op : Op) (authority : AttemptAuthority) :
    Store → Store → Prop where
  | file {s s' : Store} (h : Files.Step op authority s.files s'.files)
      (hs : s' = s.withFiles s'.files) (hwrites : Writes ts s s') : Entry ts op authority s s'
  | event {s s' : Store} {now : Time} {attempt : Option Uuid} {body : EventBody}
      (h : s.appendEvent now authority.jobID attempt body = .ok s')
      (hquiet : ∀ state, body.next state = some state)
      (hts : [TableName.jobs, .events] ⊆ ts) : Entry ts op authority s s'

/-- The entries of one transaction. -/
abbrev Entries (ts : List TableName) (op : Op) (authority : AttemptAuthority) :
    Store → Store → Prop :=
  Relation.ReflTransGen (Entry ts op authority)

section

variable {op : Op} {s s' : Store} {now : Time} {ts : List TableName} {authority : AttemptAuthority}

/-- An event is no entry in the files. -/
theorem appendEvent_files {job : Uuid} {attempt : Option Uuid} {body : EventBody}
    (h : s.appendEvent now job attempt body = .ok s') : s'.files = s.files :=
  (appendEvent_writes h).files (by decide)

theorem Entries.files (h : Entries ts op authority s s') :
    Files.Steps op authority s.files s'.files := by
  induction h with
  | refl => exact .refl
  | tail _ hentry ih =>
    cases hentry with
    | file h => exact ih.tail h
    | event h => exact appendEvent_files h ▸ ih

theorem Entries.writes (h : Entries ts op authority s s') : Writes ts s s' := by
  induction h with
  | refl => exact .refl ts s
  | tail _ hentry ih =>
    cases hentry with
    | file _ _ hwrites => exact ih.trans hwrites
    | event h _ hts => exact ih.trans ((appendEvent_writes h).mono hts)

end

/-! ## Declarations -/

variable {op : Op} {s s' : Store} {now : Time}

theorem setUploads_writes (uploads : Table Uuid UploadRow) (multipart : Table Uuid MultipartRow) :
    Writes uploadTables s { s with uploads := uploads, multipart := multipart } := by
  rintro (_ | _) ht <;> first | rfl | exact absurd (by decide) ht

theorem readUpload_eq_some {session request : Uuid}
    (h : readUpload s worker session request = some (upload, u)) : s.uploads.lookup upload = some u
    := by
  have hmem := List.mem_of_mem_head? (Option.mem_def.mpr h)
  exact ((Table.mem_select _ _ _ _).mp hmem).1

/-- **What a claim finds**: the declaration of the request, or its place. -/
theorem claimUpload_cases {project saved : Uuid} {r : UploadRequest}
    (h : claimUpload s now project upload r = .ok (s', saved, u, inserted)) :
    u.claims = r.claims ∧ s'.uploads.lookup saved = some u ∧
      (inserted = false ∧ s' = s ∨ inserted = true ∧ saved = upload ∧
        s.uploads.lookup upload = none ∧
        s' = { s with uploads := AList.insert upload u s.uploads }) := by
  unfold claimUpload at h
  split at h
  · rename_i hread
    simp only [bind_ok, require_ok, pure_pair_ok] at h
    obtain ⟨_, hclaims, _, -, rfl, rfl, rfl, rfl⟩ := h
    exact ⟨hclaims, readUpload_eq_some hread, .inl ⟨rfl, rfl⟩⟩
  · simp only [bind_ok, orThrow_ok, pure_pair_ok] at h
    obtain ⟨uploads, huploads, rfl, rfl, rfl, rfl⟩ := h
    obtain ⟨hfree, rfl⟩ := Table.insertNew_eq_some huploads
    exact ⟨rfl, AList.lookup_insert _, .inr ⟨rfl, rfl, hfree, rfl⟩⟩

/-- The multipart identity of an upload, and the entry that made it. -/
theorem claimMultipart_entries (op : Op) {authority : AttemptAuthority} (initialization : Uuid)
    (hu : s.uploads.lookup upload = some u) (hmine : u.claims.authority = authority) :
    Entries uploadTables op authority s (claimMultipart s initialization upload u).1 ∧
      (claimMultipart s initialization upload u).1.uploads = s.uploads ∧
      ∀ m ∈ (claimMultipart s initialization upload u).2,
        (claimMultipart s initialization upload u).1.multipart.lookup upload = some m := by
  unfold claimMultipart
  split_ifs
  · exact ⟨.refl, rfl, fun _ hm => absurd hm (by simp)⟩
  · split
    · rename_i m hm
      exact ⟨.refl, rfl, fun m' hm' => Option.some.inj hm' ▸ hm⟩
    · rename_i hfree
      refine ⟨.single (.file (.identify s.files upload initialization ⟨u, hu, hmine⟩ hfree) rfl
        (setUploads_writes s.uploads _)), rfl, ?_⟩
      exact fun m hm => Option.some.inj hm ▸ AList.lookup_insert _

theorem admitUpload_entries (op : Op) (h : admitUpload s now upload u inserted = .ok s') :
    Entries uploadTables op u.claims.authority s s' ∧ s'.files = s.files ∧
      (inserted = true → s.files.Within u.claims.authority.attemptID) := by
  unfold admitUpload at h
  split_ifs at h with hinserted
  · simp only [bind_ok, require_ok] at h
    obtain ⟨_, hwithin, h⟩ := h
    exact ⟨.single (.event h (fun _ => rfl) (by decide)), appendEvent_files h, fun _ => hwithin⟩
  · obtain rfl := pure_ok.mp h
    exact ⟨.refl, rfl, fun hnot => absurd hnot hinserted⟩

theorem bindBackend_entries {authority : AttemptAuthority} {multipart : Option MultipartRow}
    {backend : Option String} (h : bindBackend s now upload authority multipart backend = .ok s')
    (howns : s.files.Owns authority upload)
    (hm : ∀ m ∈ multipart, s.multipart.lookup upload = some m) :
    Entries uploadTables op authority s s' := by
  unfold bindBackend at h
  split at h
  · rename_i m b
    split at h
    · simp only [bind_ok, pure_ok] at h
      obtain ⟨-, -, rfl⟩ := h
      exact .refl
    · rename_i hunbound
      exact .tail (.single (.file (.bind s.files upload m b howns (hm m rfl) hunbound) rfl
        (setUploads_writes s.uploads _))) (.event h (fun _ => rfl) (by decide))
  · obtain rfl := pure_ok.mp h
    exact .refl

/-- **What lets a request make entries**: it comes from the worker of its
authority, and the gate is open. -/
structure Granted (s : Store) (now : Time) (worker : Uuid) (authority : AttemptAuthority) :
    Prop where
  mine : authority.workerID = worker
  gate : Authorized s now authority

theorem validAuthority_worker {a : AttemptAuthority} (h : validAuthority a worker = true) :
    a.workerID = worker := by
  simp only [validAuthority, Bool.and_eq_true, decide_eq_true_eq] at h
  exact h.1.2

theorem createUpload_entries {r : UploadRequest} {backend : Option String} {initialization : Uuid}
    {result : UploadResult}
    (h : createUpload s seen now id r backend upload initialization = .ok (s', result)) :
    s' = s ∨ Granted s now id.workerID r.claims.authority ∧
      Entries uploadTables op r.claims.authority s s' := by
  simp only [createUpload, bind_ok] at h
  obtain ⟨_, -, _, hvalid, owned, howned, h⟩ := h
  simp only [require_ok, UploadRequest.isValid, Bool.and_eq_true] at hvalid
  have hmine := validAuthority_worker hvalid.1.1.1.2
  cases owned with
  | none =>
    obtain ⟨rfl, -⟩ := pure_pair_ok.mp h
    exact .inl rfl
  | some a =>
    obtain ⟨ha, -⟩ := ownedAttempt_eq_some howned
    simp only [bind_ok, orThrow_ok] at h
    obtain ⟨j, hj, _, -, ⟨claimed, saved, u, inserted⟩, hclaim, h⟩ := h
    split_ifs at h with hdecision
    · obtain ⟨rfl, -⟩ := pure_pair_ok.mp h
      exact .inl rfl
    · simp only [bind_ok] at h
      obtain ⟨_, -, admitted, hadmit, bound, hbind, h⟩ := h
      obtain ⟨rfl, -⟩ := pure_pair_ok.mp h
      refine .inr ⟨⟨hmine, a, j, ha, hj, not_not.mp hdecision⟩, ?_⟩
      obtain ⟨hclaims, hu, hcases⟩ := claimUpload_cases hclaim
      have hauthority : u.claims.authority = r.claims.authority := by rw [hclaims]
      obtain ⟨hidentified, huploads, hmultipart⟩ :=
        claimMultipart_entries op initialization hu hauthority
      obtain ⟨hlogged, hadmitted, hwithin⟩ := admitUpload_entries op hadmit
      rw [hauthority] at hlogged hwithin
      have hdeclared : Entries uploadTables op r.claims.authority s claimed := by
        obtain ⟨-, rfl⟩ | ⟨hinserted, rfl, hfree, rfl⟩ := hcases
        · exact .refl
        · exact .single (.file (.declare s.files saved u hfree hauthority
            ((hwithin hinserted).of_uploads huploads.symm)) rfl (setUploads_writes _ s.multipart))
      refine hdeclared.trans (hidentified.trans (hlogged.trans ?_))
      refine bindBackend_entries hbind ?_ fun m hm => ?_
      · rw [hadmitted]
        exact ⟨u, (congrArg (AList.lookup saved) huploads).trans hu, hauthority⟩
      · exact (congrArg (fun f => AList.lookup saved (Files.multipart f)) hadmitted).trans
          (hmultipart m hm)

/-! ## Parts and multipart completions -/

theorem loadMultipartUpload_eq_ok {authority : AttemptAuthority} {m : MultipartRow}
    {backend : String} (h : loadMultipartUpload s authority upload = .ok (u, m, backend)) :
    s.uploads.lookup upload = some u ∧ u.claims.authority = authority := by
  simp only [loadMultipartUpload, bind_ok, orThrow_ok, require_ok, pure_pair_ok] at h
  obtain ⟨_, hu, _, -, _, ⟨hmine, -⟩, _, -, _, -, rfl, -⟩ := h
  exact ⟨hu, hmine⟩

theorem prepareMultipartPart_entries {r : MultipartPartRequest} {result : UploadResult}
    (h : prepareMultipartPart s seen now id r = .ok (s', result)) :
    s' = s ∨ Granted s now id.workerID r.authority ∧
      Entries [.uploadParts] op r.authority s s' := by
  simp only [prepareMultipartPart, bind_ok] at h
  obtain ⟨_, -, _, hvalid, owned, howned, h⟩ := h
  have hmine := validAuthority_worker (require_ok.mp hvalid).2.1
  cases owned with
  | none =>
    obtain ⟨rfl, -⟩ := pure_pair_ok.mp h
    exact .inl rfl
  | some a =>
    obtain ⟨ha, -⟩ := ownedAttempt_eq_some howned
    simp only [bind_ok, orThrow_ok, require_ok] at h
    obtain ⟨j, hj, ⟨u, m, backend⟩, hload, _, -, _, hsame, h⟩ := h
    split_ifs at h with hdecision
    · obtain ⟨rfl, -⟩ := pure_pair_ok.mp h
      exact .inl rfl
    · simp only [bind_ok] at h
      obtain ⟨_, -, _, -, h⟩ := h
      obtain ⟨rfl, -⟩ := pure_pair_ok.mp h
      obtain ⟨hu, howner⟩ := loadMultipartUpload_eq_ok hload
      refine .inr ⟨⟨hmine, a, j, ha, hj, not_not.mp hdecision⟩, .single (.file
        (.part s.files r.uploadID r.number r.sha256 ⟨u, hu, howner⟩ hsame) rfl ?_)⟩
      rintro (_ | _) ht <;> first | rfl | exact absurd (by decide) ht

theorem setCompletions_writes (rows : Table Uuid MultipartCompletionRow) :
    Writes multipartTables s { s with multipartCompletions := rows } := by
  rintro (_ | _) ht <;> first | rfl | exact absurd (by decide) ht

/-- The intent of a completion, and the entry that made it. -/
theorem claimMultipartCompletion_entries {r : MultipartCompletionRequest}
    {row : MultipartCompletionRow} (h : claimMultipartCompletion s r = .ok (s', row))
    (howns : s.files.Owns r.claims.authority r.claims.uploadID) :
    Entries multipartTables op r.claims.authority s s' ∧ s'.uploads = s.uploads ∧
      s'.multipartCompletions.lookup r.claims.uploadID = some row := by
  unfold claimMultipartCompletion at h
  simp only at h
  split at h
  · rename_i saved hsaved
    simp only [bind_ok, pure_pair_ok] at h
    obtain ⟨-, -, rfl, rfl⟩ := h
    exact ⟨.refl, rfl, hsaved⟩
  · rename_i hfree
    simp only [bind_ok, pure_pair_ok] at h
    obtain ⟨-, -, -, -, rfl, rfl⟩ := h
    exact ⟨.single (.file (.intend s.files r.claims.uploadID _ howns hfree rfl) rfl
      (setCompletions_writes _)), rfl, AList.lookup_insert _⟩

theorem storeVersion_entries {c : MultipartClaims} {m : MultipartRow} {row : MultipartCompletionRow}
    {version : Option String} (h : storeVersion s now c m row.objectVersion version = .ok s')
    (howns : s.files.Owns c.authority c.uploadID)
    (hrow : s.multipartCompletions.lookup c.uploadID = some row) :
    Entries multipartTables op c.authority s s' := by
  unfold storeVersion at h
  split at h
  · obtain rfl := pure_ok.mp h
    exact .refl
  · simp only [bind_ok, pure_ok] at h
    obtain ⟨-, -, rfl⟩ := h
    exact .refl
  · rename_i v hunstored
    exact .tail (.single (.file (.store s.files c.uploadID row v howns hrow hunstored) rfl
      (setCompletions_writes _))) (.event h (fun _ => rfl) (by decide))

theorem multipartCompletionTx_entries {r : MultipartCompletionRequest} {version : Option String}
    {result : MultipartCompletionResult}
    (h : multipartCompletionTx s seen now id r version = .ok (s', result)) :
    s' = s ∨ Granted s now id.workerID r.claims.authority ∧
      Entries multipartTables op r.claims.authority s s' := by
  simp only [multipartCompletionTx, bind_ok] at h
  obtain ⟨_, -, _, hvalid, _, -, owned, howned, h⟩ := h
  simp only [require_ok, MultipartCompletionRequest.isValid, Bool.and_eq_true] at hvalid
  have hmine := validAuthority_worker hvalid.1.1.1.1.1.2
  cases owned with
  | none =>
    obtain ⟨rfl, -⟩ := pure_pair_ok.mp h
    exact .inl rfl
  | some a =>
    obtain ⟨ha, -⟩ := ownedAttempt_eq_some howned
    simp only [bind_ok, orThrow_ok] at h
    obtain ⟨j, hj, ⟨u, m, backend⟩, hload, _, -, _, -, _, -, ⟨claimed, saved⟩, hclaim, h⟩ := h
    split_ifs at h with hdecision
    · obtain ⟨rfl, -⟩ := pure_pair_ok.mp h
      exact .inl rfl
    · simp only [bind_ok] at h
      obtain ⟨_, -, stored, hstore, h⟩ := h
      obtain ⟨rfl, -⟩ := pure_pair_ok.mp h
      obtain ⟨hu, howner⟩ := loadMultipartUpload_eq_ok hload
      obtain ⟨hintended, huploads, hrow⟩ :=
        claimMultipartCompletion_entries hclaim ⟨u, hu, howner⟩
      have howns : claimed.files.Owns r.claims.authority r.claims.uploadID :=
        ⟨u, (congrArg (AList.lookup r.claims.uploadID) huploads).trans hu, howner⟩
      exact .inr ⟨⟨hmine, a, j, ha, hj, not_not.mp hdecision⟩,
        hintended.trans (storeVersion_entries hstore howns hrow)⟩

/-! ## Finalizations and segments -/

theorem uploadArtifact_eq_none (h : uploadArtifact s upload = none) :
    ∀ id a, s.artifacts.lookup id = some a → a.upload ≠ upload := by
  intro id a ha hupload
  have hmem : (id, a) ∈ s.artifacts.select (fun _ a => decide (a.upload = upload)) :=
    (Table.mem_select ..).mpr ⟨ha, decide_eq_true hupload⟩
  rw [List.head?_eq_none_iff.mp h] at hmem
  exact List.not_mem_nil hmem

/-- The claim of a finalization, and the entry that made it. -/
theorem claimFinalization_cases {fresh saved : Uuid} {r : FinalizeUploadRequest}
    (h : claimFinalization s fresh r = .ok (s', saved, inserted)) :
    inserted = false ∧ s' = s ∨ inserted = true ∧ s.finalizations.lookup fresh = none ∧
      ∃ row : FinalizationRow, row.upload = r.claims.uploadID ∧
        s' = { s with finalizations := AList.insert fresh row s.finalizations } := by
  unfold claimFinalization at h
  simp only at h
  split at h
  · simp only [bind_ok, pure_pair_ok] at h
    obtain ⟨-, -, rfl, -, rfl⟩ := h
    exact .inl ⟨rfl, rfl⟩
  · simp only [bind_ok, orThrow_ok, pure_pair_ok] at h
    obtain ⟨rows, hrows, rfl, -, rfl⟩ := h
    obtain ⟨hfree, rfl⟩ := Table.insertNew_eq_some hrows
    exact .inr ⟨rfl, hfree, _, rfl, rfl⟩

theorem setArtifacts_writes (finalizations : Table Uuid FinalizationRow)
    (artifacts : Table Uuid ArtifactRow) :
    Writes finalizationTables s
      { s with finalizations := finalizations, artifacts := artifacts } := by
  rintro (_ | _) ht <;> first | rfl | exact absurd (by decide) ht

/-- A verification adds the artifact of an upload that has none. -/
theorem publishArtifact_cases {c : FinalizeClaims} {finalization artifact : Uuid} {verified : Bool}
    {record : Option ArtifactRecord}
    (h : publishArtifact s now c finalization artifact verified = .ok (s', record)) :
    s' = s ∨ verified = true ∧ s.artifacts.lookup artifact = none ∧
      (∀ id a, s.artifacts.lookup id = some a → a.upload ≠ c.uploadID) ∧
      ∃ attempt body, Store.appendEvent { s with
          artifacts := AList.insert artifact ⟨c.uploadID, finalization, c.object.version, now⟩
            s.artifacts } now c.authority.jobID attempt body = .ok s' ∧
        ∀ state, body.next state = some state := by
  unfold publishArtifact at h
  split at h
  · simp only [bind_ok, pure_pair_ok] at h
    obtain ⟨-, -, rfl, -⟩ := h
    exact .inl rfl
  · rename_i hnone
    split_ifs at h with hverified
    · simp only [bind_ok, orThrow_ok, pure_pair_ok] at h
      obtain ⟨artifacts, hartifacts, logged, hlogged, rfl, -⟩ := h
      obtain ⟨hfree, rfl⟩ := Table.insertNew_eq_some hartifacts
      exact .inr ⟨hverified, hfree, uploadArtifact_eq_none hnone, _, _, hlogged, fun _ => rfl⟩
    · obtain ⟨rfl, -⟩ := pure_pair_ok.mp h
      exact .inl rfl

theorem finalizeUploadTx_entries {r : FinalizeUploadRequest} {verified : Bool}
    {finalization artifact : Uuid} {result : FinalizeUploadResult}
    (h : finalizeUploadTx s seen now id r verified finalization artifact = .ok (s', result)) :
    s' = s ∨ Granted s now id.workerID r.claims.authority ∧
      Entries finalizationTables (.finalizeUpload seen id r verified finalization artifact)
        r.claims.authority s s' := by
  simp only [finalizeUploadTx, bind_ok] at h
  obtain ⟨_, -, _, hvalid, owned, howned, h⟩ := h
  simp only [require_ok, FinalizeUploadRequest.isValid, Bool.and_eq_true] at hvalid
  have hmine := validAuthority_worker hvalid.1.1.1.1.1.1.2
  cases owned with
  | none =>
    obtain ⟨rfl, -⟩ := pure_pair_ok.mp h
    exact .inl rfl
  | some a =>
    obtain ⟨ha, -⟩ := ownedAttempt_eq_some howned
    simp only [bind_ok, orThrow_ok, require_ok] at h
    obtain ⟨j, hj, u, hu, _, howner, _, hobject, _, hstored, ⟨claimed, saved, inserted⟩, hclaim,
      h⟩ := h
    split_ifs at h with hdecision
    · obtain ⟨rfl, -⟩ := pure_pair_ok.mp h
      exact .inl rfl
    · simp only [bind_ok, require_ok] at h
      obtain ⟨_, -, _, hlimit, ⟨published, record⟩, hpublish, h⟩ := h
      obtain ⟨rfl, -⟩ := pure_pair_ok.mp h
      refine .inr ⟨⟨hmine, a, j, ha, hj, not_not.mp hdecision⟩, ?_⟩
      -- The claim leaves every other table as it is.
      have hclaimed : Entries finalizationTables
          (.finalizeUpload seen id r verified finalization artifact) r.claims.authority s claimed ∧
          claimed.uploads = s.uploads ∧
          claimed.multipartCompletions = s.multipartCompletions := by
        obtain ⟨-, rfl⟩ | ⟨hinserted, hfree, row, hupload, rfl⟩ := claimFinalization_cases hclaim
        · exact ⟨.refl, rfl, rfl⟩
        · exact ⟨.single (.file (.claim s.files finalization row ⟨u, hupload ▸ hu, howner⟩ hfree
            (hlimit hinserted)) rfl (setArtifacts_writes _ s.artifacts)), rfl, rfl⟩
      obtain ⟨hentries, huploads, hcompletions⟩ := hclaimed
      obtain rfl | ⟨rfl, hfree, hfirst, attempt, body, hlogged, hquiet⟩ :=
        publishArtifact_cases hpublish
      · exact hentries
      · refine .tail (hentries.tail ?_) (.event hlogged hquiet (by decide))
        refine .file (.verify claimed.files artifact _ u
          ((congrArg (AList.lookup r.claims.uploadID) huploads).trans hu) howner hfree hfirst
          ⟨seen, id, r, finalization, rfl, hobject⟩ fun hparts => ?_) rfl
          (setArtifacts_writes claimed.finalizations _)
        obtain ⟨m, hm, hversion⟩ := hstored hparts
        exact ⟨m, (congrArg (AList.lookup r.claims.uploadID) hcompletions).trans hm, hversion⟩

theorem registerLogSegment_entries {r : LogSegmentRequest} {fresh : Uuid} {result : MutationResult}
    (h : registerLogSegment s seen now id r fresh = .ok (s', result)) :
    s' = s ∨ Granted s now id.workerID r.claims.authority ∧
      Entries [.logSegments] op r.claims.authority s s' := by
  have hvalid : r.isValid id.workerID = true := by
    simp only [registerLogSegment, bind_ok, require_ok] at h
    obtain ⟨_, -, _, hvalid, -⟩ := h
    exact hvalid
  simp only [LogSegmentRequest.isValid, Bool.and_eq_true, decide_eq_true_eq] at hvalid
  obtain ⟨hgate, hfree, hunclaimed, hnext, upload, u, hupload, rfl⟩ | ⟨rfl, -⟩ | ⟨rfl, -⟩ :=
    registerLogSegment_cases h
  · obtain ⟨a, ha, rfl, hu, howner, hkind, hname⟩ := logUpload_eq_some hupload
    refine .inr ⟨⟨validAuthority_worker hvalid.1.1.1.1.1.1.2, hgate⟩, .single (.file
      (.register s.files fresh ⟨r.requestID, a.upload, r.claims, now⟩ hfree
        ⟨rfl, ⟨hvalid.1.1.1.1.1.2, hvalid.1.1.1.1.2, hvalid.1.2⟩,
          ⟨a, u, ha, rfl, hu, howner, hkind, hname⟩, hunclaimed, hnext, hvalid.1.1.1.2⟩) rfl ?_)⟩
    rintro (_ | _) ht <;> first | rfl | exact absurd (by decide) ht
  · exact .inl rfl
  · exact .inl rfl

/-! ## Every transaction -/

/-- The worker and the authority of a transaction that may make entries. -/
def Op.filer : Op → Option (Uuid × AttemptAuthority)
  | .createUpload _ id r _ _ => some (id.workerID, r.claims.authority)
  | .bindMultipart _ id r _ _ _ => some (id.workerID, r.claims.authority)
  | .preparePart _ id r => some (id.workerID, r.authority)
  | .completeMultipart _ id r _ => some (id.workerID, r.claims.authority)
  | .finalizeUpload _ id r _ _ _ => some (id.workerID, r.claims.authority)
  | .registerLog _ id r _ => some (id.workerID, r.claims.authority)
  | _ => none

/-- **A request that may make entries** changes nothing, or it was granted. -/
theorem Op.exec_entries {reply : Reply} {authority : AttemptAuthority}
    (h : op.exec sha s now = .ok (s', reply)) (hfiler : op.filer = some (worker, authority)) :
    s' = s ∨ Granted s now worker authority ∧ Entries op.footprint op authority s s' := by
  cases op
  all_goals simp only [Op.exec, bindMultipartUpload, bind_ok, pure_pair_ok] at h
  case createUpload =>
    obtain ⟨⟨t, x⟩, ht, rfl, -⟩ := h
    obtain ⟨rfl, rfl⟩ := Prod.mk.inj (Option.some.inj hfiler)
    exact createUpload_entries ht
  case bindMultipart =>
    obtain ⟨⟨t, x⟩, ⟨_, -, ht⟩, rfl, -⟩ := h
    obtain ⟨rfl, rfl⟩ := Prod.mk.inj (Option.some.inj hfiler)
    exact createUpload_entries ht
  case preparePart =>
    obtain ⟨⟨t, x⟩, ht, rfl, -⟩ := h
    obtain ⟨rfl, rfl⟩ := Prod.mk.inj (Option.some.inj hfiler)
    exact prepareMultipartPart_entries ht
  case completeMultipart =>
    obtain ⟨⟨t, x⟩, ht, rfl, -⟩ := h
    obtain ⟨rfl, rfl⟩ := Prod.mk.inj (Option.some.inj hfiler)
    exact multipartCompletionTx_entries ht
  case finalizeUpload =>
    obtain ⟨⟨t, x⟩, ht, rfl, -⟩ := h
    obtain ⟨rfl, rfl⟩ := Prod.mk.inj (Option.some.inj hfiler)
    exact finalizeUploadTx_entries ht
  case registerLog =>
    obtain ⟨⟨t, x⟩, ht, rfl, -⟩ := h
    obtain ⟨rfl, rfl⟩ := Prod.mk.inj (Option.some.inj hfiler)
    exact registerLogSegment_entries ht
  all_goals exact absurd hfiler (by simp only [Op.filer, reduceCtorEq, not_false_eq_true])

end Dispatch
