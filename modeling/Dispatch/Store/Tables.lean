import Dispatch.Store.Runs

/-!
# The tables by name

A transaction leaves most of the store alone, and most promises are about a few
tables only. `Writes` says that two stores differ in the tables named and in no
other, and `Op.footprint` lists the tables each transaction may write.
-/

namespace Dispatch

open Txn

/-- The tables of the store. -/
inductive TableName where
  | projects
  | workers
  | credentials
  | workerProjects
  | sessions
  | registrations
  | takeovers
  | jobs
  | attempts
  | reservations
  | events
  | sweeps
  | idempotency
  | workerRequests
  | leaseRequests
  | phaseReports
  | uploads
  | multipart
  | uploadParts
  | multipartCompletions
  | finalizations
  | artifacts
  | logSegments
  | completions
  | completionArtifacts
  | datasets
  | jobInputs
  | blockers
  | blockerSequence
  | projectCursor
  deriving DecidableEq, Repr

/-- The contents of a table; a sequence and the cursor count as tables of one
row. -/
def TableName.Contents : TableName → Type
  | projects => Table Uuid ProjectRow
  | workers => Table Uuid WorkerRow
  | credentials => Table Uuid CredentialRow
  | workerProjects => Table (Uuid × Uuid) Unit
  | sessions => Table Uuid SessionRow
  | registrations => Table (Uuid × Uuid) RegistrationClaims
  | takeovers => Table (Uuid × Uuid) TakeoverRow
  | jobs => Table Uuid JobRow
  | attempts => Table Uuid AttemptRow
  | reservations => Table Uuid ReservationRow
  | events => Table (Uuid × ℕ) EventRow
  | sweeps => Table Uuid SweepRow
  | idempotency => Table (Uuid × Endpoint × String) IdempotencyRow
  | workerRequests => Table (Uuid × Uuid × Uuid) WorkerRequestRow
  | leaseRequests => Table (Uuid × Uuid × Uuid) LeaseRequestRow
  | phaseReports => Table (Uuid × Uuid × Uuid) PhaseClaims
  | uploads => Table Uuid UploadRow
  | multipart => Table Uuid MultipartRow
  | uploadParts => Table (Uuid × ℕ) String
  | multipartCompletions => Table Uuid MultipartCompletionRow
  | finalizations => Table Uuid FinalizationRow
  | artifacts => Table Uuid ArtifactRow
  | logSegments => Table Uuid LogSegmentRow
  | completions => Table Uuid CompletionRow
  | completionArtifacts => Table (Uuid × Uuid) PublishedArtifact
  | datasets => Table Uuid DatasetRow
  | jobInputs => Table (Uuid × ℕ) JobInputRow
  | blockers => Table (Uuid × ℕ) BlockerRow
  | blockerSequence => ℕ
  | projectCursor => Option Uuid

/-- The contents of a table, by its name. -/
def Store.contents (s : Store) : (t : TableName) → t.Contents
  | .projects => s.projects
  | .workers => s.workers
  | .credentials => s.credentials
  | .workerProjects => s.workerProjects
  | .sessions => s.sessions
  | .registrations => s.registrations
  | .takeovers => s.takeovers
  | .jobs => s.jobs
  | .attempts => s.attempts
  | .reservations => s.reservations
  | .events => s.events
  | .sweeps => s.sweeps
  | .idempotency => s.idempotency
  | .workerRequests => s.workerRequests
  | .leaseRequests => s.leaseRequests
  | .phaseReports => s.phaseReports
  | .uploads => s.uploads
  | .multipart => s.multipart
  | .uploadParts => s.uploadParts
  | .multipartCompletions => s.multipartCompletions
  | .finalizations => s.finalizations
  | .artifacts => s.artifacts
  | .logSegments => s.logSegments
  | .completions => s.completions
  | .completionArtifacts => s.completionArtifacts
  | .datasets => s.datasets
  | .jobInputs => s.jobInputs
  | .blockers => s.blockers
  | .blockerSequence => s.blockerSequence
  | .projectCursor => s.projectCursor

/-- **The stores differ in the tables named** and in no other. -/
def Writes (ts : List TableName) (s s' : Store) : Prop :=
  ∀ t, t ∉ ts → s'.contents t = s.contents t

variable {ts us : List TableName} {s s' s'' : Store}

theorem Writes.refl (ts : List TableName) (s : Store) : Writes ts s s := fun _ _ => rfl

theorem Writes.trans (h : Writes ts s s') (h' : Writes ts s' s'') : Writes ts s s'' :=
  fun t ht => (h' t ht).trans (h t ht)

theorem Writes.mono (h : Writes ts s s') (hsub : ts ⊆ us) : Writes us s s' :=
  fun t ht => h t fun hmem => ht (hsub hmem)

theorem appendEvent_writes {now : Time} {job : Uuid} {attempt : Option Uuid} {body : EventBody}
    (h : s.appendEvent now job attempt body = .ok s') : Writes [.jobs, .events] s s' := by
  obtain ⟨_, events, -, -, rfl⟩ := Store.appendEvent_eq_ok h
  rintro (_ | _) ht <;> first | rfl | exact absurd (by decide) ht

/-! ## The footprint of a transaction -/

/-- The tables the end of an attempt writes. -/
def endTables : List TableName := [.attempts, .reservations, .jobs, .events]

/-- The tables an admission writes. -/
def admissionTables : List TableName := [.idempotency, .sweeps, .jobs, .events, .jobInputs]

/-- The tables a declaration writes. -/
def uploadTables : List TableName := [.uploads, .multipart, .jobs, .events]

/-- The tables a multipart completion writes. -/
def multipartTables : List TableName := [.multipartCompletions, .jobs, .events]

/-- The tables a finalization writes. -/
def finalizationTables : List TableName := [.finalizations, .artifacts, .jobs, .events]

/-- The tables an acquisition writes. -/
def acquisitionTables : List TableName :=
  [.blockers, .blockerSequence, .attempts, .reservations, .jobs, .projectCursor, .events,
    .workerRequests]

/-- The tables a registration writes. -/
def registrationTables : List TableName :=
  [.sessions, .takeovers, .workers, .registrations] ++ endTables

/-- **The tables a transaction may write.** -/
def Op.footprint : Op → List TableName
  | .submitJob .. | .submitSweep .. | .retrySweep .. => admissionTables
  | .cancel .. => [.jobs, .events]
  | .acquire .. => acquisitionTables
  | .renew .. => [.attempts, .leaseRequests]
  | .phase .. => [.phaseReports, .attempts, .jobs, .events]
  | .createUpload .. | .bindMultipart .. => uploadTables
  | .preparePart .. => [.uploadParts]
  | .completeMultipart .. => multipartTables
  | .finalizeUpload .. => finalizationTables
  | .registerLog .. => [.logSegments]
  | .complete .. => .completions :: .completionArtifacts :: endTables
  | .reap .. => .workers :: endTables
  | .approveTakeover .. => [.takeovers]
  | .register .. => registrationTables
  | .heartbeat .. => [.reservations, .attempts, .sessions, .workers]
  | .drain .. | .provision .. => [.workers]
  | .registerDataset .. => [.datasets]
  | .operate .. => [.projects, .credentials, .workerProjects]

end Dispatch
