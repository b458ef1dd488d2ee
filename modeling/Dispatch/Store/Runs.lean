import Dispatch.Store.Datasets
import Dispatch.Store.Completion

/-!
# Runs of the control plane

Every change of the store is one of the transactions of the modules before.
`Op` lists them with the arguments a caller and the database choose, and
`Op.exec` runs one at a database time. A run is a sequence of transactions at
times that never go back; a transaction that fails is rolled back and leaves
no trace.

Concurrent transactions are ordered by their last clock sample. Each samples
the clock after its last lock, so two transactions that touch the same job or
attempt are in the order in which they held its locks, and what a transaction
reads under a lock is what the ones before it left. Reads without a lock (the
session check of the single-attempt transactions, the reaper's candidate) may
see an older commit: they are given a store `seen` of their own, any store at
all, so that what is proved of runs holds for every commit they may have seen.
-/

namespace Dispatch

open Txn

variable {w w' : World}

/-- **The transactions that write.** Identifiers drawn at random, earlier clock
samples and unlocked reads are arguments. -/
inductive Op where
  | submitJob (id : Uuid) (key requestHash : String) (job : Job) (bindings : List DatasetBinding)
  | submitSweep (id : Uuid) (fresh : ℕ → Uuid) (key requestHash : String) (sweep : Sweep)
      (bindings : List DatasetBinding)
  | retrySweep (id : Uuid) (fresh : ℕ → Uuid) (project sweep : Uuid) (key : String)
  | cancel (project job : Uuid)
  | acquire (observed queueNow : Time) (identity : WorkerIdentity) (request : AcquisitionRequest)
      (policy : AcquisitionPolicy) (attempt : Uuid)
  | renew (seen : Store) (identity : WorkerIdentity) (request : LeaseRenewal)
  | phase (seen : Store) (identity : WorkerIdentity) (report : PhaseReport)
  | createUpload (seen : Store) (identity : WorkerIdentity) (request : UploadRequest)
      (upload initialization : Uuid)
  | bindMultipart (seen : Store) (identity : WorkerIdentity) (request : UploadRequest)
      (backend : String) (upload initialization : Uuid)
  | preparePart (seen : Store) (identity : WorkerIdentity) (request : MultipartPartRequest)
  | completeMultipart (seen : Store) (identity : WorkerIdentity)
      (request : MultipartCompletionRequest) (version : Option String)
  | finalizeUpload (seen : Store) (identity : WorkerIdentity) (request : FinalizeUploadRequest)
      (verified : Bool) (finalization artifact : Uuid)
  | registerLog (seen : Store) (identity : WorkerIdentity) (request : LogSegmentRequest)
      (segment : Uuid)
  | complete (completed : Time) (identity : WorkerIdentity) (request : CompletionRequest)
  | reap (seen : Store) (observed : Time)
  | approveTakeover (worker fromSession toSession : Uuid)
  | register (identity : WorkerIdentity) (registration : Registration)
  | heartbeat (identity : WorkerIdentity) (report : HeartbeatReport)
  | drain (project worker : Uuid)
  /-- A host is provisioned; it has no session. -/
  | provision (worker : Uuid) (row : WorkerRow)
  | registerDataset (id : Uuid) (row : DatasetRow)
  /-- Operators create and change projects and issue and revoke credentials. -/
  | operate (projects : Table Uuid ProjectRow) (credentials : Table Uuid CredentialRow)
      (workerProjects : Table (Uuid × Uuid) Unit)

/-- What a transaction answers. -/
inductive Reply where
  | job (r : JobRecord)
  | sweep (r : SweepRecord)
  | sweepRetry (r : SweepRetryRecord)
  | acquisition (r : AcquisitionResult)
  | grants (r : List LeaseGrant)
  | mutation (r : MutationResult)
  | upload (r : UploadResult)
  | multipart (r : MultipartCompletionResult)
  | finalization (r : FinalizeUploadResult)
  | completion (r : CompletionResult)
  | reaped (found fenced : Bool)
  | session (r : Session)
  | heartbeat (r : HeartbeatResult)
  | done

/-- **One transaction at a database time.** -/
def Op.exec (sha : Uuid → ℕ) (s : Store) (now : Time) : Op → Except StoreError (Store × Reply)
  | .submitJob id key requestHash job bindings => do
    let (s', r) ← submitJobResolved s now id key requestHash job bindings
    pure (s', .job r)
  | .submitSweep id fresh key requestHash sweep bindings => do
    let (s', r) ← submitSweepResolved s now id fresh key requestHash sweep bindings
    pure (s', .sweep r)
  | .retrySweep id fresh project sweep key => do
    let (s', r) ← Dispatch.retrySweep s now id fresh project sweep key
    pure (s', .sweepRetry r)
  | .cancel project job => do
    let s' ← requestCancellation s now project job
    pure (s', .done)
  | .acquire observed queueNow identity request policy attempt => do
    let (s', r) ← acquireWork s observed queueNow now identity request policy attempt
    pure (s', .acquisition r)
  | .renew seen identity request => do
    let (s', r) ← renewLeases s seen now identity request
    pure (s', .grants r)
  | .phase seen identity report => do
    let (s', r) ← reportPhase s seen now identity report
    pure (s', .mutation r)
  | .createUpload seen identity request upload initialization => do
    let (s', r) ← Dispatch.createUpload s seen now identity request none upload initialization
    pure (s', .upload r)
  | .bindMultipart seen identity request backend upload initialization => do
    let (s', r) ← bindMultipartUpload s seen now identity request backend upload initialization
    pure (s', .upload r)
  | .preparePart seen identity request => do
    let (s', r) ← prepareMultipartPart s seen now identity request
    pure (s', .upload r)
  | .completeMultipart seen identity request version => do
    let (s', r) ← multipartCompletionTx s seen now identity request version
    pure (s', .multipart r)
  | .finalizeUpload seen identity request verified finalization artifact => do
    let (s', r) ← finalizeUploadTx s seen now identity request verified finalization artifact
    pure (s', .finalization r)
  | .registerLog seen identity request segment => do
    let (s', r) ← registerLogSegment s seen now identity request segment
    pure (s', .mutation r)
  | .complete completed identity request => do
    let (s', r) ← completeAttempt sha s completed now identity request
    pure (s', .completion r)
  | .reap seen observed => do
    let (s', found, fenced) ← reapOneExpiredAttempt sha s seen observed now
    pure (s', .reaped found fenced)
  | .approveTakeover worker fromSession toSession => do
    let s' ← approveSessionTakeover s worker fromSession toSession
    pure (s', .done)
  | .register identity registration => do
    let (s', r) ← registerSession sha s now identity registration
    pure (s', .session r)
  | .heartbeat identity report => do
    let (s', r) ← recordHeartbeat s now identity report
    pure (s', .heartbeat r)
  | .drain project worker => do
    let s' ← requestWorkerDrain s project worker
    pure (s', .done)
  | .provision worker row => do
    let workers ← orThrow (s.workers.insertNew worker { row with currentSession := none }) .conflict
    pure ({ s with workers := workers }, .done)
  | .registerDataset id row => do
    let s' ← Dispatch.registerDataset s id row
    pure (s', .done)
  | .operate projects credentials workerProjects => do
    -- The identifier of a project is drawn at random and never nil.
    require (projects.lookup 0).isNone .database
    pure ({ s with
      projects := projects
      credentials := credentials
      workerProjects := workerProjects }, .done)

/-- The store at a database time. -/
structure World where
  store : Store
  clock : Time
  deriving DecidableEq

/-- **One step of a run**: time passes, and a transaction commits at the time
reached. -/
def World.Step (sha : Uuid → ℕ) (w w' : World) : Prop :=
  w.clock ≤ w'.clock ∧ ∃ op reply, Op.exec sha w.store w'.clock op = .ok (w'.store, reply)

/-- **What runs reach**: a provisioned control plane, and any number of
transactions. -/
inductive Reachable (sha : Uuid → ℕ) : World → Prop where
  | start (projects : Table Uuid ProjectRow) (workers : Table Uuid WorkerRow)
      (credentials : Table Uuid CredentialRow) (workerProjects : Table (Uuid × Uuid) Unit)
      (clock : Time) :
      Reachable sha ⟨Store.provisioned projects workers credentials workerProjects, clock⟩
  | step {w w' : World} : Reachable sha w → w.Step sha w' → Reachable sha w'

/-- **Induction over runs**: what a provisioned store has and every transaction
keeps, every reachable world has. -/
theorem Reachable.invariant {sha : Uuid → ℕ} (I : World → Prop)
    (hstart : ∀ projects workers credentials workerProjects clock,
      I ⟨Store.provisioned projects workers credentials workerProjects, clock⟩)
    (hstep : ∀ w w', I w → w.Step sha w' → I w') (h : Reachable sha w) : I w := by
  induction h with
  | start projects workers credentials workerProjects clock =>
    exact hstart projects workers credentials workerProjects clock
  | step _ hs ih => exact hstep _ _ ih hs

/-- A run of given transactions at given times; it ends at the first that
fails or whose time goes back. -/
def World.run (sha : Uuid → ℕ) (w : World) : List (Time × Op) → Except StoreError World
  | [] => .ok w
  | (t, op) :: rest => do
    require (w.clock ≤ t) .database
    let (s, _) ← op.exec sha w.store t
    World.run sha ⟨s, t⟩ rest

/-- A run is a sequence of steps. -/
theorem World.run_steps {sha : Uuid → ℕ} {ops : List (Time × Op)}
    (hrun : w.run sha ops = .ok w') : Relation.ReflTransGen (World.Step sha) w w' := by
  induction ops generalizing w with
  | nil =>
    obtain rfl : w = w' := Except.ok.inj hrun
    exact .refl
  | cons x rest ih =>
    obtain ⟨t, op⟩ := x
    simp only [World.run, bind_ok, require_ok] at hrun
    obtain ⟨-, hle, ⟨s, reply⟩, hexec, hrest⟩ := hrun
    have hstep : w.Step sha ⟨s, t⟩ := ⟨hle, op, reply, hexec⟩
    exact .head hstep (ih hrest)

/-- A run of one transaction is a step. -/
theorem World.run_single {sha : Uuid → ℕ} {x : Time × Op}
    (hrun : w.run sha [x] = .ok w') : w.Step sha w' := by
  obtain ⟨t, op⟩ := x
  simp only [World.run, bind_ok, require_ok] at hrun
  obtain ⟨-, hle, ⟨s, reply⟩, hexec, hrest⟩ := hrun
  obtain rfl := Except.ok.inj hrest
  exact ⟨hle, op, reply, hexec⟩

/-- What a run ends in is reachable. -/
theorem Reachable.run {sha : Uuid → ℕ} {ops : List (Time × Op)}
    (h : Reachable sha w) (hrun : w.run sha ops = .ok w') : Reachable sha w' := by
  have hsteps := World.run_steps hrun
  clear hrun
  induction hsteps with
  | refl => exact h
  | tail _ hstep ih => exact ih.step hstep

/-! ## A small control plane -/

namespace Sample

/-- The labels every worker has. -/
def labels : Table String String :=
  AList.insert "os" "linux" (AList.insert "architecture" "amd64" ∅)

/-- What a session claims for the worker. -/
def claims (session : Uuid) : RegistrationClaims where
  sessionID := session
  protocolVersion := 1
  resources := ⟨2000, 1024, 1024⟩
  slots := 2
  labels := labels
  capabilities := ["docker.v1", "cpu.hard", "memory.hard", "pids.hard", "scratch.quota"]

/-- A host before its first session. -/
def worker : WorkerRow where
  state := .offline
  labels := labels
  capabilities := []
  resources := ⟨2000, 1024, 1024⟩
  slots := 2
  currentSession := none
  drainRequested := false
  lastHeartbeat := none
  reconciliationComplete := false
  runtimeHealthy := false
  diskPressure := false
  limit := ⟨2000, 1024, 1024⟩
  slotLimit := 2
  limitLabels := labels

/-- **One project, one worker.** -/
def world : World where
  store := Store.provisioned (AList.insert 1 ⟨"p", 4000, 4096, 4, true⟩ ∅)
    (AList.insert 1 worker ∅) (AList.insert 1 ⟨1, false⟩ ∅) (AList.insert (1, 1) () ∅)
  clock := 0

/-- A hash that adds nothing to one half of a backoff. -/
def sha : Uuid → ℕ := fun _ => 0

/-- The worker and its credential. -/
def identity : WorkerIdentity := ⟨1, 1⟩

/-- A session registers and reports itself healthy. -/
def seated (session : Uuid) (time : Time) : List (Time × Op) :=
  [(time, .register identity ⟨session, claims session⟩),
    (time, .heartbeat identity ⟨session, ⟨session, 1, true, false, true, []⟩⟩)]

/-- Job 1 is submitted and assigned as attempt 1 of session 1. -/
def assigned : List (Time × Op) :=
  seated 1 second ++
    [(second, .submitJob 1 "k" (String.ofList (List.replicate 64 '0')) job []),
      (second, .acquire second second identity ⟨1, 1⟩ ⟨false⟩ 1)]

/-- A container's id, and a hash. -/
def container : String := String.ofList (List.replicate 64 '0')

/-- The completion of attempt 1 as a success. -/
def success : CompletionRequest where
  authority := ⟨1, 1, 1, 1, 1⟩
  completionID := 1
  payloadSHA256 := ⟨⟨1, 1, 1, 1, 1⟩, some 0, none, true, [], true, [], [], none⟩
  exitCode := some 0
  reason := none
  stopped := true
  outputs := []
  logsComplete := true
  gaps := []
  metricsJSON := none

/-- What a session registers, in the order it is stored. -/
def registered (session : Uuid) : RegistrationClaims :=
  { claims session with
    capabilities := ["cpu.hard", "docker.v1", "memory.hard", "pids.hard", "scratch.quota"] }

/-- **The world after `assigned`**, written out so that what follows it is
evaluated from there. -/
def assignedWorld : World where
  store := { world.store with
    workers := AList.insert 1 { worker.register second (registered 1) with
      state := .ready
      reconciliationComplete := true
      runtimeHealthy := true } ∅
    sessions := AList.insert 1 ⟨1, 1, second, none, registered 1, 1, some 1,
      some ⟨1, 1, true, false, true, []⟩⟩ ∅
    registrations := AList.insert (1, 1) (registered 1) ∅
    jobs := AList.insert 1 { newSubmission second 1 job none with
      state := .active
      currentAttempt := some 1
      attemptCounter := 1
      eventSequence := 2 } ∅
    attempts := AList.insert 1 (newAttempt second 1 1 1 (newSubmission second 1 job none)) ∅
    reservations := AList.insert 1 ⟨1, ⟨1000, 256, 16⟩, .active⟩ ∅
    events := AList.insert (1, 2) ⟨some 1, .assigned 1 1 1, second⟩
      (AList.insert (1, 1) ⟨none, .submitted job.canonical none, second⟩ ∅)
    idempotency := AList.insert (1, .jobs, "k") ⟨String.ofList (List.replicate 64 '0'), 1⟩ ∅
    workerRequests := AList.insert (1, 1, 1) ⟨.inl 1⟩ ∅
    projectCursor := some 1 }
  clock := second

/-- The store as session 1 sees it. -/
def seen : Store := assignedWorld.store

/-- Attempt 1 reports its phases, up to the end of its container with exit code
zero. -/
def finalized : List (Time × Op) :=
  [(second, .phase seen identity ⟨1, ⟨⟨1, 1, 1, 1, 1⟩, .starting, "", none⟩⟩),
    (second, .phase seen identity ⟨2, ⟨⟨1, 1, 1, 1, 1⟩, .running, container, none⟩⟩),
    (second, .phase seen identity ⟨3, ⟨⟨1, 1, 1, 1, 1⟩, .finalizing, container, some 0⟩⟩)]

theorem world_reachable : Reachable sha world := .start _ _ _ _ _

theorem run_assigned : world.run sha assigned = .ok assignedWorld :=
  toOption_eq_some.mp (by decide +kernel)

theorem assigned_reachable : Reachable sha assignedWorld := world_reachable.run run_assigned

/-- A run whose end can be checked by evaluation reaches such a world. -/
theorem reaches {start : World} (hstart : Reachable sha start) (ops : List (Time × Op))
    (p : World → Bool) (h : (start.run sha ops).toOption.any p = true) :
    ∃ w, Reachable sha w ∧ p w = true := by
  rw [Option.any_eq_true] at h
  obtain ⟨w, hrun, hp⟩ := h
  exact ⟨w, hstart.run (toOption_eq_some.mp hrun), hp⟩

/-- A run and one transaction after it, checked by evaluation. -/
theorem reaches_step {start : World} (hstart : Reachable sha start) (ops : List (Time × Op))
    (now : Time) (op : Op) (p : World → Store → Reply → Bool)
    (h : (start.run sha ops).toOption.any (fun w => decide (w.clock ≤ now) &&
      (op.exec sha w.store now).toOption.any (fun x => p w x.1 x.2)) = true) :
    ∃ w s' reply, Reachable sha w ∧ w.clock ≤ now ∧
      op.exec sha w.store now = .ok (s', reply) ∧ p w s' reply = true := by
  obtain ⟨w, hw, hp⟩ := reaches hstart ops _ h
  rw [Bool.and_eq_true, decide_eq_true_eq, Option.any_eq_true] at hp
  obtain ⟨hle, ⟨s', reply⟩, hexec, hp⟩ := hp
  exact ⟨w, s', reply, hw, hle, toOption_eq_some.mp hexec, hp⟩

end Sample

end Dispatch
