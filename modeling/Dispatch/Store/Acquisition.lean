import Dispatch.Store.Submission

/-!
# Acquisition

A worker asks for work. Under the cluster lock the scheduler ranks the queued
jobs the worker may run, rotating over projects, and the transaction then
checks the chosen job again under its locks before it commits an attempt, its
reservation and the job's pointer together. A repeated request is answered
from what it was answered first, with the authority the attempt still has.

`listAssignments` gives a session its own attempts back, page by page.

The constraints `UNIQUE(job_id,attempt_number)` and `one_active_attempt_per_job`
are not checks of the model: that an assignment never violates them is a
theorem about it.
-/

namespace Dispatch

open Txn

variable {s s' : Store} {request : AcquisitionRequest} {worker : Uuid}

variable {observedAt : Time}

/-- How long a heartbeat keeps a worker ready. -/
def workerSuspectAfter : Time := 15 * second

/-- How many blocked jobs one acquisition samples. -/
def queueBlockerSampleLimit : ℕ := 16

/-- How long a job that was sampled is left out. -/
def queueBlockerResampleAfter : Time := 30 * second

/-- How many observations of a job are kept. -/
def queueBlockerHistoryLimit : ℕ := 16

/-- A request for work, repeated under its own id. -/
structure AcquisitionRequest where
  sessionID : Uuid
  requestID : Uuid
  deriving DecidableEq, Repr

/-- What the operator allows a worker to lack. -/
structure AcquisitionPolicy where
  allowSoftScratch : Bool
  deriving DecidableEq, Repr

/-- An input of a job, bound to a dataset. -/
structure JobInputBinding where
  dataset : DatasetBinding
  mountPath : String
  deriving DecidableEq, Repr

/-- **An assignment**: the authority over an attempt, the job with its inputs, and
until when. -/
structure WorkAssignment where
  authority : AttemptAuthority
  job : Job
  inputs : List JobInputBinding
  canonicalSpec : Job
  specHash : Job
  leaseExpiresAt : Time
  phaseDeadline : Time
  serverTime : Time
  deriving DecidableEq

/-- What an acquisition is answered: an assignment, a reason for none, or the
decision about an attempt assigned earlier. -/
inductive AcquisitionResult where
  | assignment (a : WorkAssignment)
  | noWork (reason : NoWork)
  | decided (d : Decision)
  deriving DecidableEq

/-! ## The worker's view -/

/-- A worker and what its reservations leave of it. -/
structure AcquisitionWorker where
  row : WorkerRow
  free : Resources
  slots : ℤ
  deriving DecidableEq

/-- Reservations that still occupy a worker. -/
def occupying (s : Store) (worker : Uuid) : List ReservationRow :=
  (s.reservations.select (fun _ r => decide (r.worker = worker) &&
    decide (r.state ≠ .released))).map Prod.snd

/-- The sum of resources, each by itself. -/
def sumResources (rs : List Resources) : Resources :=
  ⟨(rs.map Resources.cpuMillis).sum, (rs.map Resources.memoryMiB).sum,
    (rs.map Resources.scratchMiB).sum⟩

/-- `readAcquisitionWorker`: the worker of a current session. -/
def readAcquisitionWorker (s : Store) (worker session : Uuid) :
    Except StoreError AcquisitionWorker := do
  let w ← orThrow (s.workers.lookup worker) .database
  require (isCurrentSession s worker session) .fenced
  let used := occupying s worker
  let total := sumResources (used.map ReservationRow.resources)
  pure ⟨w, ⟨w.resources.cpuMillis - total.cpuMillis, w.resources.memoryMiB - total.memoryMiB,
    w.resources.scratchMiB - total.scratchMiB⟩, w.slots - used.length⟩

/-- Why a worker may not take work at all. -/
def AcquisitionWorker.readiness (w : AcquisitionWorker) (now : Time) (policy : AcquisitionPolicy) :
    Option NoWork :=
  let fresh := match w.row.lastHeartbeat with
    | some h => decide (now < h + workerSuspectAfter)
    | none => false
  let caps := w.row.capabilities
  if !(decide (w.row.state = .ready) && w.row.runtimeHealthy && w.row.reconciliationComplete &&
      !w.row.diskPressure && !w.row.drainRequested && fresh) then some .workerNotReady
  else if !(["docker.v1", "cpu.hard", "memory.hard", "pids.hard"].all
      (fun c => decide (c ∈ caps)) && (decide ("scratch.quota" ∈ caps) ||
        policy.allowSoftScratch && decide ("scratch.soft" ∈ caps))) then some .placementMismatch
  else none

/-! ## Selection -/

/-- The attempts that own a job of a project. -/
def activeAttempts (s : Store) (p : JobRow → Bool) : List Uuid :=
  (s.attempts.select (fun _ a => a.state.isActive &&
    match s.jobs.lookup a.job with
    | some j => p j
    | none => false)).map Prod.fst

/-- What the active attempts of a project reserve, and how many they are. -/
def projectUsage (s : Store) (project : Uuid) : Resources × ℕ :=
  let rows := (activeAttempts s (fun j => decide (j.project = project))).filterMap
    (fun a => s.reservations.lookup a)
  (sumResources (rows.map ReservationRow.resources), rows.length)

/-- How many children of a sweep are owned by an attempt. -/
def sweepUsage (s : Store) (sweep : Uuid) : ℕ :=
  (activeAttempts s (fun j => decide (j.sweep.map Prod.fst = some sweep))).length

/-- The priority of a job after ageing: one level per ten minutes waited. -/
def effectivePriority (j : JobRow) (now : Time) : ℤ :=
  min 3 (j.priority + min 3 ((now - j.nextEligibleAt) / (600 * second) : ℕ))

/-- The worker's labels contain the job's. -/
def placementMatches (labels wanted : Table String String) : Bool :=
  wanted.entries.all (fun e => decide (labels.lookup e.1 = some e.2))

/-- The resources fit what is free. -/
def Resources.fits (need free : Resources) : Bool :=
  decide (need.cpuMillis ≤ free.cpuMillis) && decide (need.memoryMiB ≤ free.memoryMiB) &&
    decide (need.scratchMiB ≤ free.scratchMiB)

/-- The project can still take the job. -/
def quotaAdmits (s : Store) (project : Uuid) (p : ProjectRow) (need : Resources) : Bool :=
  let (used, count) := projectUsage s project
  decide (need.cpuMillis ≤ p.cpuQuota - used.cpuMillis) &&
    decide (need.memoryMiB ≤ p.memoryQuotaMiB - used.memoryMiB) &&
    decide ((count : ℤ) < p.concurrencyQuota)

/-- The sweep of a job, if it has one, can still take it. -/
def sweepAdmits (s : Store) (j : JobRow) : Bool :=
  match j.sweep with
  | none => true
  | some (sweep, _) =>
    match s.sweeps.lookup sweep with
    | some row => decide ((sweepUsage s sweep : ℤ) < row.maxConcurrent)
    | none => true

/-- A queued job of a project the worker serves, and what blocks it. -/
structure Candidate where
  id : Uuid
  job : JobRow
  visible : Bool
  blocked : Option NoWork

/-- The `reason` column of the selection query. -/
def blockingReason (s : Store) (w : AcquisitionWorker) (now : Time) (j : JobRow) (p : ProjectRow) :
    Option NoWork :=
  if !p.enabled then some .projectDisabled
  else if now < j.nextEligibleAt then some .retryBackoff
  else if !placementMatches w.row.labels j.spec.spec.placementLabels then some .placementMismatch
  else if !(j.resources.fits w.free) || decide (w.slots < 1) then some .noResourceFit
  else if !quotaAdmits s j.project p j.resources then some .projectQuota
  else if !sweepAdmits s j then some .sweepConcurrency
  else none

/-- The candidates of a worker. -/
def candidates (s : Store) (worker : Uuid) (w : AcquisitionWorker) (now : Time) : List Candidate :=
  (s.jobs.select (fun _ j => j.state.isQueued && !j.cancelRequested &&
    (s.workerProjects.lookup (worker, j.project)).isSome)).filterMap (fun (id, j) =>
      match s.projects.lookup j.project with
      | some p => some ⟨id, j, p.enabled && decide (j.nextEligibleAt ≤ now),
          blockingReason s w now j p⟩
      | none => none)

/-- The ranking: assignable first, then projects past the cursor, then project
order, priority and age. -/
def Candidate.before (cursor : Option Uuid) (now : Time) (x y : Candidate) : Bool :=
  let ahead (c : Candidate) : Bool := match cursor with
    | none => true
    | some p => decide (p < c.job.project)
  if x.blocked.isNone ≠ y.blocked.isNone then x.blocked.isNone
  else if ahead x ≠ ahead y then ahead x
  else if x.job.project ≠ y.job.project then decide (x.job.project < y.job.project)
  else if effectivePriority x.job now ≠ effectivePriority y.job now then
    decide (effectivePriority y.job now < effectivePriority x.job now)
  else if x.job.createdAt ≠ y.job.createdAt then decide (x.job.createdAt < y.job.createdAt)
  else decide (x.id ≤ y.id)

/-- When a job was last observed blocked. -/
def lastObserved (s : Store) (job : Uuid) : Option Time :=
  ((s.blockers.select (fun k _ => decide (k.1 = job))).map Prod.snd).foldl
    (fun best b => match best with
      | none => some b
      | some b' => if b'.id < b.id then some b else some b') none |>.map BlockerRow.observedAt

/-- Blocked jobs worth another observation, least recently observed first. -/
def sampledBlockers (s : Store) (cs : List Candidate) (now : Time) : List (Uuid × NoWork) :=
  let due := cs.filterMap (fun c => c.blocked.bind (fun reason =>
    match lastObserved s c.id with
    | none => some (c, reason, none)
    | some t => if t + queueBlockerResampleAfter ≤ now then some (c, reason, some t) else none))
  let order (x y : Candidate × NoWork × Option Time) : Bool :=
    match x.2.2, y.2.2 with
    | none, some _ => true
    | some _, none => false
    | px, py =>
      if px.getD 0 ≠ py.getD 0 then decide (px.getD 0 < py.getD 0)
      else if x.1.job.createdAt ≠ y.1.job.createdAt then
        decide (x.1.job.createdAt < y.1.job.createdAt)
      else decide (x.1.id ≤ y.1.id)
  ((due.insertionSort (fun x y => order x y)).take queueBlockerSampleLimit).map
    (fun x => (x.1.id, x.2.1)) |>.insertionSort (fun x y => x.1 ≤ y.1)

/-- The job that was chosen, or why none was, and the blocked jobs to be noted. -/
structure AcquisitionSelection where
  job : Option Uuid
  reason : Option NoWork
  blockers : List (Uuid × NoWork)

/-- **The choice of the scheduler.** -/
def selectAcquisitionCandidate (s : Store) (worker : Uuid) (w : AcquisitionWorker) (now : Time) :
    AcquisitionSelection :=
  let cs := candidates s worker w now
  let blockers := sampledBlockers s cs now
  match ((cs.filter Candidate.visible).insertionSort
      (fun x y => x.before s.projectCursor now y)).head? with
  | some c => ⟨some c.id, c.blocked, blockers⟩
  | none => ⟨none, some .queueEmpty, blockers⟩

/-- The slot the next observation of a job takes: a vacant one, else the one
of the oldest observation. -/
def blockerSlot (s : Store) (job : Uuid) : ℕ :=
  let rank (slot : ℕ) : ℕ := match s.blockers.lookup (job, slot) with
    | none => 0
    | some b => b.id + 1
  ((List.range queueBlockerHistoryLimit).foldl (fun best slot =>
    if rank slot < rank best then slot else best) 0)

/-- **One observation of a blocked job.** -/
def recordQueueBlocker (s : Store) (worker : Uuid) (request : AcquisitionRequest)
    (observedAt : Time) (blocker : Uuid × NoWork) : Except StoreError Store := do
  let (job, reason) := blocker
  require (canonicalUUID job ∧ canonicalUUID worker ∧ canonicalUUID request.sessionID ∧
    canonicalUUID request.requestID ∧ reason ≠ .workerNotReady ∧ reason ≠ .queueEmpty ∧
    observedAt ≠ 0) .invalid
  match s.blockers.select (fun k b => decide (k.1 = job) && decide (b.worker = worker) &&
      decide (b.session = request.sessionID) && decide (b.request = request.requestID)) with
  | (_, saved) :: _ =>
    require (saved.reason = reason) .conflict
    pure s
  | [] =>
    let j ← orThrow (s.jobs.lookup job) .invalid
    require (j.state.isQueued = true ∧ j.cancelRequested = false) .invalid
    pure { s with
      blockers := AList.insert (job, blockerSlot s job) ⟨s.blockerSequence + 1, worker,
        request.sessionID, request.requestID, j.attemptCounter, reason, observedAt⟩ s.blockers
      blockerSequence := s.blockerSequence + 1 }

/-! ## Inputs -/

/-- The bindings of a job's inputs, checked against its document. -/
def loadJobInputs (s : Store) (project job : Uuid) (expected : List Input) :
    Except StoreError (List JobInputBinding) := do
  require (canonicalUUID project ∧ canonicalUUID job ∧ expected.length ≤ 64) .invalid
  let rows :=
    ((s.jobInputs.select (fun k r => decide (k.1 = job) && decide (r.project = project))).map
    (fun x => (x.1.2, x.2))).insertionSort (fun x y => x.1 ≤ y.1)
  let bindings : List (ℕ × JobInputBinding) := rows.filterMap (fun (position, r) =>
    match s.datasets.lookup r.dataset with
    | some d =>
      if d.project = project then
        some (position,
          (⟨⟨r.dataset, d.name, d.object, d.manifest⟩, r.mountPath⟩ : JobInputBinding))
      else none
    | none => none)
  require (bindings.map Prod.fst = List.range bindings.length ∧ bindings.length ≤ expected.length ∧
    ∀ b ∈ bindings, ∃ i ∈ expected[b.1]?, b.2.dataset.name = i.dataset ∧
      b.2.mountPath = i.mountPath ∧
      b.2.dataset.manifest.validate b.2.dataset.object.sizeBytes = true) .invalid
  require (bindings.length = expected.length) .notFound
  pure (bindings.map Prod.snd)

/-! ## Assignment -/

/-- The reasons the locked recheck finds, each overriding the ones before. -/
def recheckReason (s : Store) (w : AcquisitionWorker) (p : ProjectRow) (j : JobRow) :
    Option NoWork → Option NoWork := fun reason =>
  let need := j.spec.spec.resources
  let reason := if !p.enabled || !quotaAdmits s j.project p need then some .projectQuota else reason
  let reason := if !sweepAdmits s j then some .sweepConcurrency else reason
  let reason := if !need.fits w.free || decide (w.slots < 1) then some .noResourceFit else reason
  if !placementMatches w.row.labels j.spec.spec.placementLabels then some .placementMismatch
  else reason

/-- The attempt row an assignment inserts. -/
def newAttempt (now : Time) (worker session job : Uuid) (j : JobRow) : AttemptRow where
  job := job
  number := j.attemptCounter + 1
  worker := worker
  session := session
  generation := j.attemptCounter + 1
  state := .assigned
  leaseExpiresAt := now + initialLease
  phaseDeadline := now + seconds j.spec.spec.timeouts.startupSeconds
  exitCode := none
  reason := none
  completionID := none
  completionDigest := none
  cleanupPending := false
  createdAt := now
  finishedAt := none
  containerID := none

/-- **The writes of an assignment**: attempt, reservation, job pointer, event
and rotation. -/
def assignJob (s : Store) (now : Time) (worker session attempt job : Uuid) (j : JobRow) :
    Except StoreError Store := do
  let attempts ←
    orThrow (s.attempts.insertNew attempt (newAttempt now worker session job j)) .database
  let reservations ← orThrow (s.reservations.insertNew attempt
    ⟨worker, j.spec.spec.resources, .active⟩) .database
  let owned := { s with
    attempts := attempts
    reservations := reservations
    jobs := s.jobs.modify job (fun j => { j with
      state := .active
      currentAttempt := some attempt
      attemptCounter := j.attemptCounter + 1 })
    projectCursor := some j.project }
  owned.appendEvent now job (some attempt) (.assigned worker session (j.attemptCounter + 1))

/-- The checks and writes after a job was selected and locked. -/
def tryAssign (s : Store) (now : Time) (worker : Uuid) (request : AcquisitionRequest)
    (policy : AcquisitionPolicy) (attempt job : Uuid) (selected : Option NoWork) :
    Except StoreError (Store × (Option WorkAssignment) × Option NoWork) := do
  let j ← orThrow (s.jobs.lookup job) .database
  require j.spec.isValid .invalid
  let w ← readAcquisitionWorker s worker request.sessionID
  let p ← orThrow (s.projects.lookup j.project) .database
  -- The selection joins the sweep loosely; here a missing row fails the scan.
  require (∀ x ∈ j.sweep, (s.sweeps.lookup x.1).isSome) .database
  let reason := recheckReason s w p j selected
  let reason := (w.readiness now policy) <|> reason
  let reason := if !j.state.isQueued || j.cancelRequested || decide (now < j.nextEligibleAt) then
    some NoWork.queueEmpty else reason
  match reason with
  | some r => pure (s, none, some r)
  | none =>
    require ((j.attemptCounter : ℤ) < j.spec.spec.retry.maxAttempts ∧
      pinnedImage j.spec.spec.image) .invalid
    require (j.spec.canonical = j.specHash) .invalid
    let inputs ← loadJobInputs s j.project job j.spec.spec.inputs
    let assigned ← assignJob s now worker request.sessionID attempt job j
    pure (assigned, some
      { authority := ⟨job, attempt, j.attemptCounter + 1, worker, request.sessionID⟩
        job := j.spec
        inputs := inputs
        canonicalSpec := j.spec.canonical
        specHash := j.specHash
        leaseExpiresAt := now + initialLease
        phaseDeadline := now + seconds j.spec.spec.timeouts.startupSeconds
        serverTime := now }, none)

/-- An attempt assigned earlier, with the authority it still has. -/
def replayAssignment (s : Store) (now : Time) (worker session attempt : Uuid) :
    Except StoreError AcquisitionResult := do
  let a ← orThrow (s.attempts.lookup attempt) .database
  let j ← orThrow (s.jobs.lookup a.job) .database
  let _ ← readAcquisitionWorker s worker session
  require (a.worker = worker ∧ a.session = session) .fenced
  if !a.state.isActive then pure (.decided .alreadyTerminal)
  else if j.currentAttempt ≠ some attempt ∨ ¬ now < a.leaseExpiresAt then pure (.decided .fenced)
  else if j.cancelRequested ∨ ¬ now < a.phaseDeadline then pure (.decided .stopRequested)
  else
    require (j.spec.isValid ∧ j.spec.canonical = j.specHash) .invalid
    let inputs ← loadJobInputs s j.project a.job j.spec.spec.inputs
    pure (.assignment
      { authority := a.authority attempt
        job := j.spec
        inputs := inputs
        canonicalSpec := j.spec.canonical
        specHash := j.specHash
        leaseExpiresAt := a.leaseExpiresAt
        phaseDeadline := a.phaseDeadline
        serverTime := now })

/-- **An acquisition.** `observed` and `queueNow` are the earlier clock
samples of the readiness check and of the selection; `attempt` is the fresh
attempt id. The selection reads the store that the assignment is checked in. In
the database it may read an older one: what `tryAssign` does is therefore stated
for every job, however it was selected. -/
def acquireWork (s : Store) (observed queueNow now : Time) (id : WorkerIdentity)
    (request : AcquisitionRequest) (policy : AcquisitionPolicy) (attempt : Uuid) :
    Except StoreError (Store × AcquisitionResult) := do
  require (canonicalUUID id.workerID ∧ canonicalUUID id.credentialID) .unauthorized
  require (canonicalUUID request.sessionID ∧ canonicalUUID request.requestID) .invalid
  authorizeWorkerTx s id
  let key := (id.workerID, request.sessionID, request.requestID)
  match s.workerRequests.lookup key with
  | some ⟨.inl saved⟩ =>
    let result ← replayAssignment s now id.workerID request.sessionID saved
    pure (s, result)
  | some ⟨.inr reason⟩ =>
    let _ ← readAcquisitionWorker s id.workerID request.sessionID
    pure (s, .noWork reason)
  | none =>
    let w ← readAcquisitionWorker s id.workerID request.sessionID
    let selection : AcquisitionSelection := match w.readiness observed policy with
      | some reason => ⟨none, some reason, []⟩
      | none => selectAcquisitionCandidate s id.workerID w queueNow
    let sampled ← selection.blockers.foldlM
      (fun s b => recordQueueBlocker s id.workerID request queueNow b) s
    match selection.job with
    | none =>
      let w ← readAcquisitionWorker sampled id.workerID request.sessionID
      let reason := ((w.readiness now policy) <|> selection.reason).getD .queueEmpty
      pure ({ sampled with
        workerRequests := AList.insert key ⟨.inr reason⟩ sampled.workerRequests }, .noWork reason)
    | some job =>
      let (assigned, assignment, reason) ←
        tryAssign sampled now id.workerID request policy attempt job selection.reason
      match assignment with
      | some a => pure ({ assigned with
          workerRequests := AList.insert key ⟨.inl attempt⟩ assigned.workerRequests },
          .assignment a)
      | none =>
        let reason := reason.getD .queueEmpty
        pure ({ assigned with
          workerRequests := AList.insert key ⟨.inr reason⟩ assigned.workerRequests },
          .noWork reason)

/-- **A new assignment**: the checks its job passed under the locks. -/
structure Assignable (s : Store) (now : Time) (worker : Uuid) (request : AcquisitionRequest)
    (policy : AcquisitionPolicy) (job : Uuid) (j : JobRow) (w : AcquisitionWorker)
    (p : ProjectRow) : Prop where
  found : s.jobs.lookup job = some j
  valid : j.spec.isValid = true
  host : readAcquisitionWorker s worker request.sessionID = .ok w
  project : s.projects.lookup j.project = some p
  sweep : ∀ x ∈ j.sweep, (s.sweeps.lookup x.1).isSome = true
  enabled : p.enabled = true
  quota : quotaAdmits s j.project p j.spec.spec.resources = true
  concurrency : sweepAdmits s j = true
  fits : j.spec.spec.resources.fits w.free = true
  slot : 1 ≤ w.slots
  ready : w.readiness now policy = none
  queued : j.state.isQueued = true
  uncancelled : j.cancelRequested = false
  eligible : j.nextEligibleAt ≤ now
  budget : (j.attemptCounter : ℤ) < j.spec.spec.retry.maxAttempts

/-- No reason to refuse is left by the locked recheck. -/
theorem recheckReason_eq_none {w : AcquisitionWorker} {p : ProjectRow} {j : JobRow}
    {reason : Option NoWork} (h : recheckReason s w p j reason = none) :
    p.enabled = true ∧ quotaAdmits s j.project p j.spec.spec.resources = true ∧
      sweepAdmits s j = true ∧ j.spec.spec.resources.fits w.free = true ∧ 1 ≤ w.slots := by
  simp only [recheckReason] at h
  split_ifs at h with hplacement hfits hsweep hquota
  simp only [Bool.or_eq_true, Bool.not_eq_true', decide_eq_true_eq, not_or, Bool.not_eq_false,
    not_lt] at hfits hsweep hquota
  exact ⟨hquota.1, hquota.2, hsweep, hfits.1, hfits.2⟩

/-- **What the locked recheck does**: it refuses and changes nothing, or
assigns. -/
theorem tryAssign_cases {now : Time} {policy : AcquisitionPolicy} {attempt job : Uuid}
    {selected reason : Option NoWork} {assignment : Option WorkAssignment}
    (h : tryAssign s now worker request policy attempt job selected
      = .ok (s', assignment, reason)) :
    s' = s ∧ assignment = none ∨ ∃ j w p inputs,
      Assignable s now worker request policy job j w p ∧
      loadJobInputs s j.project job j.spec.spec.inputs = .ok inputs ∧
      assignJob s now worker request.sessionID attempt job j = .ok s' ∧
      assignment = some
        { authority := ⟨job, attempt, j.attemptCounter + 1, worker, request.sessionID⟩
          job := j.spec
          inputs := inputs
          canonicalSpec := j.spec.canonical
          specHash := j.specHash
          leaseExpiresAt := now + initialLease
          phaseDeadline := now + seconds j.spec.spec.timeouts.startupSeconds
          serverTime := now } := by
  simp only [tryAssign, bind_ok, orThrow_ok, require_ok] at h
  obtain ⟨j, hj, _, hvalid, w, hw, p, hp, _, hsweep, h⟩ := h
  split at h
  · obtain ⟨rfl, hrest⟩ := pure_pair_ok.mp h
    exact .inl ⟨rfl, (congrArg Prod.fst hrest).symm⟩
  · rename_i hreason
    simp only [bind_ok, require_ok, pure_pair_ok] at h
    obtain ⟨_, ⟨hbudget, -⟩, _, -, inputs, hinputs, assigned, hassigned, rfl, rfl, -⟩ := h
    split_ifs at hreason with hgone
    rw [Option.orElse_eq_orElse, Option.orElse_eq_or, Option.or_eq_none_iff] at hreason
    simp only [Bool.or_eq_true, Bool.not_eq_true', decide_eq_true_eq, not_or, Bool.not_eq_false,
      Bool.not_eq_true] at hgone
    obtain ⟨henabled, hquota, hconcurrency, hfits, hslot⟩ := recheckReason_eq_none hreason.2
    exact .inr ⟨j, w, p, inputs, ⟨hj, hvalid, hw, hp, hsweep, henabled, hquota, hconcurrency, hfits,
      hslot, hreason.1, hgone.1.1, hgone.1.2, not_lt.mp hgone.2, hbudget⟩, hinputs, hassigned, rfl⟩

/-- The store with other observations of blocked jobs. -/
def Store.observing (s : Store) (blockers : Table (Uuid × ℕ) BlockerRow) (sequence : ℕ) : Store :=
  { s with blockers := blockers, blockerSequence := sequence }

theorem Store.observing_blockers (blockers : Table (Uuid × ℕ) BlockerRow) (sequence : ℕ) :
    (s.observing blockers sequence).blockers = blockers := rfl

/-- The key of the request a note was taken under. -/
def BlockerRow.key (b : BlockerRow) : Uuid × Uuid × Uuid := (b.worker, b.session, b.request)

/-- **What an observation does**: nothing if the job's note of the request is
still there, and else it draws an id and takes a slot. -/
theorem recordQueueBlocker_cases {job : Uuid} {reason : NoWork}
    (h : recordQueueBlocker s worker request observedAt (job, reason) = .ok s') :
    ((∃ slot b, s.blockers.lookup (job, slot) = some b ∧
      b.key = (worker, request.sessionID, request.requestID)) ∧ s' = s) ∨
    (∀ slot b, s.blockers.lookup (job, slot) = some b →
      b.key ≠ (worker, request.sessionID, request.requestID)) ∧
    ∃ j, s.jobs.lookup job = some j ∧ s' = s.observing (AList.insert (job, blockerSlot s job)
      ⟨s.blockerSequence + 1, worker, request.sessionID, request.requestID,
        j.attemptCounter, reason, observedAt⟩ s.blockers) (s.blockerSequence + 1) := by
  simp only [recordQueueBlocker, bind_ok] at h
  obtain ⟨-, -, h⟩ := h
  split at h
  · rename_i k saved rest hsaved
    simp only [bind_ok, pure_ok] at h
    obtain ⟨-, -, rfl⟩ := h
    have hmem := List.mem_cons_self (a := (k, saved)) (l := rest)
    rw [← hsaved, Table.mem_select] at hmem
    obtain ⟨hlookup, hkey⟩ := hmem
    simp only [Bool.and_eq_true, decide_eq_true_eq] at hkey
    obtain ⟨⟨⟨rfl, rfl⟩, hsession⟩, hrequest⟩ := hkey
    exact .inl ⟨⟨k.2, saved, hlookup, by rw [BlockerRow.key, hsession, hrequest]⟩, rfl⟩
  · rename_i hnone
    simp only [bind_ok, orThrow_ok, pure_ok] at h
    obtain ⟨j, hj, -, -, rfl⟩ := h
    refine .inr ⟨fun slot b hb hkey => ?_, j, hj, rfl⟩
    obtain ⟨hworker, hsession, hrequest⟩ : b.worker = worker ∧ b.session = request.sessionID ∧
        b.request = request.requestID := by simpa [BlockerRow.key] using hkey
    refine List.not_mem_nil (hnone ▸ (Table.mem_select s.blockers _ (job, slot) b).mpr ⟨hb, ?_⟩)
    simp [hworker, hsession, hrequest]

/-- An observation touches nothing but the observations. -/
theorem recordQueueBlocker_eq_ok {blocker : Uuid × NoWork}
    (h : recordQueueBlocker s worker request observedAt blocker = .ok s') :
    ∃ blockers sequence, s' = s.observing blockers sequence := by
  obtain ⟨-, rfl⟩ | ⟨-, j, -, rfl⟩ := recordQueueBlocker_cases h
  · exact ⟨s'.blockers, s'.blockerSequence, rfl⟩
  · exact ⟨_, _, rfl⟩

theorem recordQueueBlockers_eq_ok {l : List (Uuid × NoWork)}
    (h : l.foldlM (fun s b => recordQueueBlocker s worker request observedAt b) s = .ok s') :
    ∃ blockers sequence, s' = s.observing blockers sequence := by
  refine foldlM_invariant (fun t => ∃ blockers sequence, t = s.observing blockers sequence)
    ⟨s.blockers, s.blockerSequence, rfl⟩ ?_ h
  rintro _ b t' - ⟨blockers, sequence, rfl⟩ hturn
  obtain ⟨blockers', sequence', rfl⟩ := recordQueueBlocker_eq_ok hturn
  exact ⟨blockers', sequence', rfl⟩

/-- The store with the notes a request took of some jobs. -/
def Store.Noted (s : Store) (worker : Uuid) (request : AcquisitionRequest) (s' : Store) : Prop :=
  ∃ (observedAt : Time) (l : List (Uuid × NoWork)),
    l.foldlM (fun s b => recordQueueBlocker s worker request observedAt b) s = .ok s'

/-- **What an acquisition does**: it repeats an earlier answer and changes
nothing, or answers for the first time, with work or without. -/
inductive Acquired (s : Store) (now : Time) (id : WorkerIdentity) (request : AcquisitionRequest)
    (policy : AcquisitionPolicy) (attempt : Uuid) : Store → AcquisitionResult → Prop where
  | replayed (saved : Uuid) (result : AcquisitionResult)
      (hkey : s.workerRequests.lookup (id.workerID, request.sessionID, request.requestID)
        = some ⟨.inl saved⟩)
      (h : replayAssignment s now id.workerID request.sessionID saved = .ok result) :
      Acquired s now id request policy attempt s result
  | repeated (reason : NoWork)
      (hkey : s.workerRequests.lookup (id.workerID, request.sessionID, request.requestID)
        = some ⟨.inr reason⟩) :
      Acquired s now id request policy attempt s (.noWork reason)
  | refused (blockers : Table (Uuid × ℕ) BlockerRow) (sequence : ℕ) (reason : NoWork)
      (hkey : s.workerRequests.lookup (id.workerID, request.sessionID, request.requestID) = none)
      (hnotes : s.Noted id.workerID request (s.observing blockers sequence)) :
      Acquired s now id request policy attempt { s.observing blockers sequence with
        workerRequests := AList.insert (id.workerID, request.sessionID, request.requestID)
          ⟨.inr reason⟩ s.workerRequests } (.noWork reason)
  | assigned (blockers : Table (Uuid × ℕ) BlockerRow) (sequence : ℕ) (assigned : Store) (job : Uuid)
      (j : JobRow) (w : AcquisitionWorker) (p : ProjectRow) (inputs : List JobInputBinding)
      (hkey : s.workerRequests.lookup (id.workerID, request.sessionID, request.requestID) = none)
      (hnotes : s.Noted id.workerID request (s.observing blockers sequence))
      (h : Assignable (s.observing blockers sequence) now id.workerID request policy job j w p)
      (hinputs : loadJobInputs (s.observing blockers sequence) j.project job j.spec.spec.inputs
        = .ok inputs)
      (hassigned : assignJob (s.observing blockers sequence) now id.workerID request.sessionID
        attempt job j = .ok assigned) :
      Acquired s now id request policy attempt { assigned with
        workerRequests := AList.insert (id.workerID, request.sessionID, request.requestID)
          ⟨.inl attempt⟩ assigned.workerRequests }
        (.assignment
          { authority := ⟨job, attempt, j.attemptCounter + 1, id.workerID, request.sessionID⟩
            job := j.spec
            inputs := inputs
            canonicalSpec := j.spec.canonical
            specHash := j.specHash
            leaseExpiresAt := now + initialLease
            phaseDeadline := now + seconds j.spec.spec.timeouts.startupSeconds
            serverTime := now })

theorem acquireWork_acquired {observed queueNow now : Time} {id : WorkerIdentity}
    {policy : AcquisitionPolicy} {attempt : Uuid} {result : AcquisitionResult}
    (h : acquireWork s observed queueNow now id request policy attempt = .ok (s', result)) :
    Acquired s now id request policy attempt s' result := by
  simp only [acquireWork, bind_ok] at h
  obtain ⟨-, -, -, -, -, -, h⟩ := h
  split at h
  · rename_i saved hkey
    simp only [bind_ok, pure_pair_ok] at h
    obtain ⟨result, hresult, rfl, rfl⟩ := h
    exact .replayed saved result hkey hresult
  · rename_i reason hkey
    simp only [bind_ok, pure_pair_ok] at h
    obtain ⟨_, -, rfl, rfl⟩ := h
    exact .repeated reason hkey
  · rename_i hkey
    simp only [bind_ok] at h
    obtain ⟨w, -, sampled, hblockers, h⟩ := h
    obtain ⟨blockers, sequence, rfl⟩ := recordQueueBlockers_eq_ok hblockers
    have hnotes : s.Noted id.workerID request (s.observing blockers sequence) := ⟨_, _, hblockers⟩
    split at h
    · simp only [bind_ok, pure_pair_ok] at h
      obtain ⟨_, -, rfl, rfl⟩ := h
      exact .refused blockers sequence _ hkey hnotes
    · simp only [bind_ok] at h
      obtain ⟨⟨assigned, assignment, reason⟩, htry, h⟩ := h
      obtain ⟨rfl, rfl⟩ | ⟨j, w, p, inputs, hassignable, hinputs, hassigned, rfl⟩ :=
        tryAssign_cases htry
      · obtain ⟨rfl, rfl⟩ := pure_pair_ok.mp h
        exact .refused blockers sequence _ hkey hnotes
      · obtain ⟨rfl, rfl⟩ := pure_pair_ok.mp h
        exact .assigned blockers sequence assigned _ j w p inputs hkey hnotes hassignable hinputs
          hassigned

/-! ## Listing -/

/-- A page of the assignments of a session. -/
structure AssignmentPage where
  assignments : List WorkAssignment
  nextAfterJobID : Option Uuid
  deriving DecidableEq

/-- The largest number of assignments on a page. -/
def maxAssignmentPageSize : ℕ := 64

/-- The largest size of a page, as estimated. -/
def assignmentPageBudget : ℕ := 4 * 1024 * 1024 - 64 * 1024

/-- `DatasetManifest`, in the order of its fields. -/
def DatasetManifest.toJson (m : DatasetManifest) : Json :=
  .obj [("format", .str m.format), ("files", .arr (m.files.map (fun f =>
    Json.obj [("path", .str f.path), ("sizeBytes", intJson f.sizeBytes),
      ("sha256", .str f.sha256)])))]

/-- The estimate of an assignment's size. -/
def assignmentBudgetBytes (a : WorkAssignment) : ℕ :=
  2 * Json.size goStyle a.canonicalSpec.toJson + 1024 +
    (a.inputs.map (fun i => Json.size goStyle i.dataset.manifest.toJson + 64 * 1024 + 1024)).sum

/-- The page loop: candidates that lost their authority still advance the
cursor; a page that is full ends the scan before the candidate that did not
fit. -/
def fillPage (s : Store) (now : Uuid → Time) (worker session : Uuid) (last : Option Uuid)
    (bytes : ℕ) (page : List WorkAssignment) (more : Bool) :
    List (Uuid × Uuid) → Except StoreError AssignmentPage
  | [] => pure ⟨page, if more then last else none⟩
  | (job, attempt) :: rest => do
    match ← replayAssignment s (now attempt) worker session attempt with
    | .assignment a =>
      let size := assignmentBudgetBytes a
      if page ≠ [] ∧ assignmentPageBudget < bytes + size then pure ⟨page, last⟩
      else fillPage s now worker session (some job) (bytes + size) (page ++ [a]) more rest
    | _ => fillPage s now worker session (some job) bytes page more rest

/-- **The assignments of a session, one page.** `now` gives the clock sample
taken for each attempt. -/
def listAssignments (s : Store) (now : Uuid → Time) (id : WorkerIdentity) (session : Uuid)
    (after : Option Uuid) (pageSize : ℕ) : Except StoreError AssignmentPage := do
  require (canonicalUUID id.workerID ∧ canonicalUUID id.credentialID) .unauthorized
  require (canonicalUUID session ∧ (∀ a ∈ after, canonicalUUID a) ∧
    pageSize ≤ maxAssignmentPageSize) .invalid
  let size := if pageSize = 0 then 32 else pageSize
  authorizeWorkerTx s id
  let references := ((s.attempts.select (fun _ a => decide (a.worker = id.workerID) &&
      decide (a.session = session) && a.state.isActive &&
      (match after with
        | none => true
        | some j => decide (j < a.job)))).map (fun x => (x.2.job, x.1))).insertionSort
        (fun x y => x.1 ≤ y.1)
  let _ ← readAcquisitionWorker s id.workerID session
  let taken := references.take (size + 1)
  fillPage s now id.workerID session after 0 [] (decide (size < taken.length)) (taken.take size)

end Dispatch
