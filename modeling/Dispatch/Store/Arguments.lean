import Dispatch.Spec.Sizes
import Dispatch.Store.Runs

/-!
# The sample run under any arguments

The control plane never looks at the arguments of a job: it validates them,
bounds the size of the document and stores it. So the small run, from the
submission to the end of the container, is the same run for every list of
arguments that is valid and fits the column, and its states are written out
here with the list as a parameter. A document too large to be evaluated is run
this way.
-/

namespace Dispatch

open Txn

namespace Sample

variable (args : List String)

/-- The row of the job when it is submitted. -/
def submissionWith : JobRow := newSubmission second 1 (job.withArgs args) none

/-- A worker is ready and the job is queued. -/
def queuedWith : World where
  store := { world.store with
    workers := assignedWorld.store.workers
    sessions := assignedWorld.store.sessions
    registrations := assignedWorld.store.registrations
    jobs := AList.insert 1 (submissionWith args) ∅
    events := AList.insert (1, 1) ⟨none, .submitted (job.withArgs args) none, second⟩ ∅
    idempotency := assignedWorld.store.idempotency }
  clock := second

/-- The row of the job while the attempt runs. -/
def activeWith (sequence : ℕ) : JobRow :=
  { submissionWith args with
    state := .active
    currentAttempt := some 1
    attemptCounter := 1
    eventSequence := sequence }

/-- The job is assigned as attempt 1 of session 1. -/
def assignedWith : World where
  store := { (queuedWith args).store with
    jobs := AList.insert 1 (activeWith args 2) ∅
    attempts := AList.insert 1 (newAttempt second 1 1 1 (submissionWith args)) ∅
    reservations := assignedWorld.store.reservations
    events := AList.insert (1, 2) ⟨some 1, .assigned 1 1 1, second⟩ (queuedWith args).store.events
    workerRequests := assignedWorld.store.workerRequests
    projectCursor := some 1 }
  clock := second

/-- The attempt in a phase. -/
def attemptWith (state : AttemptState) (containerID : Option String) (exitCode : Option ℤ)
    (deadline : Time) : AttemptRow :=
  { newAttempt second 1 1 1 (submissionWith args) with
    state := state
    containerID := containerID
    exitCode := exitCode
    phaseDeadline := deadline }

/-- The attempt has entered a phase. -/
def phasedWith (a : AttemptRow) (sequence : ℕ) (events : Table (Uuid × ℕ) EventRow)
    (reports : Table (Uuid × Uuid × Uuid) PhaseClaims) : World where
  store := { (assignedWith args).store with
    jobs := AList.insert 1 (activeWith args sequence) ∅
    attempts := AList.insert 1 a ∅
    events := events
    phaseReports := reports }
  clock := second

/-- A report of attempt 1. -/
def reported (event : Uuid) (phase : AttemptState) (containerID : String) (exitCode : Option ℤ) :
    PhaseReport := ⟨event, ⟨⟨1, 1, 1, 1, 1⟩, phase, containerID, exitCode⟩⟩

/-- The container is to be started. -/
def startingWith : World :=
  phasedWith args (attemptWith args .starting none none (second + seconds 300)) 3
    (AList.insert (1, 3) ⟨some 1, .phaseChanged .assigned .starting (second + seconds 300) "" none,
      second⟩ (assignedWith args).store.events)
    (AList.insert (1, 1, 1) (reported 1 .starting "" none).claims ∅)

/-- It runs. -/
def runningWith : World :=
  phasedWith args (attemptWith args .running (some container) none (second + seconds 600)) 4
    (AList.insert (1, 4) ⟨some 1, .phaseChanged .starting .running (second + seconds 600) container
      none, second⟩ (startingWith args).store.events)
    (AList.insert (1, 1, 2) (reported 2 .running container none).claims
      (startingWith args).store.phaseReports)

/-- It has ended with exit code zero. -/
def finalizingWith : World :=
  phasedWith args (attemptWith args .finalizing (some container) (some 0) (second + seconds 300)) 5
    (AList.insert (1, 5) ⟨some 1, .phaseChanged .running .finalizing (second + seconds 300)
      container (some 0), second⟩ (runningWith args).store.events)
    (AList.insert (1, 1, 3) (reported 3 .finalizing container (some 0)).claims
      (runningWith args).store.phaseReports)

/-- The run without a job yet. -/
def seatedWorld : World where
  store := { world.store with
    workers := assignedWorld.store.workers
    sessions := assignedWorld.store.sessions
    registrations := assignedWorld.store.registrations }
  clock := second

theorem run_seated : world.run sha (seated 1 second) = .ok seatedWorld :=
  toOption_eq_some.mp (by decide +kernel)

theorem seated_reachable : Reachable sha seatedWorld := world_reachable.run run_seated

section

variable {args} (hvalid : (job.withArgs args).isValid = true)
  (hfits : (job.withArgs args).fitsColumn = true)

include hvalid hfits in
theorem submitted_with : submitJobResolved seatedWorld.store second 1 "k"
    (String.ofList (List.replicate 64 '0')) (job.withArgs args) []
      = .ok ((queuedWith args).store,
        (submissionWith args).record (queuedWith args).store 1 false) := by
  have hkey : validKey "k" = true ∧ hashPattern (String.ofList (List.replicate 64 '0')) = true := by
    decide +kernel
  have hresolved : resolved (job.withArgs args) [] = true := by
    show (pinnedImage image && true && true) = true
    decide +kernel
  have hnamed : projectNamed seatedWorld.store (job.withArgs args).metadata.project
      = some (1, ⟨"p", 4000, 4096, 4, true⟩) := by
    show projectNamed seatedWorld.store "p" = _
    decide +kernel
  have hinsert : (1 : Uuid) ≠ 0 ∧
      (newSubmission second 1 (job.withArgs args) none).spec.fitsColumn = true := ⟨by decide, hfits⟩
  simp only [submitJobResolved, require_of hkey, require_of hvalid, require_of hresolved, ok_bind,
    hnamed, orThrow_some, Store.insertJob, require_of hinsert]
  rfl

include hvalid hfits in
theorem queuedWith_reachable : Reachable sha (queuedWith args) := by
  have hexec : Op.exec sha seatedWorld.store second (.submitJob 1 "k"
      (String.ofList (List.replicate 64 '0')) (job.withArgs args) [])
        = .ok ((queuedWith args).store,
          .job ((submissionWith args).record (queuedWith args).store 1 false)) := by
    rw [Op.exec, submitted_with hvalid hfits]
    rfl
  exact seated_reachable.step ⟨Nat.le_refl _, _, _, hexec⟩

/-- What the worker is told. -/
def assignment (args : List String) : WorkAssignment where
  authority := ⟨1, 1, 1, 1, 1⟩
  job := job.withArgs args
  inputs := []
  canonicalSpec := job.withArgs args
  specHash := job.withArgs args
  leaseExpiresAt := second + initialLease
  phaseDeadline := second + seconds 300
  serverTime := second

include hvalid in
theorem acquired_with : acquireWork (queuedWith args).store second second second identity ⟨1, 1⟩
    ⟨false⟩ 1 = .ok ((assignedWith args).store, .assignment (assignment args)) := by
  have hids : canonicalUUID identity.workerID = true ∧ canonicalUUID identity.credentialID
      = true := by
    decide
  have hrequest : canonicalUUID (1 : Uuid) = true ∧ canonicalUUID (1 : Uuid) = true := by decide
  have hauthorized : authorizeWorkerTx (queuedWith args).store identity = .ok () := rfl
  have hkey : (queuedWith args).store.workerRequests.lookup (identity.workerID, 1, 1) = none := rfl
  have hselected : ∃ w, readAcquisitionWorker (queuedWith args).store identity.workerID 1 = .ok w ∧
      w.readiness second ⟨false⟩ = none ∧
      selectAcquisitionCandidate (queuedWith args).store identity.workerID w second
        = ⟨some 1, none, []⟩ ∧
      recheckReason (queuedWith args).store w ⟨"p", 4000, 4096, 4, true⟩ (submissionWith args) none
        = none := ⟨_, rfl, rfl, rfl, rfl⟩
  obtain ⟨w, hworker, hready, hselected, hrecheck⟩ := hselected
  have hassigned : tryAssign (queuedWith args).store second identity.workerID ⟨1, 1⟩ ⟨false⟩ 1 1
      none = .ok ({ (assignedWith args).store with workerRequests := ∅ },
        some (assignment args), none) := by
    have hfound : (queuedWith args).store.jobs.lookup 1 = some (submissionWith args) := rfl
    have hstored : (submissionWith args).spec.isValid = true := hvalid
    have hproject : (queuedWith args).store.projects.lookup (submissionWith args).project
        = some ⟨"p", 4000, 4096, 4, true⟩ := rfl
    have hsweep : ∀ x ∈ (submissionWith args).sweep,
        ((queuedWith args).store.sweeps.lookup x.1).isSome = true := by
      intro x hx
      cases hx
    have hbudget : ((submissionWith args).attemptCounter : ℤ)
        < (submissionWith args).spec.spec.retry.maxAttempts ∧
        pinnedImage (submissionWith args).spec.spec.image = true := by
      show ((0 : ℕ) : ℤ) < 2 ∧ pinnedImage image = true
      decide +kernel
    have hcanonical : (submissionWith args).spec.canonical = (submissionWith args).specHash := rfl
    simp only [tryAssign, hfound, orThrow_some, ok_bind, require_of hstored, hworker, hproject,
      require_of hsweep, hready, hrecheck]
    show (require _ _ >>= _) = _
    simp only [require_of hbudget, require_of hcanonical, ok_bind]
    rfl
  simp only [acquireWork, require_of hids, require_of hrequest, ok_bind, hauthorized, hkey, hworker,
    hready, hselected, List.foldlM_nil]
  show (tryAssign _ _ _ _ _ _ _ _ >>= _) = _
  rw [hassigned]
  rfl

include hvalid hfits in
theorem assignedWith_reachable : Reachable sha (assignedWith args) := by
  have hexec : Op.exec sha (queuedWith args).store second
      (.acquire second second identity ⟨1, 1⟩ ⟨false⟩ 1)
        = .ok ((assignedWith args).store, .acquisition (.assignment (assignment args))) := by
    rw [Op.exec, acquired_with hvalid]
    rfl
  exact (queuedWith_reachable hvalid hfits).step ⟨Nat.le_refl _, _, _, hexec⟩

include hvalid hfits in
/-- The worker reports its three phases. -/
theorem finalizingWith_reachable : Reachable sha (finalizingWith args) := by
  have hstep : ∀ {s s' : Store} {r : PhaseReport} {result : MutationResult},
      Reachable sha ⟨s, second⟩ → reportPhase s s second identity r = .ok (s', result) →
      Reachable sha ⟨s', second⟩ := by
    intro s s' r result hreach hreport
    have hexec : Op.exec sha s second (.phase s identity r) = .ok (s', .mutation result) := by
      rw [Op.exec, hreport]
      rfl
    exact hreach.step ⟨Nat.le_refl _, _, _, hexec⟩
  have hstarting : Reachable sha (startingWith args) := by
    have howned : ownedAttempt (assignedWith args).store (assignedWith args).store identity
        ⟨1, 1, 1, 1, 1⟩
          = .ok (some (attemptWith args .assigned none none (second + seconds 300))) := rfl
    have hjob : (assignedWith args).store.jobs.lookup 1 = some (activeWith args 2) := rfl
    have hreport : (reported 1 .starting "" none).validate identity.workerID = .ok () := rfl
    exact hstep (assignedWith_reachable hvalid hfits)
      (reportPhase_enters (by decide) hreport howned hjob hvalid rfl rfl rfl
        (show AttemptState.assigned ≠ .starting by decide) rfl)
  have hrunning : Reachable sha (runningWith args) := by
    have howned : ownedAttempt (startingWith args).store (startingWith args).store identity
        ⟨1, 1, 1, 1, 1⟩
          = .ok (some (attemptWith args .starting none none (second + seconds 300))) := rfl
    have hjob : (startingWith args).store.jobs.lookup 1 = some (activeWith args 3) := rfl
    have hreport : (reported 2 .running container none).validate identity.workerID = .ok () :=
      toOption_eq_some.mp (by decide +kernel)
    exact hstep hstarting
      (reportPhase_enters (by decide) hreport howned hjob hvalid rfl rfl rfl
        (show AttemptState.starting ≠ .running by decide) rfl)
  have howned : ownedAttempt (runningWith args).store (runningWith args).store identity
      ⟨1, 1, 1, 1, 1⟩
        = .ok (some (attemptWith args .running (some container) none (second + seconds 600))) := rfl
  have hjob : (runningWith args).store.jobs.lookup 1 = some (activeWith args 4) := rfl
  have hreport : (reported 3 .finalizing container (some 0)).validate identity.workerID = .ok () :=
    toOption_eq_some.mp (by decide +kernel)
  exact hstep hrunning
    (reportPhase_enters (by decide) hreport howned hjob hvalid rfl rfl rfl
      (show AttemptState.running ≠ .finalizing by decide) rfl)

end

end Sample

end Dispatch
