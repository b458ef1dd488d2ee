import Dispatch.Store.Entries

/-!
# Which tables a transaction writes

`Op.exec_writes` says once that a transaction writes the tables of its footprint
and no other: what a promise needs to know about the transactions that do not
concern it is then a membership in a short list.

The footprint of a helper is that of its writes, whatever it checks. A
transaction that fails writes nothing and is not spoken of.
-/

namespace Dispatch

open Txn

variable {id : WorkerIdentity} {seen : Store} {job worker attempt project : Uuid}
  {bindings : List DatasetBinding} {key : String}

variable {ts us : List TableName} {s s' s'' : Store} {sha : Uuid → ℕ} {now : Time}

/-! ## Helpers -/

theorem applySweepFailFast_writes {failed : Uuid} (h : applySweepFailFast s now failed = .ok s') :
    Writes [.jobs, .events] s s' := by
  unfold applySweepFailFast at h
  split at h
  · obtain rfl := pure_ok.mp h
    exact .refl _ s
  · simp only [bind_ok, pure_ok] at h
    obtain ⟨events, -, rfl⟩ := h
    rintro (_ | _) ht <;> first | rfl | exact absurd (by decide) ht

/-- The rows that end an attempt, the event and the stop of the sweep. -/
theorem endAttempt_writes {logged : Store} {attempt : Option Uuid} {body : EventBody}
    {next : JobState} {attempts : Table Uuid AttemptRow} {reservations : Table Uuid ReservationRow}
    {jobs : Table Uuid JobRow} (hlogged : Store.appendEvent { s with
      attempts := attempts, reservations := reservations, jobs := jobs } now job attempt body
      = .ok logged)
    (hlast : (if next = .failed then applySweepFailFast logged now job else pure logged) = .ok s') :
    Writes endTables s s' := by
  have hrows : Writes endTables s { s with
      attempts := attempts, reservations := reservations, jobs := jobs } := by
    rintro (_ | _) ht <;> first | rfl | exact absurd (by decide) ht
  have hfiled := hrows.trans ((appendEvent_writes hlogged).mono (by decide))
  split_ifs at hlast
  · exact hfiled.trans ((applySweepFailFast_writes hlast).mono (by decide))
  · obtain rfl := pure_ok.mp hlast
    exact hfiled

theorem fenceLostAttempt_writes (h : fenceLostAttempt sha s now job attempt = .ok s') :
    Writes endTables s s' := by
  simp only [fenceLostAttempt, settleReservation, bind_ok, pure_ok] at h
  obtain ⟨j, -, -, -, a, -, -, -, _, ⟨r, -, -, -, rfl⟩, logged, hlogged, hlast⟩ := h
  exact endAttempt_writes hlogged hlast

theorem finishAttempt_writes {completed : Time} {r : CompletionRequest} {p : CompletionPayload}
    {out : CompletionOutcome} {m : ResultManifest}
    (h : finishAttempt s completed now r p out m = .ok s') : Writes endTables s s' := by
  simp only [finishAttempt, settleReservation, bind_ok, pure_ok] at h
  obtain ⟨_, ⟨res, -, -, -, rfl⟩, logged, hlogged, hlast⟩ := h
  exact endAttempt_writes hlogged hlast

theorem insertJob_writes {id : Uuid} {row : JobRow} {parent : Option (Uuid × Uuid)}
    (h : s.insertJob now id row parent = .ok s') : Writes [.jobs, .events] s s' := by
  simp only [Store.insertJob, bind_ok, pure_ok] at h
  obtain ⟨-, -, jobs, -, events, -, rfl⟩ := h
  rintro (_ | _) ht <;> first | rfl | exact absurd (by decide) ht

theorem setInputs_writes (rows : Table (Uuid × ℕ) JobInputRow) :
    Writes [.jobInputs] s { s with jobInputs := rows } := by
  rintro (_ | _) ht <;> first | rfl | exact absurd (by decide) ht

theorem insertInputs_writes {inputs : List Input}
    (h : insertInputs s project job bindings inputs = .ok s') : Writes [.jobInputs] s s' := by
  refine foldlM_invariant (Writes [.jobInputs] s) (.refl _ s) (fun t x t' _ ht hturn => ?_) h
  simp only [insertInput, bind_ok, pure_ok] at hturn
  obtain ⟨d, -, -, -, rows, -, rfl⟩ := hturn
  exact ht.trans (setInputs_writes rows)

/-! ## Admission -/

theorem setKeys_writes (idempotency : Table (Uuid × Endpoint × String) IdempotencyRow)
    (sweeps : Table Uuid SweepRow) :
    Writes admissionTables s { s with idempotency := idempotency, sweeps := sweeps } := by
  rintro (_ | _) ht <;> first | rfl | exact absurd (by decide) ht

theorem Enrolments.writes {t : Store} (h : Enrolments t now s s') :
    Writes admissionTables s s' := by
  induction h with
  | refl => exact .refl _ s
  | tail _ hone ih =>
    refine ih.trans ?_
    cases hone with
    | key idempotency sweeps => exact setKeys_writes idempotency sweeps
    | job h _ => exact (insertJob_writes h).mono (by decide)
    | input rows => exact (setInputs_writes rows).mono (by decide)

theorem requestCancellation_writes (h : requestCancellation s now project job = .ok s') :
    Writes [.jobs, .events] s s' := by
  simp only [requestCancellation, bind_ok] at h
  obtain ⟨-, -, j, -, -, -, h⟩ := h
  split at h
  · refine Writes.trans ?_ (appendEvent_writes h)
    rintro (_ | _) ht <;> first | rfl | exact absurd (by decide) ht
  · obtain rfl := pure_ok.mp h
    exact .refl _ s

/-! ## The reports of an attempt -/

theorem filePhase_writes (id : WorkerIdentity) (r : PhaseReport)
    (attempts : Table Uuid AttemptRow) : Writes [.phaseReports, .attempts, .jobs, .events] s
      { s.filePhase id r with attempts := attempts } := by
  rintro (_ | _) ht <;> first | rfl | exact absurd (by decide) ht

theorem reportPhase_writes {r : PhaseReport} {x : MutationResult}
    (h : reportPhase s seen now id r = .ok (s', x)) :
    Writes [.phaseReports, .attempts, .jobs, .events] s s' := by
  obtain ⟨rfl, -⟩ | ⟨a, j, deadline, -, -, ⟨-, rfl⟩ | ⟨-, hlogged⟩⟩ := reportPhase_cases h
  · exact .refl _ s'
  · exact filePhase_writes id r s.attempts
  · exact (filePhase_writes id r _).trans ((appendEvent_writes hlogged).mono (by decide))

theorem completeAttempt_writes {completed : Time} {r : CompletionRequest} {x : CompletionResult}
    (h : completeAttempt sha s completed now id r = .ok (s', x)) :
    Writes (.completions :: .completionArtifacts :: endTables) s s' := by
  obtain ⟨p, a, j, m, hcommits, -⟩ | ⟨rfl, -⟩ | ⟨rfl, -⟩ := completeAttempt_cases h
  · obtain ⟨recorded, hrecorded, hfinished⟩ := hcommits.finished
    simp only [recordCompletion, bind_ok, pure_ok] at hrecorded
    obtain ⟨rows, -, references, -, rfl⟩ := hrecorded
    refine Writes.trans ?_ ((finishAttempt_writes hfinished).mono (by decide))
    rintro (_ | _) ht <;> first | rfl | exact absurd (by decide) ht
  · exact .refl _ s'
  · exact .refl _ s'

/-! ## Acquisition and renewal -/

theorem setRequests_writes (rows : Table (Uuid × Uuid × Uuid) WorkerRequestRow) :
    Writes acquisitionTables s { s with workerRequests := rows } := by
  rintro (_ | _) ht <;> first | rfl | exact absurd (by decide) ht

theorem observing_writes (blockers : Table (Uuid × ℕ) BlockerRow) (sequence : ℕ) :
    Writes acquisitionTables s (s.observing blockers sequence) := by
  rintro (_ | _) ht <;> first | rfl | exact absurd (by decide) ht

theorem assignJob_writes {session : Uuid} {j : JobRow}
    (h : assignJob s now worker session attempt job j = .ok s') : Writes acquisitionTables s s'
    := by
  simp only [assignJob, bind_ok] at h
  obtain ⟨attempts, -, reservations, -, hlogged⟩ := h
  refine Writes.trans ?_ ((appendEvent_writes hlogged).mono (by decide))
  rintro (_ | _) ht <;> first | rfl | exact absurd (by decide) ht

theorem acquireWork_writes {observed queueNow : Time} {request : AcquisitionRequest}
    {policy : AcquisitionPolicy} {x : AcquisitionResult}
    (h : acquireWork s observed queueNow now id request policy attempt = .ok (s', x)) :
    Writes acquisitionTables s s' := by
  cases acquireWork_acquired h with
  | replayed => exact .refl _ s
  | repeated => exact .refl _ s
  | refused blockers sequence reason hkey hnotes =>
    exact (observing_writes blockers sequence).trans (setRequests_writes _)
  | assigned blockers sequence assigned job j host p inputs hkey hnotes hassignable hinputs
        hassigned =>
    exact ((observing_writes blockers sequence).trans (assignJob_writes hassigned)).trans
      (setRequests_writes _)

theorem renewLeases_writes {r : LeaseRenewal} {grants : List LeaseGrant}
    (h : renewLeases s seen now id r = .ok (s', grants)) : Writes [.attempts, .leaseRequests] s s'
    := by
  obtain ⟨-, ⟨saved, rfl, -⟩ | ⟨-, requests, rfl⟩⟩ := renewLeases_eq_ok h
  · exact .refl _ s'
  · have hrenewed : Writes [.attempts, .leaseRequests] s (grants.foldl Store.applyGrant s) := by
      refine List.foldlRecOn _ Store.applyGrant (motive := fun t => Writes _ s t) (.refl _ s)
        fun t ht g _ => ht.trans ?_
      unfold Store.applyGrant
      split_ifs
      · rintro (_ | _) ht <;> first | rfl | exact absurd (by decide) ht
      · exact .refl _ t
    refine hrenewed.trans ?_
    rintro (_ | _) ht <;> first | rfl | exact absurd (by decide) ht

/-! ## Sessions and hosts -/

theorem reapOneExpiredAttempt_writes {observed : Time} {x : Bool × Bool}
    (h : reapOneExpiredAttempt sha s seen observed now = .ok (s', x)) :
    Writes (.workers :: endTables) s s' := by
  unfold reapOneExpiredAttempt at h
  split at h
  · obtain ⟨rfl, -⟩ := pure_pair_ok.mp h
    exact .refl _ s
  · simp only [bind_ok] at h
    obtain ⟨j, -, a, -, h⟩ := h
    split at h
    · obtain ⟨rfl, -⟩ := pure_pair_ok.mp h
      exact .refl _ s
    · simp only [bind_ok, pure_pair_ok] at h
      obtain ⟨fenced, hfenced, rfl, -⟩ := h
      refine ((fenceLostAttempt_writes hfenced).mono (by decide)).trans ?_
      rintro (_ | _) ht <;> first | rfl | exact absurd (by decide) ht

theorem approveSessionTakeover_writes {fromSession toSession : Uuid}
    (h : approveSessionTakeover s worker fromSession toSession = .ok s') : Writes [.takeovers] s s'
    := by
  simp only [approveSessionTakeover, bind_ok] at h
  obtain ⟨-, -, h⟩ := h
  split at h
  · simp only [bind_ok, pure_ok] at h
    obtain ⟨-, -, rfl⟩ := h
    exact .refl _ s
  · simp only [bind_ok, pure_ok] at h
    obtain ⟨w, -, -, -, -, -, -, -, rfl⟩ := h
    rintro (_ | _) ht <;> first | rfl | exact absurd (by decide) ht

theorem recoverSession_writes {fromSession toSession : Uuid}
    (h : recoverSession sha s now worker fromSession toSession = .ok s') :
    Writes registrationTables s s' := by
  simp only [recoverSession, bind_ok] at h
  obtain ⟨w, -, session, -, -, -, h⟩ := h
  have hfence : ∀ fenced, (workerAttempts s worker).foldlM
      (fun s x => fenceLostAttempt sha s now x.2.job x.1) s = .ok fenced →
      Writes registrationTables s fenced := fun fenced hfenced =>
    foldlM_invariant (Writes registrationTables s) (.refl _ s)
      (fun t x t' _ ht hturn => ht.trans ((fenceLostAttempt_writes hturn).mono (by decide))) hfenced
  split at h <;> simp only [bind_ok, pure_ok] at h
  · obtain ⟨-, -, -, -, fenced, hfenced, rfl⟩ := h
    refine (hfence fenced hfenced).trans ?_
    rintro (_ | _) ht <;> first | rfl | exact absurd (by decide) ht
  · obtain ⟨fenced, hfenced, rfl⟩ := h
    refine (hfence fenced hfenced).trans ?_
    rintro (_ | _) ht <;> first | rfl | exact absurd (by decide) ht

theorem recordRegistration_writes (s : Store) (worker request : Uuid) (hash : RegistrationClaims) :
    Writes registrationTables s (s.recordRegistration worker request hash) := by
  unfold Store.recordRegistration
  split_ifs
  · exact .refl _ s
  · rintro (_ | _) ht <;> first | rfl | exact absurd (by decide) ht

theorem installSession_writes {request : Uuid} {hash : RegistrationClaims} {x : Session}
    (h : installSession s now worker request hash = .ok (s', x)) : Writes registrationTables s s'
    := by
  simp only [installSession, bind_ok, pure_pair_ok] at h
  obtain ⟨sessions, -, rfl, -⟩ := h
  refine Writes.trans ?_ (recordRegistration_writes _ _ _ _)
  rintro (_ | _) ht <;> first | rfl | exact absurd (by decide) ht

theorem registerSession_writes {r : Registration} {x : Session}
    (h : registerSession sha s now id r = .ok (s', x)) : Writes registrationTables s s' := by
  simp only [registerSession, bind_ok] at h
  obtain ⟨hash, -, -, -, -, -, w, -, -, -, -, -, h⟩ := h
  split at h
  · split_ifs at h
    · simp only [bind_ok, pure_pair_ok] at h
      obtain ⟨-, -, -, -, rfl, -⟩ := h
      exact recordRegistration_writes _ _ _ _
  · split at h
    · simp only [bind_ok] at h
      obtain ⟨recovered, hrecovered, hinstall⟩ := h
      exact (recoverSession_writes hrecovered).trans (installSession_writes hinstall)
    · exact installSession_writes h

theorem recordHeartbeat_writes {r : HeartbeatReport} {x : HeartbeatResult}
    (h : recordHeartbeat s now id r = .ok (s', x)) :
    Writes [.reservations, .attempts, .sessions, .workers] s s' := by
  obtain ⟨w, ss, hash, -, -, -, -, ⟨rfl, -⟩ | ⟨-, rfl⟩⟩ := recordHeartbeat_cases h
  · exact .refl _ s'
  · rintro (_ | _) ht <;> first | rfl | exact absurd (by decide) ht

/-! ## Every transaction -/

theorem setWorkers_writes (rows : Table Uuid WorkerRow) :
    Writes [.workers] s { s with workers := rows } := by
  rintro (_ | _) ht <;> first | rfl | exact absurd (by decide) ht

theorem setDatasets_writes (rows : Table Uuid DatasetRow) :
    Writes [.datasets] s { s with datasets := rows } := by
  rintro (_ | _) ht <;> first | rfl | exact absurd (by decide) ht

theorem setOperated_writes (projects : Table Uuid ProjectRow)
    (credentials : Table Uuid CredentialRow) (workerProjects : Table (Uuid × Uuid) Unit) :
    Writes [.projects, .credentials, .workerProjects] s { s with
      projects := projects, credentials := credentials, workerProjects := workerProjects } := by
  rintro (_ | _) ht <;> first | rfl | exact absurd (by decide) ht

/-- **A transaction writes its footprint** and no other table. -/
theorem Op.exec_writes {op : Op} {reply : Reply} (h : op.exec sha s now = .ok (s', reply)) :
    Writes op.footprint s s' := by
  cases hfiler : op.filer with
  | some x =>
    obtain rfl | ⟨-, hentries⟩ := op.exec_entries h hfiler
    · exact .refl _ _
    · exact hentries.writes
  | none => ?_
  cases op
  all_goals simp only [Op.exec, bind_ok, orThrow_ok, pure_pair_ok] at h
  case submitJob =>
    obtain ⟨⟨t, _⟩, ht, rfl, -⟩ := h
    exact (submitJobResolved_enrolments ht).writes
  case submitSweep =>
    obtain ⟨⟨t, _⟩, ht, rfl, -⟩ := h
    exact (submitSweepResolved_enrolments ht).writes
  case retrySweep =>
    obtain ⟨⟨t, _⟩, ht, rfl, -⟩ := h
    exact (retrySweep_enrolments ht).writes
  case cancel =>
    obtain ⟨t, ht, rfl, -⟩ := h
    exact requestCancellation_writes ht
  case acquire =>
    obtain ⟨⟨t, _⟩, ht, rfl, -⟩ := h
    exact acquireWork_writes ht
  case renew =>
    obtain ⟨⟨t, _⟩, ht, rfl, -⟩ := h
    exact renewLeases_writes ht
  case phase =>
    obtain ⟨⟨t, _⟩, ht, rfl, -⟩ := h
    exact reportPhase_writes ht
  case complete =>
    obtain ⟨⟨t, _⟩, ht, rfl, -⟩ := h
    exact completeAttempt_writes ht
  case reap =>
    obtain ⟨⟨t, _⟩, ht, rfl, -⟩ := h
    exact reapOneExpiredAttempt_writes ht
  case approveTakeover =>
    obtain ⟨t, ht, rfl, -⟩ := h
    exact approveSessionTakeover_writes ht
  case register =>
    obtain ⟨⟨t, _⟩, ht, rfl, -⟩ := h
    exact registerSession_writes ht
  case heartbeat =>
    obtain ⟨⟨t, _⟩, ht, rfl, -⟩ := h
    exact recordHeartbeat_writes ht
  case drain =>
    obtain ⟨t, ht, rfl, -⟩ := h
    simp only [requestWorkerDrain, bind_ok] at ht
    obtain ⟨p, -, -, -, w, -, -, -, ht⟩ := ht
    split_ifs at ht <;> obtain rfl := pure_ok.mp ht
    · exact .refl _ _
    · exact setWorkers_writes _
  case provision =>
    obtain ⟨workers, -, rfl, -⟩ := h
    exact setWorkers_writes workers
  case registerDataset =>
    obtain ⟨t, ht, rfl, -⟩ := h
    obtain ⟨-, -, rfl⟩ := registerDataset_eq_ok ht
    exact setDatasets_writes _
  case operate =>
    obtain ⟨_, -, rfl, -⟩ := h
    exact setOperated_writes _ _ _
  all_goals simp only [Op.filer, reduceCtorEq] at hfiler

end Dispatch
