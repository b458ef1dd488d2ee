import Dispatch.Scheduling.Queue

/-!
# Repeated acquisitions

A worker that has lost the answer to an acquisition sends the request again,
possibly after its attempt was renewed, cancelled, fenced or finished. Whatever
the request was first answered stays on record under its key, so the second
answer is about the same attempt or gives the same reason for none, and
nothing of the store changes. What the answer says of the attempt beside its
deadlines cannot have changed either: the document of a job is fixed when it is
admitted, and its inputs are bound once and for all (`loadJobInputs_stays`).
-/

namespace Dispatch

open Txn

variable {sha : Uuid → ℕ} {now : Time}

variable {s s' : Store}

/-! ## Inputs -/

/-- Rows with the same keys, all of them rows of one table, are the same. -/
theorem rows_eq_of_keys {α β : Type*} {g : α → Option β} {l l' : List (α × β)}
    (hkeys : l.map Prod.fst = l'.map Prod.fst) (h : ∀ x ∈ l, g x.1 = some x.2)
    (h' : ∀ x ∈ l', g x.1 = some x.2) : l = l' := by
  have hrow : ∀ l : List (α × β), (∀ x ∈ l, g x.1 = some x.2) →
      l.map (fun x => (x.1, some x.2)) = (l.map Prod.fst).map (fun k => (k, g k)) := by
    intro l h
    rw [List.map_map]
    exact List.map_congr_left fun x hx => congrArg (Prod.mk x.1) (h x hx).symm
  have hinj : Function.Injective (fun x : α × β => (x.1, some x.2)) := by
    rintro ⟨a, b⟩ ⟨c, d⟩ heq
    simpa using heq
  refine List.map_injective_iff.mpr hinj ?_
  rw [hrow l h, hrow l' h', hkeys]

/-- **The inputs of a job stay the same.** -/
theorem loadJobInputs_stays {job : Uuid} {j j' : JobRow}
    (hbound : s.toLedger.Bound job j) (hbound' : s'.toLedger.Bound job j')
    (hproject : j'.project = j.project) (hspec : j'.spec = j.spec)
    (hinputs : s.jobInputs.Extends s'.jobInputs) (hdatasets : s.datasets.Extends s'.datasets) :
    loadJobInputs s' j'.project job j'.spec.spec.inputs
      = loadJobInputs s j.project job j.spec.spec.inputs := by
  have hpositions := inputRows_positions hbound'
  rw [hproject, hspec] at hpositions ⊢
  have hrows : inputRows s' j.project job = inputRows s j.project job :=
    rows_eq_of_keys (g := fun i => s'.jobInputs.lookup (job, i))
      (hpositions.trans (inputRows_positions hbound).symm)
      (fun x hx => (mem_inputRows.mp hx).1) (fun x hx => hinputs _ _ (mem_inputRows.mp hx).1)
  rw [loadJobInputs_eq, loadJobInputs_eq, hrows]
  refine congrArg _ (List.filterMap_congr fun x hx => ?_)
  obtain ⟨d, -, hd, -⟩ := inputBinding_found hbound hx
  rw [inputBinding, inputBinding, hd, hdatasets _ _ hd]

/-! ## Answers -/

/-- `stable_assignment`: what a worker compares of two answers, everything
beside the remaining authority. -/
def WorkAssignment.stable (a : WorkAssignment) : WorkAssignment :=
  { a with leaseExpiresAt := 0, phaseDeadline := 0, serverTime := 0 }

/-- **A second answer to a request**: the same assignment under the deadlines
its attempt now has, a decision against it, or the same reason for none. -/
def AcquisitionResult.Repeats (s : Store) (answer : AcquisitionResult) : AcquisitionResult → Prop
  | .assignment x =>
    (∃ y a, answer = .assignment y ∧ y.stable = x.stable ∧
      s.attempts.lookup x.authority.attemptID = some a ∧
      y.leaseExpiresAt = a.leaseExpiresAt ∧ y.phaseDeadline = a.phaseDeadline) ∨
    answer = .decided .stopRequested ∨ answer = .decided .fenced ∨
    answer = .decided .alreadyTerminal
  | .noWork reason => answer = .noWork reason
  | .decided _ => False

/-- **What a first answer leaves on record**, and what a new attempt is. -/
theorem acquireWork_first {observed queueNow : Time} {id : WorkerIdentity}
    {request : AcquisitionRequest} {policy : AcquisitionPolicy} {attempt : Uuid}
    {first : AcquisitionResult}
    (h : acquireWork s observed queueNow now id request policy attempt = .ok (s', first))
    (hnew : s.workerRequests.lookup (id.workerID, request.sessionID, request.requestID) = none) :
    (∃ reason, first = .noWork reason ∧ s'.attempts = s.attempts ∧
      s'.workerRequests.lookup (id.workerID, request.sessionID, request.requestID)
        = some ⟨.inr reason⟩) ∨
    ∃ x j, first = .assignment x ∧ x.authority.attemptID = attempt ∧
      s'.workerRequests.lookup (id.workerID, request.sessionID, request.requestID)
        = some ⟨.inl attempt⟩ ∧
      s'.attempts = AList.insert attempt
        (newAttempt now id.workerID request.sessionID x.authority.jobID j) s.attempts ∧
      s.jobs.lookup x.authority.jobID = some j ∧
      loadJobInputs s j.project x.authority.jobID j.spec.spec.inputs = .ok x.inputs ∧
      x.authority = ⟨x.authority.jobID, attempt, j.attemptCounter + 1, id.workerID,
        request.sessionID⟩ ∧
      x.job = j.spec ∧ x.canonicalSpec = j.spec.canonical ∧ x.specHash = j.specHash := by
  cases acquireWork_acquired h with
  | replayed saved _ hkey => exact absurd (hnew.symm.trans hkey) (by simp)
  | repeated reason hkey => exact absurd (hnew.symm.trans hkey) (by simp)
  | refused blockers sequence reason hkey hnotes =>
    exact .inl ⟨reason, rfl, rfl, AList.lookup_insert _⟩
  | assigned blockers sequence assigned job j host p inputs hkey hnotes hassignable hinputs
        hassigned =>
    refine .inr ⟨_, j, rfl, rfl, AList.lookup_insert _, ?_, hassignable.found, hinputs, rfl, rfl,
      rfl, rfl⟩
    simp only [assignJob, bind_ok, orThrow_ok] at hassigned
    obtain ⟨attempts, hattempts, reservations, -, hlogged⟩ := hassigned
    obtain ⟨-, rfl⟩ := Table.insertNew_eq_some hattempts
    exact ((appendEvent_attempts hlogged).1 :)

/-- **The replay of an assignment** gives what was first given. -/
theorem replayAssignment_repeats {worker session : Uuid} {x : WorkAssignment}
    {j : JobRow} {a : AttemptRow} {answer : AcquisitionResult}
    (ha : s.attempts.lookup x.authority.attemptID = some a)
    (hidentity : x.authority = a.authority x.authority.attemptID)
    (hj : s.jobs.lookup a.job = some j)
    (hinputs : loadJobInputs s j.project a.job j.spec.spec.inputs = .ok x.inputs)
    (hspec : x.job = j.spec ∧ x.canonicalSpec = j.spec.canonical ∧ x.specHash = j.specHash)
    (hanswer : replayAssignment s now worker session x.authority.attemptID = .ok answer) :
    answer.Repeats s (.assignment x) := by
  simp only [replayAssignment, ha, hj, orThrow_some, ok_bind, bind_ok] at hanswer
  obtain ⟨-, -, -, -, hanswer⟩ := hanswer
  split_ifs at hanswer
  · exact .inr (.inr (.inr (pure_ok.mp hanswer).symm))
  · exact .inr (.inr (.inl (pure_ok.mp hanswer).symm))
  · exact .inr (.inl (pure_ok.mp hanswer).symm)
  · simp only [hinputs, bind_ok, pure_ok, ok_bind] at hanswer
    obtain ⟨-, -, rfl⟩ := hanswer
    refine .inl ⟨_, a, rfl, ?_, ha, rfl, rfl⟩
    obtain ⟨hjob, hcanonical, hhash⟩ := hspec
    rw [WorkAssignment.stable, WorkAssignment.stable, hjob, hcanonical, hhash, ← hidentity]

/-- **What a request was answered first stays on record**, and answers it
later. -/
theorem Reachable.acquisition_repeats {w w' : World} (h : Reachable sha w)
    {observed queueNow observed' queueNow' now' : Time} {identity again : WorkerIdentity}
    {request : AcquisitionRequest} {policy policy' : AcquisitionPolicy} {attempt attempt' : Uuid}
    {s'' : Store} {first answer : AcquisitionResult} (hle : w.clock ≤ now)
    (hexec : acquireWork w.store observed queueNow now identity request policy attempt
      = .ok (s', first))
    (hnew : w.store.workerRequests.lookup
      (identity.workerID, request.sessionID, request.requestID) = none)
    (hlater : World.Later sha ⟨s', now⟩ w') (hagain : again.workerID = identity.workerID)
    (hexec' : acquireWork w'.store observed' queueNow' now' again request policy' attempt'
      = .ok (s'', answer)) : s'' = w'.store ∧ answer.Repeats w'.store first := by
  have hstep : World.Step sha w ⟨s', now⟩ :=
    ⟨hle, .acquire observed queueNow identity request policy attempt, .acquisition first, by
      simp only [Op.exec, hexec]
      rfl⟩
  have hreached : Reachable sha ⟨s', now⟩ := h.step hstep
  have hstands := hreached.later_ledger hlater
  have hsince := h.later_ledger (.head hstep hlater)
  have hsound := (hreached.later hlater).ledger_sound
  obtain ⟨worker, credential⟩ := again
  obtain rfl : worker = identity.workerID := hagain
  have hacquired := acquireWork_acquired hexec'
  obtain ⟨reason, rfl, -, hkey⟩ | ⟨x, j, rfl, rfl, hkey, hattempts, hj, hinputs, hauthority,
    hspec⟩ := acquireWork_first hexec hnew
  · have hkey' : w'.store.workerRequests.lookup
        (identity.workerID, request.sessionID, request.requestID) = some ⟨.inr reason⟩ :=
      hstands.workerRequests _ _ hkey
    cases hacquired with
    | replayed saved _ hsaved => exact absurd (hkey'.symm.trans hsaved) (by simp)
    | repeated reason' hsaved =>
      obtain rfl : reason = reason' := by simpa using hkey'.symm.trans hsaved
      exact ⟨rfl, rfl⟩
    | refused _ _ _ hnone => exact absurd (hkey'.symm.trans hnone) (by simp)
    | assigned _ _ _ _ _ _ _ _ hnone => exact absurd (hkey'.symm.trans hnone) (by simp)
  · have hkey' : w'.store.workerRequests.lookup
        (identity.workerID, request.sessionID, request.requestID)
          = some ⟨.inl x.authority.attemptID⟩ :=
      hstands.workerRequests _ _ hkey
    cases hacquired with
    | replayed saved _ hsaved hreplay =>
      obtain rfl : x.authority.attemptID = saved := by simpa using hkey'.symm.trans hsaved
      -- The attempt, the job and the inputs are those of the first answer.
      obtain ⟨a, ha, hkept⟩ := hstands.attempts x.authority.attemptID _
        ((congrArg (AList.lookup x.authority.attemptID) hattempts).trans (AList.lookup_insert _))
      obtain ⟨hjob, -, hworker, hsession, hgeneration⟩ :
          a.job = x.authority.jobID ∧ a.number = j.attemptCounter + 1 ∧
          a.worker = identity.workerID ∧ a.session = request.sessionID ∧
          a.generation = j.attemptCounter + 1 := by
        simpa [AttemptRow.identity, newAttempt] using hkept.identity
      obtain ⟨k, hk, hlaterJob⟩ := hsince.jobs _ _ (Store.toLedger_job hj)
      obtain ⟨j', hj', rfl⟩ := Store.job_of_toLedger hk
      have hsame : loadJobInputs w'.store j'.project x.authority.jobID j'.spec.spec.inputs
          = loadJobInputs w.store j.project x.authority.jobID j.spec.spec.inputs :=
        (loadJobInputs_stays (h.ledger_sound.furnished.bound _ _ (Store.toLedger_job hj))
          (hsound.furnished.bound _ _ hk) hlaterJob.project hlaterJob.spec hsince.jobInputs
          hsince.datasets :)
      have hdocument : j'.spec = j.spec := hlaterJob.spec
      have hhash : j'.specHash = j.specHash := hlaterJob.specHash
      refine ⟨rfl, replayAssignment_repeats (a := a) (j := j') ha ?_ (hjob ▸ hj') ?_ ?_ hreplay⟩
      · rw [AttemptRow.authority, hjob, hworker, hsession, hgeneration]
        exact hauthority
      · rw [hjob]
        exact hsame.trans hinputs
      · rw [hdocument, hhash]
        exact hspec
    | repeated reason' hsaved => exact absurd (hkey'.symm.trans hsaved) (by simp)
    | refused _ _ _ hnone => exact absurd (hkey'.symm.trans hnone) (by simp)
    | assigned _ _ _ _ _ _ _ _ hnone => exact absurd (hkey'.symm.trans hnone) (by simp)

/-- **Acquisition is idempotent.** The transaction that first answers a request
creates the attempt it assigns and no other. Whenever the worker sends the
request again, the store stays as it is and the answer repeats the first one;
and a session that is still seated does get an answer. -/
theorem acquisition_idempotent {w : World} (h : Reachable sha w) {observed queueNow : Time}
    {identity : WorkerIdentity} {request : AcquisitionRequest} {policy : AcquisitionPolicy}
    {attempt : Uuid} {s' : Store} {first : AcquisitionResult} (hle : w.clock ≤ now)
    (hexec : (Op.acquire observed queueNow identity request policy attempt).exec sha w.store now
      = .ok (s', .acquisition first))
    (hnew : w.store.workerRequests.lookup
      (identity.workerID, request.sessionID, request.requestID) = none) :
    (∀ id a, w.store.attempts.lookup id = none → s'.attempts.lookup id = some a →
      ∃ x, first = .assignment x ∧ x.authority.attemptID = id) ∧
    ∀ w' observed' queueNow' again policy' attempt' now', World.Later sha ⟨s', now⟩ w' →
      again.workerID = identity.workerID →
      (∀ s'' answer, (Op.acquire observed' queueNow' again request policy' attempt').exec sha
          w'.store now' = .ok (s'', .acquisition answer) →
        s'' = w'.store ∧ answer.Repeats w'.store first) ∧
      (canonicalUUID again.credentialID = true → authorizeWorkerTx w'.store again = .ok () →
        isCurrentSession w'.store identity.workerID request.sessionID = true →
        ∃ answer, (Op.acquire observed' queueNow' again request policy' attempt').exec sha
          w'.store now' = .ok (w'.store, .acquisition answer)) := by
  have hreached : Reachable sha ⟨s', now⟩ := h.step ⟨hle, _, _, hexec⟩
  simp only [Op.exec, bind_ok, pure_pair_ok, Reply.acquisition.injEq] at hexec
  obtain ⟨⟨t, _⟩, hacquire, rfl, rfl⟩ := hexec
  have hrecord := acquireWork_first hacquire hnew
  refine ⟨fun id a hnone ha => ?_, fun w' observed' queueNow' again policy' attempt' now' hlater
    hagain => ⟨fun s'' answer hexec' => ?_, fun hcredential hauthorized hcurrent => ?_⟩⟩
  · obtain ⟨reason, -, hsame, -⟩ | ⟨x, j, hfirst, hid, -, hattempts, -⟩ := hrecord
    · rw [hsame] at ha
      exact absurd (hnone.symm.trans ha) (by simp)
    · rw [hattempts, Table.lookup_insert_ite] at ha
      split_ifs at ha with hattempt
      · exact ⟨x, hfirst, hid.trans hattempt.symm⟩
      · exact absurd (hnone.symm.trans ha) (by simp)
  · simp only [Op.exec, bind_ok, pure_pair_ok, Reply.acquisition.injEq] at hexec'
    obtain ⟨⟨u, _⟩, hacquire', rfl, rfl⟩ := hexec'
    exact h.acquisition_repeats hle hacquire hnew hlater hagain hacquire'
  · have hkey : w'.store.workerRequests.lookup
        (again.workerID, request.sessionID, request.requestID) ≠ none := by
      have hstands := (hreached.later_ledger hlater).workerRequests
        (identity.workerID, request.sessionID, request.requestID)
      rw [hagain]
      obtain ⟨reason, -, -, hkey⟩ | ⟨x, j, -, -, hkey, -⟩ := hrecord
      · exact Option.ne_none_iff_exists'.mpr ⟨_, hstands _ hkey⟩
      · exact Option.ne_none_iff_exists'.mpr ⟨_, hstands _ hkey⟩
    simp only [acquireWork, bind_ok, require_ok] at hacquire
    obtain ⟨-, ⟨hworker, -⟩, -, ⟨hsession, hrequest⟩, -⟩ := hacquire
    obtain ⟨answer, hanswer⟩ : ∃ answer, acquireWork w'.store observed' queueNow' now' again request
        policy' attempt' = .ok (w'.store, answer) :=
      (hreached.later hlater).acquire_recorded (hagain ▸ of_decide_eq_true hworker)
        (of_decide_eq_true hcredential) (of_decide_eq_true hsession) (of_decide_eq_true hrequest)
        hauthorized (hagain ▸ hcurrent) hkey
    exact ⟨answer, by simp only [Op.exec, hanswer]; rfl⟩

/-- A first acquisition assigns the sample job, and its repetition gives the
same assignment. -/
theorem sample_acquisition : ∃ (w : World) (s' : Store) (first answer : AcquisitionResult),
    Op.exec Sample.sha w.store second
      (.acquire second second Sample.identity ⟨1, 1⟩ ⟨false⟩ 1) = .ok (s', .acquisition first) ∧
    Op.exec Sample.sha s' second
      (.acquire second second Sample.identity ⟨1, 1⟩ ⟨false⟩ 2) = .ok (s', .acquisition answer) ∧
    (s'.attempts.lookup 1).isSome = true ∧ answer.Repeats s' first := by
  obtain ⟨w, s', reply, hw, hle, hexec, hp⟩ := Sample.reaches_step Sample.world_reachable
    (Sample.seated 1 second ++
      [(second, .submitJob 1 "k" (String.ofList (List.replicate 64 '0')) Sample.job [])])
    second (.acquire second second Sample.identity ⟨1, 1⟩ ⟨false⟩ 1)
    (fun w s' _ => (w.store.workerRequests.lookup (1, 1, 1)).isNone &&
      (s'.attempts.lookup 1).isSome && isCurrentSession s' 1 1 &&
      decide (authorizeWorkerTx s' Sample.identity = .ok ()))
    (by decide +kernel)
  simp only [Bool.and_eq_true, Option.isNone_iff_eq_none, decide_eq_true_eq] at hp
  obtain ⟨⟨⟨hnew, hattempt⟩, hcurrent⟩, hauthorized⟩ := hp
  obtain ⟨first, rfl⟩ : ∃ first, reply = .acquisition first := by
    simp only [Op.exec, bind_ok, pure_pair_ok] at hexec
    obtain ⟨⟨t, first⟩, -, -, hreply⟩ := hexec
    exact ⟨first, hreply.symm⟩
  obtain ⟨hrepeats, hanswers⟩ := (acquisition_idempotent hw hle hexec hnew).2 ⟨s', second⟩ second
    second Sample.identity ⟨false⟩ 2 second .refl rfl
  obtain ⟨answer, hanswer⟩ := hanswers (by decide) hauthorized hcurrent
  exact ⟨w, s', first, answer, hexec, hanswer, hattempt, (hrepeats s' answer hanswer).2⟩

end Dispatch
