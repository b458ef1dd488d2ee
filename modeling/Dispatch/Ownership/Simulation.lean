import Dispatch.Ownership.Frames

/-!
# Every transaction is a run of the ownership machine

For each transaction, what it does to the store is some steps of the machine
on the store's reading, and it keeps the store coherent (`Simulated`). The
transactions of the module before are no steps at all; the others are the steps
they are named after. The replacement of a session is the one that needs the
coherence, since it fences what it finds under the worker and must find
everything that is live there.
-/

namespace Dispatch

open Txn

variable {s t s' s'' seen : Store} {now completed : Time}
  {id job sweep worker attempt project session toSession fromSession : Uuid} {sha : Uuid → ℕ}
  {r : CompletionRequest} {a : AttemptRow} {bindings : List DatasetBinding} {fresh : ℕ → Uuid}
  {p : CompletionPayload} {m : ResultManifest} {key : String} {j : JobRow} {out : CompletionOutcome}

/-- The attempt has ended, or its lease is over. -/
def Dead (s : Store) (now : Time) (attempt : Uuid) : Prop :=
  ∃ a, s.attempts.lookup attempt = some a ∧ (a.state.isActive = false ∨ a.leaseExpiresAt ≤ now)

theorem Dead.later {later : Time} (h : Dead s now attempt) (hle : now ≤ later) :
    Dead s later attempt := by
  obtain ⟨a, ha, hdead⟩ := h
  exact ⟨a, ha, hdead.imp_right (·.trans hle)⟩

/-- **Nothing brings an attempt back.** -/
theorem Dead.steps (h : Dead s now attempt)
    (hsteps : Ownership.Steps now s.ownership s'.ownership) : Dead s' now attempt := by
  obtain ⟨a, ha, hdead⟩ := h
  obtain ⟨g, hg, hev⟩ := hsteps.evolves (congrArg (Option.map AttemptRow.grant) ha)
  obtain ⟨a', ha', rfl⟩ := Option.map_eq_some_iff.mp hg
  refine ⟨a', ha', hdead.imp (fun hended => ?_) (fun hover => ?_)⟩
  · by_contra hlive
    have hbefore : a.state.isActive = true := hev.live ((Bool.not_eq_false _).mp hlive)
    exact absurd (hbefore.symm.trans hended) (by simp)
  · -- A lease that is over is not renewed.
    have hsame : ¬ a.leaseExpiresAt < a'.leaseExpiresAt := fun hlt =>
      not_lt.mpr hover (hev.renewed hlt).2
    exact (not_lt.mp hsame).trans hover

/-- An active attempt within its lease is not dead. -/
theorem not_dead (ha : s.attempts.lookup attempt = some a) (hactive : a.state.isActive = true)
    (hlease : now < a.leaseExpiresAt) : ¬ Dead s now attempt := by
  rintro ⟨a', ha', hdead⟩
  obtain rfl := Option.mem_unique ha ha'
  obtain hended | hover := hdead
  · exact absurd (hactive.symm.trans hended) (by simp)
  · exact not_lt.mpr hover hlease

/-- **The gate is shut to the dead.** -/
theorem Authorized.not_dead {authority : AttemptAuthority} (h : Authorized s now authority) :
    ¬ Dead s now authority.attemptID := by
  obtain ⟨a, j, ha, -, hdecision⟩ := h
  obtain ⟨l, hl, -, hactive, -, hlease, -⟩ := leaseDecision_eq_accepted.mp hdecision
  obtain rfl := Option.some.inj hl
  exact Dispatch.not_dead ha hactive hlease

/-- The completion bears the worker and the session of its attempt, which has
ended. -/
def Signed (s : Store) (attempt : Uuid) (c : CompletionRow) : Prop :=
  ∃ a, s.attempts.lookup attempt = some a ∧ a.worker = c.worker ∧ a.session = c.session ∧
    a.state.isActive = false

theorem Signed.steps {c : CompletionRow} (h : Signed s attempt c)
    (hsteps : Ownership.Steps now s.ownership s'.ownership) : Signed s' attempt c := by
  obtain ⟨a, ha, hworker, hsession, hended⟩ := h
  obtain ⟨g, hg, hev⟩ := hsteps.evolves (congrArg (Option.map AttemptRow.grant) ha)
  obtain ⟨a', ha', rfl⟩ := Option.map_eq_some_iff.mp hg
  refine ⟨a', ha', hev.place.trans hworker, hev.holder.trans hsession, ?_⟩
  by_contra hlive
  have hbefore : a.state.isActive = true := hev.live ((Bool.not_eq_false _).mp hlive)
  exact absurd (hbefore.symm.trans hended) (by simp)

/-- **A transaction at a time is a run of the machine.** It keeps the store
coherent, adds nothing to the evidence of a dead attempt, and records only
completions that the attempt's own worker signed. -/
structure Simulated (now : Time) (s s' : Store) : Prop where
  steps : Ownership.Steps now s.ownership s'.ownership
  coherent : Coherent s' now
  evidence : ∀ attempt, Dead s now attempt → s'.evidenceOf attempt = s.evidenceOf attempt
  completed : ∀ attempt c, s'.completions.lookup attempt = some c →
    s.completions.lookup attempt = some c ∨ Signed s' attempt c

theorem Simulated.refl (hc : Coherent s now) : Simulated now s s :=
  ⟨.refl, hc, fun _ _ => rfl, fun _ _ => .inl⟩

theorem Simulated.trans (h : Simulated now s s') (h' : Simulated now s' s'') :
    Simulated now s s'' where
  steps := h.steps.trans h'.steps
  coherent := h'.coherent
  evidence attempt hdead :=
    (h'.evidence attempt (hdead.steps h.steps)).trans (h.evidence attempt hdead)
  completed attempt c hc :=
    (h'.completed attempt c hc).elim
      (fun hbefore => (h.completed attempt c hbefore).imp_right (·.steps h'.steps)) .inr

/-- What a change of nothing in the evidence leaves. -/
theorem completed_of_evidence (h : s'.evidence = s.evidence) (attempt : Uuid) (c : CompletionRow)
    (hc : s'.completions.lookup attempt = some c) :
    s.completions.lookup attempt = some c ∨ Signed s' attempt c := by
  have hcompletions : s'.completions = s.completions := congrArg Prod.fst h
  exact .inl (hcompletions ▸ hc)

theorem Framed.simulated (h : Framed s s') (hc : Coherent s now) :
    Simulated now s s' :=
  ⟨h.ownership_eq ▸ .refl, h.coherent hc, fun attempt _ => Store.evidenceOf_eq h.evidence attempt,
    completed_of_evidence h.evidence⟩

/-- A frame after a run of the machine. -/
theorem Simulated.framed (h : Simulated now s s') (h' : Framed s' s'') :
    Simulated now s s'' :=
  h.trans (h'.simulated h.coherent)

/-- The same, the frame first as a proof finds it. -/
theorem Framed.ends (h' : Framed s' s'') (h : Simulated now s s') :
    Simulated now s s'' :=
  h.framed h'

/-- A run of the machine after a frame, the run first as a proof finds it. -/
theorem Simulated.after (h' : Coherent s' now → Simulated now s' s'')
    (h : Framed s s') (hc : Coherent s now) : Simulated now s s'' :=
  (h.simulated hc).trans (h' (h.coherent hc))

/-! ## Admission -/

/-- **An admitted job is a task that waits.** -/
theorem insertJob_simulated {row : JobRow} {parent : Option (Uuid × Uuid)}
    (h : s.insertJob now id row parent = .ok s')
    (hwaits : row.task = ⟨.waiting, none, 0, row.resources⟩)
    (hresources : row.resources = row.spec.spec.resources) (hc : Coherent s now) :
    Simulated now s s' := by
  simp only [Store.insertJob, bind_ok, require_ok, orThrow_ok, pure_ok] at h
  obtain ⟨-, -, jobs, hjobs, events, -, rfl⟩ := h
  obtain ⟨hfree, rfl⟩ := Table.insertNew_eq_some hjobs
  refine ⟨?_, ?_, fun _ _ => rfl, fun _ _ => .inl⟩
  · refine .single ?_
    convert Ownership.Step.submit s.ownership id row.resources
      (congrArg (Option.map JobRow.task) hfree) using 1
    refine Ownership.State.ext (funext fun j => ?_) rfl rfl rfl rfl rfl
    simp only [Store.ownership, Store.view, Table.lookup_insert_ite, Function.update_apply]
    split_ifs
    · exact congrArg some hwaits
    · rfl
  · refine ⟨hc.current, fun job row' hrow' => ?_, hc.leases⟩
    rw [Table.lookup_insert_ite] at hrow'
    split_ifs at hrow'
    · obtain rfl := Option.some.inj hrow'
      exact hresources
    · exact hc.resources job row' hrow'

/-- **An admission is a run of the machine.** -/
theorem Enrolments.simulated (h : Enrolments s now s s') (hc : Coherent s now) :
    Simulated now s s' := by
  induction h with
  | refl => exact .refl hc
  | tail _ hone ih =>
    cases hone with
    | key _ _ => exact ih.framed (.of_tables rfl rfl)
    | input _ => exact ih.framed (.of_tables rfl rfl)
    | job h hdocument =>
      obtain ⟨hresources, -⟩ | ⟨id, j, hj, rfl, rfl⟩ := hdocument
      · exact ih.trans (insertJob_simulated h rfl hresources ih.coherent)
      · exact ih.trans (insertJob_simulated h rfl (hc.resources id j hj) ih.coherent)

/-! ## Cancellation -/

/-- A run of the machine that keeps the holders. -/
theorem KeepsHolders.simulated (h : KeepsHolders s s')
    (hsteps : Ownership.Steps now s.ownership (s'.view s.settled s.replaced))
    (hc : Coherent s now) : Simulated now s s' :=
  ⟨h.ownership_eq ▸ hsteps, h.coherent hc, fun attempt _ => Store.evidenceOf_eq h.evidence attempt,
    completed_of_evidence h.evidence⟩

theorem stopJob_simulated {f : JobRow → JobRow} (hj : s.jobs.lookup job = some j)
    (hstop : (f j).task = j.task.stop)
    (hdocument : ∀ j, ((f j).resources, (f j).spec) = (j.resources, j.spec))
    (hc : Coherent s now) :
    Simulated now s { s with jobs := s.jobs.modify job f } := by
  refine KeepsHolders.simulated ⟨rfl, rfl, rfl, rfl, fun id => ?_, fun _ => rfl⟩ (.single ?_) hc
  · rw [Table.lookup_modify]
    split_ifs
    · rw [Option.map_map]
      exact congrArg (Option.map · _) (funext hdocument)
    · rfl
  · convert Ownership.Step.cancel s.ownership (fun id => decide (id = job)) using 1
    refine Ownership.State.ext (funext fun id => ?_) rfl rfl rfl rfl rfl
    simp only [Store.ownership, Store.view, Table.lookup_modify]
    by_cases hid : id = job
    · subst hid
      simp only [if_true, hj, Option.map_some, decide_true, hstop]
    · simp only [hid, if_false, decide_false, Option.map_map]
      rfl

/-- **A request to cancel is a request to stop one task.** -/
theorem requestCancellation_simulated (h : requestCancellation s now project job = .ok s')
    (hc : Coherent s now) : Simulated now s s' := by
  simp only [requestCancellation, bind_ok, orThrow_ok] at h
  obtain ⟨-, -, j, hj, -, -, h⟩ := h
  split at h
  · rename_i hstate
    refine (Framed.appendEvent h).ends (stopJob_simulated hj ?_ (fun _ => rfl) hc)
    cases hj' : j.state <;>
      simp_all [JobRow.task, Ownership.Task.stop, JobState.phase, JobState.isQueued]
  · obtain rfl := pure_ok.mp h
    exact .refl hc

/-! ## Renewal -/

/-- **An applied grant renews a live lease.** -/
theorem applyGrant_simulated {g : LeaseGrant}
    (hlease : g.decision = .accepted → g.leaseExpiresAt = now + initialLease)
    (hlive : g.decision = .accepted → ∃ a, s.attempts.lookup g.authority.attemptID = some a ∧
      a.state.isActive = true ∧ now < a.leaseExpiresAt) (hc : Coherent s now) :
    Simulated now s (s.applyGrant g) := by
  unfold Store.applyGrant
  split_ifs with haccepted
  · obtain ⟨a, ha, hactive, hnow⟩ := hlive haccepted
    have hlonger : a.leaseExpiresAt ≤ g.leaseExpiresAt := by
      rw [hlease haccepted]
      exact hc.leases _ a ha
    refine ⟨?_, ?_, fun _ _ => rfl, fun _ _ => .inl⟩
    · refine .single ?_
      convert Ownership.Step.renew s.ownership g.authority.attemptID a.grant g.leaseExpiresAt
        (congrArg (Option.map AttemptRow.grant) ha) hactive hnow hlonger using 1
      refine Ownership.State.ext rfl (funext fun id => ?_) rfl rfl rfl rfl
      simp only [Store.ownership, Store.view, Table.lookup_modify, Function.update_apply]
      split_ifs with hid
      · rw [hid, ha]
        rfl
      · rfl
    · refine ⟨hc.current, hc.resources, fun id row hrow => ?_⟩
      rw [Table.lookup_modify] at hrow
      split_ifs at hrow
      · obtain ⟨row', -, rfl⟩ := Option.map_eq_some_iff.mp hrow
        exact (hlease haccepted).le
      · exact hc.leases id row hrow
  · exact .refl hc

/-- The members of a valid batch are distinct. -/
theorem validMembers_nodup {seen : List Uuid} {l : List AttemptAuthority}
    (h : validMembers worker session seen l = true) :
    (l.map AttemptAuthority.attemptID).Nodup ∧ ∀ a ∈ l, a.attemptID ∉ seen := by
  induction l generalizing seen with
  | nil => exact ⟨List.nodup_nil, fun a ha => absurd ha List.not_mem_nil⟩
  | cons a l ih =>
    simp only [validMembers, Bool.and_eq_true, decide_eq_true_eq] at h
    obtain ⟨⟨-, hfresh⟩, hrest⟩ := h
    obtain ⟨hnodup, hnew⟩ := ih hrest
    refine ⟨?_, ?_⟩
    · rw [List.map_cons, List.nodup_cons]
      refine ⟨fun hmem => ?_, hnodup⟩
      obtain ⟨b, hb, heq⟩ := List.mem_map.mp hmem
      exact hnew b hb (heq ▸ List.mem_cons_self)
    · rintro b (_ | ⟨_, hb⟩)
      · exact hfresh
      · exact fun hmem => hnew b hb (List.mem_cons_of_mem _ hmem)

/-- A grant touches the attempt it names and no other. -/
theorem applyGrant_attempts (s : Store) (g : LeaseGrant) (h : attempt ≠ g.authority.attemptID) :
    (s.applyGrant g).attempts.lookup attempt = s.attempts.lookup attempt := by
  unfold Store.applyGrant
  split_ifs
  · exact (Table.lookup_modify ..).trans (if_neg h)
  · rfl

/-- **The grants of a first-time batch renew live leases**, each decided on the
rows the batch found. The induction is on the batch; `t` is the store reached
so far, which still has the rows of the members to come. -/
theorem applyGrants_simulated {batch : List AttemptAuthority} (l : List AttemptAuthority)
    (hnodup : (l.map AttemptAuthority.attemptID).Nodup) (t : Store)
    (hrows : ∀ a ∈ l, t.attempts.lookup a.attemptID = s.attempts.lookup a.attemptID)
    (hc : Coherent t now) :
    Simulated now t ((l.map (fun a => freshGrant now (lockedJob s a.jobID)
      (lockedAttempt s batch a.attemptID) a)).foldl Store.applyGrant t) := by
  induction l generalizing t with
  | nil => exact .refl hc
  | cons a l ih =>
    rw [List.map_cons, List.nodup_cons] at hnodup
    obtain ⟨hnew, hnodup⟩ := hnodup
    set g := freshGrant now (lockedJob s a.jobID) (lockedAttempt s batch a.attemptID) a with hg
    have hauthority : g.authority = a := freshGrant_authority ..
    have hfirst : Simulated now t (t.applyGrant g) := by
      refine applyGrant_simulated (fun hacc => (freshGrant_accepted hacc).2) (fun hacc => ?_) hc
      obtain ⟨l', hl', -, hactive, -, hnow, -⟩ :=
        leaseDecision_eq_accepted.mp (freshGrant_accepted hacc).1
      obtain ⟨row, hrow, rfl⟩ := lockedAttempt_eq_some hl'
      rw [hauthority, hrows a List.mem_cons_self]
      exact ⟨row, hrow, hactive, hnow⟩
    refine hfirst.trans (ih hnodup _ (fun b hb => ?_) hfirst.coherent)
    rw [applyGrant_attempts, hrows b (List.mem_cons_of_mem _ hb)]
    rw [hauthority]
    exact fun heq => hnew (heq ▸ List.mem_map_of_mem hb)

theorem renewLeases_simulated {id : WorkerIdentity} {r : LeaseRenewal} {grants : List LeaseGrant}
    (h : renewLeases s seen now id r = .ok (s', grants)) (hc : Coherent s now) :
    Simulated now s s' := by
  obtain ⟨hvalid, ⟨saved, rfl, -⟩ | ⟨rfl, requests, rfl⟩⟩ := renewLeases_eq_ok h
  · exact .refl hc
  · exact (applyGrants_simulated r.attempts (validMembers_nodup hvalid).1 s
      (fun _ _ => rfl) hc).framed (.of_tables rfl rfl)

/-! ## Acquisition -/

theorem isCurrentSession_seat (h : isCurrentSession s worker session = true) :
    s.seat worker = some session := by
  unfold isCurrentSession at h
  split at h
  · rename_i w ss hw hss
    simp only [Bool.and_eq_true, decide_eq_true_eq] at h
    rw [Store.seat, hw]
    exact h.1.1
  · exact absurd h (by simp)

/-- **An assignment is a grant** to the session its worker is run by. -/
theorem assignJob_simulated (h : assignJob s now worker session attempt job j = .ok s')
    (hj : s.jobs.lookup job = some j) (hqueued : j.state.isQueued = true)
    (hseat : s.seat worker = some session) (hc : Coherent s now) : Simulated now s s' := by
  simp only [assignJob, bind_ok, orThrow_ok] at h
  obtain ⟨attempts, hattempts, reservations, hreservations, h⟩ := h
  obtain ⟨hfree, rfl⟩ := Table.insertNew_eq_some hattempts
  obtain ⟨-, rfl⟩ := Table.insertNew_eq_some hreservations
  have hwaits : j.task.phase = .waiting := by
    cases hstate : j.state <;> simp_all [JobRow.task, JobState.phase, JobState.isQueued]
  refine (Framed.appendEvent h).ends ⟨.single ?_, ⟨hc.current, ?_, ?_⟩, fun _ _ => rfl,
    fun _ _ => .inl⟩
  · convert Ownership.Step.assign s.ownership job attempt worker session j.task (now + initialLease)
      (congrArg (Option.map JobRow.task) hj) hwaits (congrArg (Option.map AttemptRow.grant) hfree)
      hseat using 1
    refine Ownership.State.ext (funext fun id => ?_) (funext fun id => ?_) (funext fun id => ?_)
      rfl rfl rfl
    · rw [Ownership.State.start_task]
      simp only [Store.ownership, Store.view, Table.lookup_modify]
      split_ifs with hid
      · rw [hid, hj]
        rfl
      · rfl
    · rw [Ownership.State.start_grant]
      simp only [Store.ownership, Store.view, Table.lookup_insert_ite]
      split_ifs <;> rfl
    · rw [Ownership.State.start_claim]
      simp only [Store.ownership, Store.view, Table.lookup_insert_ite]
      split_ifs
      · simp only [Option.map_some, ReservationRow.claim, JobRow.task, hc.resources job j hj]
        rfl
      · rfl
  · intro id row hrow
    rw [Table.lookup_modify] at hrow
    split_ifs at hrow
    · obtain ⟨row', hrow', rfl⟩ := Option.map_eq_some_iff.mp hrow
      exact hc.resources id row' hrow'
    · exact hc.resources id row hrow
  · intro id row hrow
    rw [Table.lookup_insert_ite] at hrow
    split_ifs at hrow
    · obtain rfl := Option.some.inj hrow
      exact le_refl _
    · exact hc.leases id row hrow

theorem acquireWork_simulated {observed queueNow : Time} {id : WorkerIdentity}
    {request : AcquisitionRequest} {policy : AcquisitionPolicy} {result : AcquisitionResult}
    (h : acquireWork s observed queueNow now id request policy attempt = .ok (s', result))
    (hc : Coherent s now) : Simulated now s s' := by
  cases acquireWork_acquired h with
  | replayed => exact .refl hc
  | repeated => exact .refl hc
  | refused blockers sequence reason hkey hnotes =>
    exact Framed.simulated (.of_tables rfl rfl) hc
  | assigned blockers sequence assigned job j w p inputs hkey hnotes hassignable hinputs
        hassigned =>
    have hhost := hassignable.host
    simp only [readAcquisitionWorker, bind_ok, require_ok] at hhost
    obtain ⟨row, -, _, hcurrent, -⟩ := hhost
    have hassign : Simulated now (s.observing blockers sequence) assigned :=
      assignJob_simulated hassigned hassignable.found hassignable.queued
        (isCurrentSession_seat hcurrent) ⟨hc.current, hc.resources, hc.leases⟩
    exact Simulated.framed (Simulated.after (fun _ => hassign) (.of_tables rfl rfl) hc)
      (.of_tables rfl rfl)

/-! ## Completion -/

/-- What an accepted completion found: its own tuple, active, current and
within both deadlines. -/
theorem completionDecision_accepted {job : LeaseJob} {a : LeaseAttempt}
    (h : completionDecision r job a now = .accepted) :
    r.authority = a.authority ∧ a.state.isActive = true ∧
      job.current = some r.authority.attemptID ∧ now < a.expires ∧ now < a.phase := by
  simp only [completionDecision, leaseDecision] at h
  grind

/-- **A completion ends the attempt**; its job is done or waits again. -/
theorem completionOutcome_cases (sha : Uuid → ℕ) (r : CompletionRequest) (job : Job)
    (completed now : Time) :
    (completionOutcome sha r job completed now).state.isActive = false ∧
      ((completionOutcome sha r job completed now).jobState.phase = .done ∨
        (completionOutcome sha r job completed now).jobState.phase = .waiting) := by
  unfold completionOutcome
  split
  · exact ⟨rfl, .inl rfl⟩
  · exact ⟨rfl, .inl rfl⟩
  · split_ifs
    · exact ⟨rfl, .inr rfl⟩
    · exact ⟨rfl, .inl rfl⟩

/-- **The evidence comes first**: what is there once a completion is recorded
and its attempt has not ended yet. -/
structure Recorded (now : Time) (s s' : Store) (r : CompletionRequest) : Prop where
  steps : Ownership.Steps now s.ownership s'.ownership
  coherent : Coherent s' now
  evidence : ∀ attempt, Dead s now attempt → s'.evidenceOf attempt = s.evidenceOf attempt
  jobs : s'.jobs = s.jobs
  attempts : s'.attempts = s.attempts
  own : ∃ c, s'.completions.lookup r.authority.attemptID = some c ∧
    c.worker = r.authority.workerID ∧ c.session = r.authority.sessionID
  others : ∀ attempt, attempt ≠ r.authority.attemptID →
    s'.completions.lookup attempt = s.completions.lookup attempt

theorem recordCompletion_recorded {state : AttemptState}
    (h : recordCompletion s r p state m = .ok s') (halive : ¬ Dead s now r.authority.attemptID)
    (hc : Coherent s now) : Recorded now s s' r := by
  simp only [recordCompletion, bind_ok, orThrow_ok, pure_ok] at h
  obtain ⟨rows, hrows, references, -, rfl⟩ := h
  obtain ⟨-, rfl⟩ := Table.insertNew_eq_some hrows
  refine ⟨.single ?_, ⟨hc.current, hc.resources, hc.leases⟩, fun attempt hdead => ?_, rfl, rfl,
    ⟨_, (Table.lookup_insert_ite ..).trans (if_pos rfl), rfl, rfl⟩,
    fun attempt hne => (Table.lookup_insert_ite ..).trans (if_neg hne)⟩
  · refine Ownership.Step.witness s.ownership _ _ (fun a ha => ?_) (fun _ _ hw => hw)
    rw [Store.settled, Table.lookup_insert_ite]
    split_ifs
    · rfl
    · exact ha
  · have hne : attempt ≠ r.authority.attemptID := fun heq => halive (heq ▸ hdead)
    simp only [Store.evidenceOf, Table.lookup_insert_ite, if_neg hne]

/-- The attempt row after a completion. -/
def AttemptRow.complete (r : CompletionRequest) (p : CompletionPayload) (state : AttemptState)
    (completed : Time) (a : AttemptRow) : AttemptRow :=
  { a with
    state := state
    exitCode := r.exitCode
    reason := r.reason
    completionID := some r.completionID
    completionDigest := some p
    cleanupPending := !r.stopped
    finishedAt := some completed }

/-- The job row after a completion, its event not yet counted. -/
def JobRow.complete (attempt : Uuid) (out : CompletionOutcome) (m : ResultManifest) (j : JobRow) :
    JobRow :=
  { j with
    state := out.jobState
    currentAttempt := none
    acceptedAttempt := if out.state = AttemptState.succeeded then some attempt else none
    acceptedManifest := if out.state = AttemptState.succeeded then some m else none
    nextEligibleAt := timestamptz out.nextEligible }

/-- The rows a completion closes. -/
def Store.complete (s : Store) (r : CompletionRequest) (p : CompletionPayload)
    (out : CompletionOutcome) (m : ResultManifest) (completed : Time) : Store :=
  s.endAttempt r.authority.jobID r.authority.attemptID (·.complete r.authority.attemptID out m)
    (·.complete r p out.state completed)
    ({ · with state := if r.stopped then .released else .quarantined })

/-- **What the end of an attempt does**: the rows it closes, and the event and
the sweep stop that follow. -/
theorem finishAttempt_eq_ok (h : finishAttempt s completed now r p out m = .ok s') :
    ∃ res logged, s.reservations.lookup r.authority.attemptID = some res ∧
      res.state = .active ∧
      (s.complete r p out m completed).appendEvent now r.authority.jobID
        (some r.authority.attemptID)
          (.attemptCompleted r.completionID out.state out.jobState r.reason
          (!r.stopped) out.nextEligible) = .ok logged ∧
      (if out.jobState = .failed then applySweepFailFast logged now r.authority.jobID
        else pure logged) = .ok s' := by
  simp only [finishAttempt, bind_ok] at h
  obtain ⟨settled, hreservation, logged, hlogged, hlast⟩ := h
  obtain ⟨res, hres, hheld, rfl⟩ := settleReservation_eq_ok hreservation
  exact ⟨res, logged, hres, hheld, hlogged, hlast⟩

/-- **The end of a settled attempt is a finish, and a stop of the sweep.** -/
theorem finishAttempt_simulated (h : finishAttempt s completed now r p out m = .ok s')
    (hj : s.jobs.lookup r.authority.jobID = some j)
    (hcurrent : j.currentAttempt = some r.authority.attemptID)
    (ha : s.attempts.lookup r.authority.attemptID = some a) (hended : out.state.isActive = false)
    (hnext : out.jobState.phase = .done ∨ out.jobState.phase = .waiting)
    (hsettled : s.settled r.authority.attemptID) (hc : Coherent s now) : Simulated now s s'
    := by
  obtain ⟨res, logged, hres, -, hlogged, hlast⟩ := finishAttempt_eq_ok h
  have hkeeps : KeepsHolders s (s.complete r p out m completed) :=
    KeepsHolders.endAttempt s _ _ _ (fun _ => rfl) (fun _ => rfl)
  have hclosed : Simulated now s (s.complete r p out m completed) := by
    refine hkeeps.simulated (.single ?_) hc
    refine endAttempt_step hj hcurrent ha hres rfl ?_ ?_ (hnext.imp_right (⟨·, .inl hsettled⟩))
    · simp only [AttemptRow.grant, AttemptRow.complete, hended]
    · simp only [ReservationRow.claim]
      split_ifs <;> rfl
  have hlogged' := hclosed.framed (.appendEvent hlogged)
  obtain hsweep | rfl := failFast_cases hlast
  · obtain ⟨hkeeps', -, -⟩ := applySweepFailFast_keeps hsweep
    exact hlogged'.trans
      (hkeeps'.simulated (applySweepFailFast_steps hsweep _ _) hlogged'.coherent)
  · exact hlogged'

/-- The end of an attempt, in the rows: only its own attempt changes. -/
theorem finishAttempt_attempts (h : finishAttempt s completed now r p out m = .ok s') :
    s'.attempts = s.attempts.modify r.authority.attemptID (·.complete r p out.state completed) := by
  obtain ⟨res, logged, -, -, hlogged, hlast⟩ := finishAttempt_eq_ok h
  have hattempts := (appendEvent_attempts hlogged).1
  obtain hsweep | rfl := failFast_cases hlast
  · obtain ⟨-, hattempts', -⟩ := applySweepFailFast_keeps hsweep
    exact hattempts'.trans hattempts
  · exact hattempts

theorem completeAttempt_simulated {id : WorkerIdentity} {result : CompletionResult}
    (h : completeAttempt sha s completed now id r = .ok (s', result)) (hc : Coherent s now) :
    Simulated now s s' := by
  obtain ⟨p, a, j, m, hcommit, -⟩ | ⟨rfl, -⟩ | ⟨rfl, -⟩ := completeAttempt_cases h
  · obtain ⟨recorded, hrecorded, hfinished⟩ := hcommit.finished
    obtain ⟨-, hactive, hcurrent, hlease, -⟩ := completionDecision_accepted hcommit.late
    have hrec := recordCompletion_recorded hrecorded (not_dead hcommit.attempt hactive hlease) hc
    obtain ⟨hended, hnext⟩ := completionOutcome_cases sha r j.spec completed now
    obtain ⟨c, hown, hworker, hsession⟩ := hrec.own
    have hjob : a.job = r.authority.jobID := congrArg AttemptAuthority.jobID hcommit.authority
    have hfin : Simulated now recorded s' :=
      finishAttempt_simulated hfinished (by rw [hrec.jobs, ← hjob, hcommit.job]) hcurrent
        (by rw [hrec.attempts, hcommit.attempt]) hended hnext
        (by rw [Store.settled, hown]; rfl) hrec.coherent
    refine ⟨hrec.steps.trans hfin.steps, hfin.coherent, fun attempt hdead => ?_,
      fun attempt c' hc' => ?_⟩
    · exact (hfin.evidence attempt (hdead.steps hrec.steps)).trans (hrec.evidence attempt hdead)
    · refine (hfin.completed attempt c' hc').elim (fun hbefore => ?_) .inr
      by_cases hattempt : attempt = r.authority.attemptID
      · -- The completion just recorded: by now its attempt has ended.
        subst hattempt
        obtain rfl := Option.mem_unique hown hbefore
        refine .inr ⟨a.complete r p _ completed, ?_, ?_, ?_, hended⟩
        · rw [finishAttempt_attempts hfinished, Table.lookup_modify, if_pos rfl, hrec.attempts,
            hcommit.attempt]
          rfl
        · exact (congrArg AttemptAuthority.workerID hcommit.authority).trans hworker.symm
        · exact (congrArg AttemptAuthority.sessionID hcommit.authority).trans hsession.symm
      · exact .inl ((hrec.others attempt hattempt).symm.trans hbefore)
  · exact .refl hc
  · exact .refl hc

/-! ## Log segments -/

/-- A registered segment is evidence, and no step. -/
theorem registerLogSegment_simulated {id : WorkerIdentity} {r : LogSegmentRequest} {fresh : Uuid}
    {result : MutationResult} (h : registerLogSegment s seen now id r fresh = .ok (s', result))
    (hc : Coherent s now) : Simulated now s s' := by
  obtain ⟨hopen, hfree, -, -, upload, u, -, rfl⟩ | ⟨rfl, -⟩ | ⟨rfl, -⟩ :=
    registerLogSegment_cases h
  · refine ⟨.refl, ⟨hc.current, hc.resources, hc.leases⟩, fun attempt hdead => ?_, fun _ _ => .inl⟩
    have hne : r.claims.authority.attemptID ≠ attempt := fun heq => hopen.not_dead (heq ▸ hdead)
    refine Prod.ext rfl (funext fun segment => ?_)
    simp only [Store.evidenceOf, Table.lookup_insert_ite]
    split_ifs with hsegment
    · rw [hsegment, hfree]
      simp [hne]
    · rfl
  · exact .refl hc
  · exact .refl hc

/-! ## The reaper -/

/-- An active attempt that no phase deadline ended has a lease that ends
first, or still has time in its phase. -/
theorem lt_of_expiredPhaseReason_eq_none {state : AttemptState} {lease phase : Time}
    (h : expiredPhaseReason state lease phase now = none) (hactive : state.isActive = true) :
    now < phase ∨ lease < phase := by
  unfold expiredPhaseReason at h
  split_ifs at h with hlater
  · exact hlater
  · cases state <;> simp_all [AttemptState.isActive]

theorem reapOneExpiredAttempt_simulated {observed : Time} {x : Bool × Bool}
    (h : reapOneExpiredAttempt sha s seen observed now = .ok (s', x)) (hc : Coherent s now) :
    Simulated now s s' := by
  unfold reapOneExpiredAttempt at h
  split at h
  · obtain ⟨rfl, -⟩ := pure_pair_ok.mp h
    exact .refl hc
  · simp only [bind_ok, orThrow_ok] at h
    obtain ⟨j, -, a, ha, h⟩ := h
    split at h
    · obtain ⟨rfl, -⟩ := pure_pair_ok.mp h
      exact .refl hc
    · rename_i hexpired
      simp only [bind_ok, pure_pair_ok] at h
      obtain ⟨fenced, hfenced, rfl, -⟩ := h
      obtain ⟨hkeeps, -⟩ := fenceLostAttempt_keeps hfenced
      have hsteps := fenceLostAttempt_steps hfenced s.settled s.replaced (fun a' ha' hreason => by
        obtain rfl := Option.mem_unique ha ha'
        have hactive : a.state.isActive = true := by
          by_contra hnot
          exact hexpired (.inr (.inl (by simpa using hnot)))
        -- With time left in the lease there would be time left in the phase.
        refine .inr (.inr (not_lt.mp fun hlease => ?_))
        exact hexpired (.inr (.inr ⟨hlease,
          (lt_of_expiredPhaseReason_eq_none hreason hactive).elim id hlease.trans⟩)))
      exact (hkeeps.simulated hsteps hc).framed (.modify_worker _ _ (by intro w; rfl))

/-! ## Registration -/

/-- **A vacated worker**: what a new session finds. Nothing of the worker is
live, and nothing of other workers' sessions has changed. -/
structure Vacated (now : Time) (s t : Store) (worker : Uuid) : Prop where
  steps : Ownership.Steps now s.ownership t.ownership
  free : ∀ id a, t.attempts.lookup id = some a → a.worker = worker → a.state.isActive = false
  workers : t.workers = s.workers
  evidence : t.evidence = s.evidence
  sessions : ∀ id row, s.sessions.lookup id = some row → row.worker ≠ worker →
    t.sessions.lookup id = some row
  resources : ∀ job row, t.jobs.lookup job = some row → row.resources = row.spec.spec.resources
  leases : ∀ id row, t.attempts.lookup id = some row → row.leaseExpiresAt ≤ now + initialLease

/-- A worker without a session is vacant. -/
theorem Vacated.of_seat_none (hseat : s.seat worker = none) (hown : Ownership.Owned s.ownership)
    (hc : Coherent s now) :
    Vacated now s s worker where
  steps := .refl
  free id a ha hworker := by
    by_contra hactive
    rw [Bool.not_eq_false] at hactive
    have hseated := hown.seated id a.grant (congrArg (Option.map AttemptRow.grant) ha) hactive
    have hnone : s.seat a.worker = none := hworker ▸ hseat
    exact absurd (hnone.symm.trans hseated) (by simp)
  workers := rfl
  evidence := rfl
  sessions _ _ hrow _ := hrow
  resources := hc.resources
  leases := hc.leases

theorem mem_workerAttempts :
    (id, a) ∈ workerAttempts s worker ↔
      s.attempts.lookup id = some a ∧ a.worker = worker ∧ a.state.isActive = true := by
  rw [workerAttempts, List.mem_insertionSort, Table.mem_select, Bool.and_eq_true,
    decide_eq_true_eq]

/-- **Every attempt a session leaves behind has lapsed**: an approved takeover
answers for it, or its lease is over. -/
theorem workerAttempts_lapsed {replaced : Uuid → Uuid → Prop} (hown : Ownership.Owned s.ownership)
    (hseat : s.seat worker = some fromSession) (ha : (id, a) ∈ workerAttempts s worker)
    (hevidence : replaced worker fromSession ∨
      ∀ x ∈ workerAttempts s worker, x.2.leaseExpiresAt ≤ now) :
    Ownership.Lapsed (s.view s.settled replaced) now id a.grant := by
  obtain hreplaced | hleases := hevidence
  · obtain ⟨hrow, rfl, hactive⟩ := mem_workerAttempts.mp ha
    have hseated := hown.seated id a.grant (congrArg (Option.map AttemptRow.grant) hrow) hactive
    obtain rfl : fromSession = a.session := Option.mem_unique hseat hseated
    exact .inr (.inl hreplaced)
  · exact .inr (.inr (hleases _ ha))

/-- **The fences of a replaced session**, one after the other: each finds the
machine where the ones before it left it. -/
theorem fenceAll_induction {l : List (Uuid × AttemptRow)} {replaced : Uuid → Uuid → Prop}
    (P : Store → Prop) (hP : P s) (hturn : ∀ u x u', x ∈ l →
      Ownership.Steps now (s.view s.settled replaced) (u.view s.settled replaced) → P u →
        fenceLostAttempt sha u now x.2.job x.1 = .ok u' → P u')
    (h : l.foldlM (fun s x => fenceLostAttempt sha s now x.2.job x.1) s = .ok t)
    (hrows : ∀ x ∈ l, s.attempts.lookup x.1 = some x.2)
    (hlapsed : ∀ x ∈ l, Ownership.Lapsed (s.view s.settled replaced) now x.1 x.2.grant) :
    Ownership.Steps now (s.view s.settled replaced) (t.view s.settled replaced) ∧ P t := by
  refine foldlM_invariant (fun t => Ownership.Steps now
    (s.view s.settled replaced) (t.view s.settled replaced) ∧ P t) ⟨.refl, hP⟩ ?_ h
  rintro u x u' hx ⟨hsteps, hu⟩ hfence
  refine ⟨hsteps.trans (fenceLostAttempt_steps hfence _ _ fun a ha _ => ?_),
    hturn u x u' hx hsteps hu hfence⟩
  -- What had lapsed when the loop began has still lapsed.
  obtain ⟨g, hg, hstill⟩ := Ownership.Lapsed.steps hsteps
    (congrArg (Option.map AttemptRow.grant) (hrows x hx)) (hlapsed x hx)
  obtain rfl : a.grant = g := Option.some.inj
    ((congrArg (Option.map AttemptRow.grant) ha).symm.trans hg)
  exact hstill

/-- Every attempt the loop fences ends. -/
theorem fenceAll_ended {l : List (Uuid × AttemptRow)}
    (h : l.foldlM (fun s x => fenceLostAttempt sha s now x.2.job x.1) s = .ok t) :
    ∀ x ∈ l, ∀ a, t.attempts.lookup x.1 = some a → a.state.isActive = false := by
  refine foldlM_forall (fun x t => ∀ a, t.attempts.lookup x.1 = some a → a.state.isActive = false)
    (fun u x u' hturn a ha => ?_) (fun u x u' hturn y hy a ha => ?_) h
  all_goals
    obtain ⟨-, out, hended, hattempts⟩ := fenceLostAttempt_keeps hturn
    rw [hattempts, Table.lookup_modify] at ha
  · rw [if_pos rfl, Option.map_eq_some_iff] at ha
    obtain ⟨a', -, rfl⟩ := ha
    exact hended
  · split_ifs at ha
    · obtain ⟨a', -, rfl⟩ := Option.map_eq_some_iff.mp ha
      exact hended
    · exact hy a ha

/-- The store a replaced session leaves, once its attempts are fenced. -/
def Store.vacate (s : Store) (now : Time) (worker fromSession : Uuid) (approved : Bool) : Store :=
  { s with
    sessions := s.sessions.update (fun _ ss =>
      if ss.worker = worker ∧ ss.fencedAt = none then { ss with fencedAt := some now } else ss)
    takeovers :=
      if approved then
        s.takeovers.modify (worker, fromSession) (fun t => { t with usedAt := some now })
      else s.takeovers }

/-- **What recovery does**: without an approval the session was fenced before,
or it has been silent and every lease of the worker is over. -/
theorem recoverSession_eq_ok (h : recoverSession sha s now worker fromSession toSession = .ok t)
    :
    ∃ w session fenced, s.workers.lookup worker = some w ∧ w.currentSession = some fromSession ∧
      s.sessions.lookup fromSession = some session ∧
      (takeoverApproved s worker fromSession toSession = true ∨ session.fencedAt ≠ none ∨
        w.lastHeartbeat.getD session.createdAt + sessionInactivity ≤ now ∧
          ∀ x ∈ workerAttempts s worker, x.2.leaseExpiresAt ≤ now) ∧
      (workerAttempts s worker).foldlM
        (fun s x => fenceLostAttempt sha s now x.2.job x.1) s = .ok fenced ∧
      t = fenced.vacate now worker fromSession (takeoverApproved s worker fromSession toSession)
    := by
  simp only [recoverSession, bind_ok, orThrow_ok, require_ok] at h
  obtain ⟨w, hw, session, hsession, -, ⟨hcurrent, -⟩, h⟩ := h
  split at h
  · simp only [bind_ok, require_ok, pure_ok] at h
    obtain ⟨-, hsilent, -, hleases, fenced, hfenced, rfl⟩ := h
    exact ⟨w, session, fenced, hw, hcurrent, hsession, .inr (.inr ⟨hsilent, hleases⟩), hfenced, rfl⟩
  · rename_i hcase
    simp only [bind_ok, pure_ok] at h
    obtain ⟨fenced, hfenced, rfl⟩ := h
    refine ⟨w, session, fenced, hw, hcurrent, hsession, ?_, hfenced, rfl⟩
    by_cases happroved : takeoverApproved s worker fromSession toSession = true
    · exact .inl happroved
    · exact .inr (.inl fun hnone => hcase ⟨happroved, hnone⟩)

/-- The evidence a replaced session leaves is what was there and, with an
approval, its own takeover. -/
theorem vacate_replaced {fenced : Store} (hkeeps : KeepsHolders s fenced) (now : Time)
    (worker fromSession toSession : Uuid) :
    (∀ w session, s.replaced w session → (fenced.vacate now worker fromSession
        (takeoverApproved s worker fromSession toSession)).replaced w session) ∧
      (takeoverApproved s worker fromSession toSession = true →
        (fenced.vacate now worker fromSession
          (takeoverApproved s worker fromSession toSession)).replaced worker fromSession) := by
  simp only [Store.replaced_iff, Store.vacate]
  constructor
  · intro w session hw
    split_ifs
    · rw [Table.lookup_modify, hkeeps.takeovers]
      split_ifs with hk
      · cases hrow : s.takeovers.lookup (w, session) with
        | none => simp [hrow] at hw
        | some row => rfl
      · exact hw
    · rw [hkeeps.takeovers]
      exact hw
  · intro happroved
    rw [if_pos happroved, Table.lookup_modify, if_pos rfl, hkeeps.takeovers]
    unfold takeoverApproved at happroved
    split at happroved
    · rename_i row hrow
      rw [hrow]
      rfl
    · exact absurd happroved (by simp)

/-- **The fences of a recovery**: every attempt fenced has lapsed by the
evidence the recovery leaves, and what each fence keeps the recovery keeps. -/
theorem recoverSession_induction (P : Store → Prop) (hP : P s)
    (hturn : ∀ u x u', x ∈ workerAttempts s worker → Ownership.Owned (u.view s.settled t.replaced) →
      P u → fenceLostAttempt sha u now x.2.job x.1 = .ok u' → P u')
    (h : recoverSession sha s now worker fromSession toSession = .ok t)
    (hown : Ownership.Owned s.ownership) (hc : Coherent s now) :
    Ownership.Step now s.ownership (s.view s.settled t.replaced) ∧ ∃ fenced,
      (workerAttempts s worker).foldlM
        (fun s x => fenceLostAttempt sha s now x.2.job x.1) s = .ok fenced ∧
      t = fenced.vacate now worker fromSession (takeoverApproved s worker fromSession toSession) ∧
      Ownership.Steps now (s.view s.settled t.replaced) (fenced.view s.settled t.replaced) ∧
      P fenced := by
  obtain ⟨w, session, fenced, hw, hcurrent, hsession, hevidence, hfenced, ht⟩ :=
    recoverSession_eq_ok h
  have hseat : s.seat worker = some fromSession := by rw [Store.seat, hw]; exact hcurrent
  have hkeeps : KeepsHolders s fenced := foldlM_invariant (KeepsHolders s) (.refl s)
    (fun u x u' _ hu hfence => hu.trans (fenceLostAttempt_keeps hfence).1) hfenced
  obtain ⟨hmono, hused⟩ := vacate_replaced hkeeps now worker fromSession toSession
  rw [← ht] at hmono hused
  have hlapsed : ∀ x ∈ workerAttempts s worker,
      Ownership.Lapsed (s.view s.settled t.replaced) now x.1 x.2.grant := by
    intro x hx
    refine workerAttempts_lapsed hown hseat hx ?_
    obtain hyes | hfencedAt | ⟨-, hleases⟩ := hevidence
    · exact .inl (hused hyes)
    · -- The current session is not fenced.
      obtain ⟨row, hrow, -, hnone⟩ := hc.current worker fromSession hseat
      obtain rfl := Option.mem_unique hsession hrow
      exact absurd hnone hfencedAt
    · exact .inr hleases
  have hwitness : Ownership.Step now s.ownership (s.view s.settled t.replaced) :=
    .witness s.ownership s.settled t.replaced (fun _ ha => ha) hmono
  obtain ⟨hsteps, hPfenced⟩ := fenceAll_induction P hP (fun u x u' hx hmachine hu hfence =>
    hturn u x u' hx ((hown.steps (.single hwitness)).steps hmachine) hu hfence) hfenced
    (fun x hx => (mem_workerAttempts.mp hx).1) hlapsed
  exact ⟨hwitness, fenced, hfenced, ht, hsteps, hPfenced⟩

/-- **Recovery vacates the worker.** -/
theorem recoverSession_vacated
    (h : recoverSession sha s now worker fromSession toSession = .ok t)
    (hown : Ownership.Owned s.ownership) (hc : Coherent s now) : Vacated now s t worker
    := by
  obtain ⟨hwitness, fenced, hfenced, ht, hsteps, hkeeps⟩ := recoverSession_induction
    (KeepsHolders s) (.refl s)
    (fun u x u' _ _ hu hfence => hu.trans (fenceLostAttempt_keeps hfence).1) h hown hc
  have hcoherent := hkeeps.coherent hc
  have hattempts : t.attempts = fenced.attempts := by rw [ht]; rfl
  refine ⟨?_, fun id a ha hworker => ?_, by rw [ht]; exact hkeeps.workers,
    by rw [ht]; exact hkeeps.evidence, fun id row hrow hother => ?_,
    by rw [ht]; exact hcoherent.resources, by rw [ht]; exact hcoherent.leases⟩
  · have hend : t.ownership = fenced.view s.settled t.replaced := by
      have hsettled : t.settled = s.settled := by
        rw [ht]
        exact Store.settled_eq hkeeps.evidence
      rw [Store.ownership, hsettled]
      nth_rewrite 1 [ht]
      rfl
    rw [hend]
    exact (Relation.ReflTransGen.single hwitness).trans hsteps
  · -- A live attempt of the worker was live before, so the loop ended it.
    rw [hattempts] at ha
    by_contra hactive
    rw [Bool.not_eq_false] at hactive
    have hmap := hkeeps.leases id
    rw [ha, Option.map_some, eq_comm, Option.map_eq_some_iff] at hmap
    obtain ⟨before, hbefore, -⟩ := hmap
    obtain ⟨g, hg, hev⟩ := hsteps.evolves (congrArg (Option.map AttemptRow.grant) hbefore)
    obtain rfl : a.grant = g := Option.some.inj
      ((congrArg (Option.map AttemptRow.grant) ha).symm.trans hg)
    have hplace : before.worker = worker := hev.place.symm.trans hworker
    have hlive : before.state.isActive = true := hev.live hactive
    have hended := fenceAll_ended hfenced (id, before)
      (mem_workerAttempts.mpr ⟨hbefore, hplace, hlive⟩) a ha
    exact absurd (hactive.symm.trans hended) (by simp)
  · simp only [ht, Store.vacate, Table.lookup_update, hkeeps.sessions, hrow, Option.map_some]
    rw [if_neg fun hboth => hother hboth.1]

theorem recordRegistration_framed (s : Store) (worker request : Uuid) (hash : RegistrationClaims) :
    Framed s (s.recordRegistration worker request hash) := by
  unfold Store.recordRegistration
  split_ifs
  · exact .refl s
  · exact .of_tables rfl rfl

/-- **A new session takes a vacated worker.** -/
theorem installSession_simulated {request : Uuid} {hash : RegistrationClaims} {result : Session}
    (hv : Vacated now s t worker) (hworker : (s.workers.lookup worker).isSome = true)
    (hc : Coherent s now) (h : installSession t now worker request hash = .ok (s', result)) :
    Simulated now s s' := by
  simp only [installSession, bind_ok, orThrow_ok, pure_pair_ok] at h
  obtain ⟨sessions, hsessions, rfl, -⟩ := h
  obtain ⟨hfree, rfl⟩ := Table.insertNew_eq_some hsessions
  obtain ⟨w, hw⟩ := Option.isSome_iff_exists.mp hworker
  refine (recordRegistration_framed ..).ends ⟨hv.steps.trans (.single ?_),
    ⟨?_, hv.resources, hv.leases⟩, fun attempt _ => Store.evidenceOf_eq hv.evidence attempt,
    completed_of_evidence hv.evidence⟩
  · convert Ownership.Step.reseat t.ownership worker hash.sessionID ?_ using 1
    · refine Ownership.State.ext rfl rfl rfl (funext fun x => ?_) rfl rfl
      simp only [Store.ownership, Store.view, Store.seat, Table.lookup_modify,
        Function.update_apply, hv.workers]
      split_ifs with hx
      · rw [hx, hw]
        rfl
      · rfl
    · intro id g hg hplace
      obtain ⟨a, ha, rfl⟩ := Option.map_eq_some_iff.mp hg
      exact hv.free id a ha hplace
  · intro x session hseat
    simp only [Store.seat, Table.lookup_modify, hv.workers] at hseat
    split_ifs at hseat with hx
    · subst hx
      rw [hw] at hseat
      obtain rfl : hash.sessionID = session := Option.some.inj hseat
      exact ⟨_, (Table.lookup_insert_ite ..).trans (if_pos rfl), rfl, rfl⟩
    · obtain ⟨row, hrow, rfl, hnone⟩ := hc.current x session hseat
      have hkept := hv.sessions session row hrow hx
      have hne : session ≠ hash.sessionID := by
        rintro rfl
        exact absurd (hfree.symm.trans hkept) (by simp)
      exact ⟨row, (Table.lookup_insert_ite ..).trans ((if_neg hne).trans hkept), rfl, hnone⟩

theorem registerSession_simulated {id : WorkerIdentity} {r : Registration} {result : Session}
    (h : registerSession sha s now id r = .ok (s', result)) (hc : Coherent s now)
    (hown : Ownership.Owned s.ownership) : Simulated now s s' := by
  simp only [registerSession, bind_ok, orThrow_ok] at h
  obtain ⟨hash, -, -, -, -, -, w, hw, -, -, -, -, h⟩ := h
  have hworker : (s.workers.lookup id.workerID).isSome = true := by rw [hw]; rfl
  split at h
  · split_ifs at h
    · simp only [bind_ok, pure_pair_ok] at h
      obtain ⟨-, -, -, -, rfl, -⟩ := h
      exact (recordRegistration_framed ..).simulated hc
  · split at h
    · simp only [bind_ok] at h
      obtain ⟨recovered, hrecovered, hinstalled⟩ := h
      exact installSession_simulated (recoverSession_vacated hrecovered hown hc) hworker hc
        hinstalled
    · rename_i hnone
      have hseat : s.seat id.workerID = none := by
        rw [Store.seat, hw]
        exact hnone
      exact installSession_simulated (.of_seat_none hseat hown hc) hworker hc h

end Dispatch
