import Dispatch.Ownership.Invariant
import Dispatch.Worker.Lease

/-!
# Authority windows exclude each other

The control plane and its workers as one system. Hosts send the three calls
that can end in an authority window, at times of their own boot clocks; the
control plane serves a call, at a time of the database, and commits any other
transactions in between; answers are delivered late, more than once or never,
and every window they make is kept.

A window is measured from the moment its request was sent. Between that moment
and now the two clocks may have drifted apart; as long as the database's clock
has gained no more than the five seconds that a window gives up, a live window
means a lease that is still running (`Fleet.Sound.running`), and then
the ownership machine says that a task's other grants have lapsed.
-/

namespace Dispatch

open Txn

variable {s s' : Store} {now : Time} {authority : AttemptAuthority} {worker : Uuid}
  {a : WorkAssignment} {id : WorkerIdentity} {w : World}

variable {session attempt : Uuid} {sha : Uuid → ℕ}

/-! ## Calls and answers -/

/-- The calls that grant authority. -/
inductive AuthorityRequest where
  | acquire (identity : WorkerIdentity) (request : AcquisitionRequest)
  | list (identity : WorkerIdentity) (session : Uuid) (after : Option Uuid) (pageSize : ℕ)
  | renew (identity : WorkerIdentity) (request : LeaseRenewal)
  deriving DecidableEq

/-- A call: its host, when it was sent on the host's boot clock, and what the
database's clock showed then. -/
structure Call where
  host : ℕ
  sent : MonoTime
  asked : Time
  request : AuthorityRequest
  deriving DecidableEq

/-- What a call is answered, as far as it grants authority. -/
inductive Answer where
  | assignments (granted : List Remaining)
  | renewals (results : List LeaseResult)
  deriving DecidableEq

/-- Rejected and expired assignments grant nothing. -/
def AcquisitionResult.answer : AcquisitionResult → Answer
  | .assignment a => .assignments a.remaining.toOption.toList
  | _ => .assignments []

/-- The assignments of a page that have time left. -/
def AssignmentPage.answer (page : AssignmentPage) : Answer :=
  .assignments (page.assignments.filterMap (fun a => a.remaining.toOption))

/-- What the database chooses while it serves a call. -/
inductive Service where
  | acquire (observed queueNow : Time) (policy : AcquisitionPolicy) (attempt : Uuid)
  /-- How long after the call each attempt's clock sample was taken. -/
  | list (later : Uuid → Time)
  | renew (seen : Store)

/-- **A call is served** by its transaction and the RPC layer's answer. -/
def Call.serve (w : World) (call : Call) (service : Service) : Except StoreError (Store × Answer) :=
  match call.request, service with
  | .acquire id r, .acquire observed queueNow policy attempt => do
    let (s, result) ← acquireWork w.store observed queueNow w.clock id r policy attempt
    pure (s, result.answer)
  | .list id session after pageSize, .list later => do
    let page ← listAssignments w.store (fun a => min (call.asked + later a) w.clock) id session
      after pageSize
    pure (w.store, page.answer)
  | .renew id r, .renew seen => do
    let (s, grants) ← renewLeases w.store seen w.clock id r
    let results ← orThrow (leaseResponse grants) .invalid
    pure (s, .renewals results)
  | _, _ => throw .invalid

/-- What an answer grants. -/
def Answer.grants : Answer → List Remaining
  | .assignments granted => granted
  | .renewals results => (results.filter (fun r => decide (r.decision = .accepted))).map
      (fun r => ⟨r.authority, r.remainingMs, r.phaseRemainingMs⟩)

/-- **The windows a delivered answer makes.** An assignment is also checked for
what it asks to run, and may be refused for that. -/
def Answer.windows (call : Call) (received : MonoTime) :
    Answer → List (AttemptAuthority × AuthorityWindow)
  | .assignments granted => granted.filterMap (fun g =>
      (AuthorityWindow.fromGrant call.sent received g.leaseMs g.phaseMs).toOption.map
        (g.authority, ·))
  | .renewals results =>
    match call.request with
    | .renew _ r =>
      ((decodeRenewals r.attempts results call.sent received).toOption.getD []).filterMap (fun o =>
        match o with
        | .renewed identity window => some (identity, window)
        | _ => none)
    | _ => []

variable {call : Call}

/-- **Every window comes from a grant of the answer.** -/
theorem Answer.mem_windows {received : MonoTime} {answer : Answer}
    {window : AuthorityWindow} (h : (authority, window) ∈ answer.windows call received) :
    ∃ g ∈ answer.grants, g.authority = authority ∧
      AuthorityWindow.fromGrant call.sent received g.leaseMs g.phaseMs = .ok window := by
  cases answer with
  | assignments granted =>
    obtain ⟨g, hg, hwindow⟩ := List.mem_filterMap.mp h
    obtain ⟨w, hw, heq⟩ := Option.map_eq_some_iff.mp hwindow
    obtain ⟨rfl, rfl⟩ := Prod.mk.inj heq
    exact ⟨g, hg, rfl, toOption_eq_some.mp hw⟩
  | renewals results =>
    simp only [Answer.windows] at h
    split at h
    · obtain ⟨o, ho, heq⟩ := List.mem_filterMap.mp h
      split at heq
      · obtain ⟨rfl, rfl⟩ := Prod.mk.inj (Option.some.inj heq)
        cases hdecoded : decodeRenewals _ results call.sent received with
        | error e =>
          rw [hdecoded] at ho
          exact absurd ho List.not_mem_nil
        | ok outcomes =>
          rw [hdecoded] at ho
          simp only [decodeRenewals] at hdecoded
          split_ifs at hdecoded
          obtain ⟨x, hx, hrenewed⟩ := mem_of_mapM_eq_ok hdecoded ho
          obtain ⟨hauthority, haccepted, hwindow⟩ := decodeRenewal_renewed hrenewed
          refine ⟨⟨x.1.authority, x.1.remainingMs, x.1.phaseRemainingMs⟩, ?_, hauthority, hwindow⟩
          exact List.mem_map.mpr ⟨x.1, List.mem_filter.mpr
            ⟨(List.of_mem_zip hx).1, decide_eq_true haccepted⟩, rfl⟩
      · exact absurd heq (by simp)
    · exact absurd h List.not_mem_nil

/-! ## What an answer rests on -/

/-- The attempt of the authority is stored with a lease that lasts until then. -/
def Backed (s : Store) (until_ : Time) (authority : AttemptAuthority) : Prop :=
  ∃ a, s.attempts.lookup authority.attemptID = some a ∧ a.job = authority.jobID ∧
    until_ ≤ a.leaseExpiresAt

/-- A lease never gets shorter. -/
theorem Backed.steps {until_ : Time} (h : Backed s until_ authority)
    (hsteps : Ownership.Steps now s.ownership s'.ownership) : Backed s' until_ authority := by
  obtain ⟨a, ha, hjob, hlease⟩ := h
  obtain ⟨g, hg, hev⟩ := hsteps.evolves (congrArg (Option.map AttemptRow.grant) ha)
  obtain ⟨a', ha', rfl⟩ := Option.map_eq_some_iff.mp hg
  exact ⟨a', ha', hev.task.trans hjob, hlease.trans hev.lease⟩

theorem Backed.le {until_ until_' : Time} (h : Backed s until_' authority)
    (hle : until_ ≤ until_') : Backed s until_ authority := by
  obtain ⟨a, ha, hjob, hlease⟩ := h
  exact ⟨a, ha, hjob, hle.trans hlease⟩

/-- A repeated assignment carries the lease of its row. -/
theorem replayAssignment_backed
    (h : replayAssignment s now worker session attempt = .ok (.assignment a)) :
    a.serverTime = now ∧ Backed s a.leaseExpiresAt a.authority := by
  simp only [replayAssignment, bind_ok, orThrow_ok] at h
  obtain ⟨row, hrow, j, -, _, -, _, -, h⟩ := h
  split_ifs at h
  · exact absurd (pure_ok.mp h) (by simp)
  · exact absurd (pure_ok.mp h) (by simp)
  · exact absurd (pure_ok.mp h) (by simp)
  · simp only [bind_ok, pure_ok, AcquisitionResult.assignment.injEq] at h
    obtain ⟨_, -, inputs, -, rfl⟩ := h
    exact ⟨rfl, row, hrow, rfl, le_refl _⟩

/-- A new assignment carries the lease of the row it inserted. -/
theorem tryAssign_backed {request : AcquisitionRequest} {policy : AcquisitionPolicy}
    {job : Uuid} {selected reason : Option NoWork}
    (h : tryAssign s now worker request policy attempt job selected = .ok (s', some a, reason)) :
    a.serverTime = now ∧ Backed s' a.leaseExpiresAt a.authority := by
  simp only [tryAssign, bind_ok] at h
  obtain ⟨j, -, _, -, w, -, p, -, _, -, h⟩ := h
  split at h
  · exact absurd (congrArg (fun x => x.2.1) (pure_ok.mp h)) (by simp)
  · simp only [bind_ok, pure_pair_ok] at h
    obtain ⟨_, -, _, -, inputs, -, assigned, hassigned, rfl, rfl, -⟩ := h
    refine ⟨rfl, newAttempt now worker request.sessionID job j, ?_, rfl, le_refl _⟩
    simp only [assignJob, bind_ok, orThrow_ok] at hassigned
    obtain ⟨attempts, hattempts, reservations, -, hevent⟩ := hassigned
    obtain ⟨-, rfl⟩ := Table.insertNew_eq_some hattempts
    obtain ⟨_, _, -, -, rfl⟩ := Store.appendEvent_eq_ok hevent
    exact (Table.lookup_insert_ite ..).trans (if_pos rfl)

theorem acquireWork_backed {observed queueNow : Time} {request : AcquisitionRequest}
    {policy : AcquisitionPolicy}
    (h : acquireWork s observed queueNow now id request policy attempt = .ok (s', .assignment a)) :
    a.serverTime = now ∧ Backed s' a.leaseExpiresAt a.authority := by
  simp only [acquireWork, bind_ok] at h
  obtain ⟨_, -, _, -, _, -, h⟩ := h
  split at h
  · simp only [bind_ok, pure_pair_ok] at h
    obtain ⟨result, hresult, rfl, rfl⟩ := h
    exact replayAssignment_backed hresult
  · simp only [bind_ok, pure_pair_ok] at h
    obtain ⟨_, -, -, hreason⟩ := h
    exact absurd hreason (by simp)
  · simp only [bind_ok] at h
    obtain ⟨w, -, sampled, -, h⟩ := h
    split at h
    · simp only [bind_ok, pure_pair_ok] at h
      obtain ⟨_, -, -, hreason⟩ := h
      exact absurd hreason (by simp)
    · simp only [bind_ok] at h
      obtain ⟨⟨assigned, assignment, reason⟩, hassigned, h⟩ := h
      simp only at h
      split at h
      · obtain ⟨rfl, hresult⟩ := pure_pair_ok.mp h
        obtain rfl := AcquisitionResult.assignment.inj hresult
        obtain ⟨htime, row, hrow⟩ := tryAssign_backed hassigned
        exact ⟨htime, row, hrow⟩
      · obtain ⟨-, hresult⟩ := pure_pair_ok.mp h
        exact absurd hresult (by simp)

/-- Every assignment of a page carries the lease of its row. The induction is
on the candidates left; `page` is what the loop has collected. -/
theorem fillPage_backed {now : Uuid → Time} {l : List (Uuid × Uuid)}
    {last : Option Uuid} {bytes : ℕ} {page : List WorkAssignment} {more : Bool}
    {result : AssignmentPage}
    (h : fillPage s now worker session last bytes page more l = .ok result)
    (hpage : ∀ a ∈ page, (∃ x, a.serverTime = now x) ∧ Backed s a.leaseExpiresAt a.authority) :
    ∀ a ∈ result.assignments,
      (∃ x, a.serverTime = now x) ∧ Backed s a.leaseExpiresAt a.authority := by
  induction l generalizing last bytes page with
  | nil =>
    obtain rfl := pure_ok.mp h
    exact hpage
  | cons x l ih =>
    obtain ⟨job, attempt⟩ := x
    simp only [fillPage, bind_ok] at h
    obtain ⟨replayed, hreplayed, h⟩ := h
    split at h
    · split_ifs at h
      · obtain rfl := pure_ok.mp h
        exact hpage
      · obtain ⟨htime, hbacked⟩ := replayAssignment_backed hreplayed
        refine ih h fun b hb => ?_
        obtain hb | hb := List.mem_append.mp hb
        · exact hpage b hb
        · obtain rfl := List.mem_singleton.mp hb
          exact ⟨⟨attempt, htime⟩, hbacked⟩
    · exact ih h hpage

theorem listAssignments_backed {now : Uuid → Time} {after : Option Uuid}
    {pageSize : ℕ} {page : AssignmentPage}
    (h : listAssignments s now id session after pageSize = .ok page) :
    ∀ a ∈ page.assignments,
      (∃ x, a.serverTime = now x) ∧ Backed s a.leaseExpiresAt a.authority := by
  simp only [listAssignments, bind_ok] at h
  obtain ⟨_, -, _, -, _, -, _, -, h⟩ := h
  exact fillPage_backed h fun a ha => absurd ha List.not_mem_nil

/-- What a batch of grants leaves of a row: the lease of the grant that renewed
it. -/
theorem foldl_applyGrant_lease {grants : List LeaseGrant} {lease : Time}
    (hsame : ∀ g ∈ grants, g.decision = .accepted → g.leaseExpiresAt = lease) {a : AttemptRow}
    (ha : s.attempts.lookup attempt = some a) (hrenewed : a.leaseExpiresAt = lease ∨
      ∃ g ∈ grants, g.decision = .accepted ∧ g.authority.attemptID = attempt) :
    ∃ a', (grants.foldl Store.applyGrant s).attempts.lookup attempt = some a' ∧ a'.job = a.job ∧
      a'.leaseExpiresAt = lease := by
  induction grants generalizing s a with
  | nil =>
    obtain hlease | ⟨g, hg, -⟩ := hrenewed
    · exact ⟨a, ha, rfl, hlease⟩
    · exact absurd hg List.not_mem_nil
  | cons g grants ih =>
    have hrest : ∀ g ∈ grants, g.decision = .accepted → g.leaseExpiresAt = lease :=
      fun g hg => hsame g (List.mem_cons_of_mem _ hg)
    by_cases hhead : g.decision = .accepted ∧ g.authority.attemptID = attempt
    · obtain ⟨haccepted, rfl⟩ := hhead
      have hrow : (s.applyGrant g).attempts.lookup g.authority.attemptID =
          some { a with leaseExpiresAt := g.leaseExpiresAt } := by
        rw [Store.applyGrant, if_pos haccepted, Table.lookup_modify, if_pos rfl, ha]
        rfl
      have hheld := ih hrest hrow (.inl (hsame g List.mem_cons_self haccepted))
      exact hheld
    · have hrow : (s.applyGrant g).attempts.lookup attempt = some a := by
        rw [Store.applyGrant]
        split_ifs with haccepted
        · exact (Table.lookup_modify ..).trans
            ((if_neg fun heq => hhead ⟨haccepted, heq.symm⟩).trans ha)
        · exact ha
      refine ih hrest hrow (hrenewed.imp_right ?_)
      rintro ⟨g', hg', haccepted, hattempt⟩
      obtain rfl | hg' := List.mem_cons.mp hg'
      · exact absurd ⟨haccepted, hattempt⟩ hhead
      · exact ⟨g', hg', haccepted, hattempt⟩

/-- **An accepted renewal carries no more than the lease of its row**, renewed
or repeated. -/
theorem renewLeases_backed {seen : Store} {r : LeaseRenewal} {grants : List LeaseGrant}
    (h : renewLeases s seen now id r = .ok (s', grants)) {g : LeaseGrant} (hg : g ∈ grants)
    (haccepted : g.decision = .accepted) :
    g.serverTime = now ∧ Backed s' g.leaseExpiresAt g.authority := by
  obtain ⟨l, hl, hauthority, -⟩ :=
    leaseDecision_eq_accepted.mp (renewLeases_accepted h hg haccepted)
  obtain ⟨a, ha, rfl⟩ := lockedAttempt_eq_some hl
  have hjob : a.job = g.authority.jobID := (congrArg AttemptAuthority.jobID hauthority).symm
  obtain ⟨-, ⟨saved, rfl, rfl⟩ | ⟨hgrants, requests, rfl⟩⟩ := renewLeases_eq_ok h
  · obtain ⟨b, -, hgrant⟩ := List.mem_map.mp hg
    have hmember : g.authority = b := by rw [← hgrant, replayGrant_authority]
    refine ⟨by rw [← hgrant, replayGrant_serverTime], a, ha, hjob, ?_⟩
    have hle := (replayGrant_accepted (hgrant ▸ haccepted)).2
    rw [hgrant, ← hmember, hl] at hle
    exact hle
  · have hsame : ∀ g ∈ grants, g.decision = .accepted → g.leaseExpiresAt = now + initialLease := by
      intro g hg hacc
      rw [hgrants] at hg
      obtain ⟨b, -, rfl⟩ := List.mem_map.mp hg
      exact (freshGrant_accepted hacc).2
    obtain ⟨a', ha', hjob', hlease⟩ :=
      foldl_applyGrant_lease hsame ha (.inr ⟨g, hg, haccepted, rfl⟩)
    refine ⟨?_, a', ha', hjob'.trans hjob, ?_⟩
    · rw [hgrants] at hg
      obtain ⟨b, -, rfl⟩ := List.mem_map.mp hg
      exact freshGrant_serverTime ..
    · rw [hlease]
      exact (hsame g hg haccepted).le

/-- **What an answer grants ends by the lease of its attempt**, counted from the
moment the call was sent. -/
theorem Call.serve_backed {service : Service} {answer : Answer}
    (h : call.serve w service = .ok (s', answer)) (hasked : call.asked ≤ w.clock) :
    ∀ g ∈ answer.grants, Backed s' (call.asked + g.leaseMs * millisecond) g.authority := by
  -- An assignment whose clock sample is not before the call.
  have hassignment : ∀ (s : Store) (a : WorkAssignment) (g : Remaining),
      a.remaining.toOption = some g → call.asked ≤ a.serverTime →
      Backed s a.leaseExpiresAt a.authority →
      Backed s (call.asked + g.leaseMs * millisecond) g.authority := by
    intro s a g hg htime hbacked
    obtain ⟨hauthority, hle⟩ := WorkAssignment.remaining_le (toOption_eq_some.mp hg)
    rw [hauthority]
    exact hbacked.le ((Nat.add_le_add_right htime _).trans hle)
  unfold Call.serve at h
  split at h
  · simp only [bind_ok, pure_pair_ok] at h
    obtain ⟨⟨s, result⟩, hacquired, rfl, rfl⟩ := h
    intro g hg
    cases result with
    | assignment a =>
      obtain ⟨htime, hbacked⟩ := acquireWork_backed hacquired
      exact hassignment s a g (Option.mem_toList.mp hg) (htime ▸ hasked) hbacked
    | noWork reason => exact absurd hg List.not_mem_nil
    | decided d => exact absurd hg List.not_mem_nil
  · simp only [bind_ok, pure_pair_ok] at h
    obtain ⟨page, hpage, rfl, rfl⟩ := h
    intro g hg
    obtain ⟨a, ha, hremaining⟩ := List.mem_filterMap.mp hg
    obtain ⟨⟨x, htime⟩, hbacked⟩ := listAssignments_backed hpage a ha
    refine hassignment w.store a g hremaining ?_ hbacked
    rw [htime]
    exact le_min (Nat.le_add_right _ _) hasked
  · simp only [bind_ok, pure_ok, orThrow_ok, Prod.mk.injEq] at h
    obtain ⟨⟨s, grants⟩, hrenewed, results, hresults, rfl, rfl⟩ := h
    intro g hg
    obtain ⟨result, hresult, rfl⟩ := List.mem_map.mp hg
    obtain ⟨hmem, haccepted⟩ := List.mem_filter.mp hresult
    simp only [leaseResponse] at hresults
    split_ifs at hresults
    obtain ⟨grant, hgrant, hmade⟩ := mem_of_mapM_eq_some hresults hmem
    obtain ⟨hauthority, hdecision, hle⟩ := leaseResult_le hmade (of_decide_eq_true haccepted)
    obtain ⟨htime, hbacked⟩ := renewLeases_backed hrenewed hgrant hdecision
    simp only
    rw [hauthority]
    exact hbacked.le ((Nat.add_le_add_right (htime ▸ hasked) _).trans hle)
  · exact absurd h (by simp)

/-! ## The fleet -/

/-- A window held by a host for an attempt. -/
structure HeldWindow where
  host : ℕ
  authority : AttemptAuthority
  window : AuthorityWindow
  deriving DecidableEq

/-- **The control plane and its hosts.** Everything that was sent, answered or
granted is remembered: an answer may be delivered again, and a window dies
only by its own deadline. -/
structure Fleet where
  world : World
  boot : ℕ → MonoTime
  calls : List Call
  answers : List (Call × Answer)
  windows : List HeldWindow

/-- What may happen next in a fleet. -/
inductive Action where
  /-- Time passes, on every clock as it likes. -/
  | pass (elapsed : Time) (ticks : ℕ → MonoTime)
  | send (host : ℕ) (request : AuthorityRequest)
  /-- Any transaction, of any call or of none. -/
  | commit (op : Op)
  | serve (call : Call) (service : Service)
  | deliver (call : Call) (answer : Answer)

/-- **One step of the fleet.** -/
def Fleet.exec (sha : Uuid → ℕ) (f : Fleet) : Action → Except StoreError Fleet
  | .pass elapsed ticks =>
    pure { f with
      world := ⟨f.world.store, f.world.clock + elapsed⟩
      boot := fun host => f.boot host + ticks host }
  | .send host request =>
    pure { f with calls := ⟨host, f.boot host, f.world.clock, request⟩ :: f.calls }
  | .commit op => do
    let (s, _) ← op.exec sha f.world.store f.world.clock
    pure { f with world := ⟨s, f.world.clock⟩ }
  | .serve call service => do
    require (call ∈ f.calls) .invalid
    let (s, answer) ← call.serve f.world service
    pure { f with
      world := ⟨s, f.world.clock⟩
      answers := (call, answer) :: f.answers }
  | .deliver call answer => do
    require ((call, answer) ∈ f.answers) .invalid
    pure { f with
      windows := (answer.windows call (f.boot call.host)).map
        (fun x => ⟨call.host, x.1, x.2⟩) ++ f.windows }

/-- **What runs of the fleet reach.** -/
inductive Fleet.Reachable (sha : Uuid → ℕ) : Fleet → Prop where
  | start (w : World) (boot : ℕ → MonoTime) (h : Dispatch.Reachable sha w) :
      Fleet.Reachable sha ⟨w, boot, [], [], []⟩
  | step {f f' : Fleet} (action : Action) :
      Fleet.Reachable sha f → f.exec sha action = .ok f' → Fleet.Reachable sha f'

/-- **The clocks keep together.** Since any call of the last 25 seconds was
sent, the database's clock has gained at most five seconds on its host's. -/
def Fleet.InStep (f : Fleet) : Prop :=
  ∀ call ∈ f.calls, f.boot call.host < call.sent + 25 * second →
    f.world.clock ≤ call.asked + (f.boot call.host - call.sent) + 5 * second

instance (f : Fleet) : Decidable f.InStep :=
  inferInstanceAs (Decidable (∀ call ∈ f.calls, _ → _))

/-- The host still acts on the window. -/
def Fleet.live (f : Fleet) (h : HeldWindow) : Bool := h.window.isLive (f.boot h.host)

/-! ## What every run of the fleet keeps -/

variable {f : Fleet}

/-- **The invariants of a fleet.** What an answer granted, and every window made
of it, ends by the lease of its attempt when both are counted from the moment
the call was sent. -/
structure Fleet.Sound (f : Fleet) : Prop where
  world : f.world.Sound
  calls : ∀ call ∈ f.calls, call.asked ≤ f.world.clock
  answers : ∀ call answer, (call, answer) ∈ f.answers → call ∈ f.calls ∧
    ∀ g ∈ answer.grants, Backed f.world.store (call.asked + g.leaseMs * millisecond) g.authority
  windows : ∀ h ∈ f.windows, ∃ call ∈ f.calls, ∃ leaseMs ≤ 30000, call.host = h.host ∧
    h.window.sent = call.sent ∧ h.window.deadline + 5 * second ≤ call.sent + leaseMs * millisecond ∧
    Backed f.world.store (call.asked + leaseMs * millisecond) h.authority

/-- What a served call does to the store is a transaction of the control
plane. -/
theorem Call.serve_step (sha : Uuid → ℕ) {service : Service} {answer : Answer}
    (h : call.serve w service = .ok (s', answer)) :
    s' = w.store ∨ ∃ op reply, Op.exec sha w.store w.clock op = .ok (s', reply) := by
  unfold Call.serve at h
  split at h
  · simp only [bind_ok, pure_pair_ok] at h
    obtain ⟨⟨s, result⟩, hacquired, rfl, -⟩ := h
    rename_i id r observed queueNow policy attempt _
    refine .inr ⟨.acquire observed queueNow id r policy attempt, .acquisition result, ?_⟩
    simp only [Op.exec, bind_ok]
    exact ⟨_, hacquired, rfl⟩
  · simp only [bind_ok, pure_pair_ok] at h
    obtain ⟨page, -, rfl, -⟩ := h
    exact .inl rfl
  · simp only [bind_ok, pure_pair_ok] at h
    obtain ⟨⟨s, grants⟩, hrenewed, results, -, rfl, -⟩ := h
    rename_i id r seen _
    refine .inr ⟨.renew seen id r, .grants grants, ?_⟩
    simp only [Op.exec, bind_ok]
    exact ⟨_, hrenewed, rfl⟩
  · exact absurd h (by simp)

/-- The store moves on, and the fleet with it. -/
theorem Fleet.Sound.moved (hf : f.Sound) (hworld : World.Sound ⟨s', f.world.clock⟩)
    (hbacked : ∀ until_ authority, Backed f.world.store until_ authority →
      Backed s' until_ authority) :
    Fleet.Sound { f with world := ⟨s', f.world.clock⟩ } where
  world := hworld
  calls := hf.calls
  answers call answer h := by
    obtain ⟨hcall, hgrants⟩ := hf.answers call answer h
    exact ⟨hcall, fun g hg => hbacked _ _ (hgrants g hg)⟩
  windows h hh := by
    obtain ⟨call, hcall, leaseMs, hle, hhost, hsent, hdeadline, hlease⟩ := hf.windows h hh
    exact ⟨call, hcall, leaseMs, hle, hhost, hsent, hdeadline, hbacked _ _ hlease⟩

theorem Fleet.Sound.committed {op : Op} {reply : Reply}
    (hf : f.Sound) (h : op.exec sha f.world.store f.world.clock = .ok (s', reply)) :
    Fleet.Sound { f with world := ⟨s', f.world.clock⟩ } := by
  have hstep : f.world.Step sha ⟨s', f.world.clock⟩ := ⟨le_refl _, op, reply, h⟩
  have hsim := Op.exec_simulated h hf.world.coherent hf.world.owned
  exact hf.moved (hf.world.step hstep) fun _ _ hbacked => hbacked.steps hsim.steps

/-- **Every step keeps the invariants.** -/
theorem Fleet.Sound.exec {f' : Fleet} {action : Action} (hf : f.Sound)
    (h : f.exec sha action = .ok f') : f'.Sound := by
  cases action
  all_goals simp only [Fleet.exec, bind_ok, require_ok, pure_ok] at h
  case pass elapsed ticks =>
    subst h
    refine ⟨hf.world.later (Nat.le_add_right _ _), fun call hcall => ?_, hf.answers, hf.windows⟩
    exact (hf.calls call hcall).trans (Nat.le_add_right _ _)
  case send host request =>
    subst h
    refine ⟨hf.world, ?_, fun call answer h => ?_, fun h hh => ?_⟩
    · rintro call (_ | ⟨_, hcall⟩)
      · exact le_refl _
      · exact hf.calls call hcall
    · obtain ⟨hcall, hgrants⟩ := hf.answers call answer h
      exact ⟨List.mem_cons_of_mem _ hcall, hgrants⟩
    · obtain ⟨call, hcall, hrest⟩ := hf.windows h hh
      exact ⟨call, List.mem_cons_of_mem _ hcall, hrest⟩
  case commit op =>
    obtain ⟨⟨s, reply⟩, hexec, rfl⟩ := h
    exact hf.committed hexec
  case serve call service =>
    obtain ⟨_, hcall, ⟨s, answer⟩, hserved, rfl⟩ := h
    have hmoved : Fleet.Sound { f with world := ⟨s, f.world.clock⟩ } := by
      obtain rfl | ⟨op, reply, hexec⟩ := Call.serve_step sha hserved
      · exact hf
      · exact hf.committed hexec
    refine ⟨hmoved.world, hmoved.calls, ?_, hmoved.windows⟩
    rintro call' answer' (_ | ⟨_, h⟩)
    · exact ⟨hcall, Call.serve_backed hserved (hf.calls call hcall)⟩
    · exact hmoved.answers call' answer' h
  case deliver call answer =>
    obtain ⟨_, hanswer, rfl⟩ := h
    refine ⟨hf.world, hf.calls, hf.answers, fun h hh => ?_⟩
    obtain hnew | hold := List.mem_append.mp hh
    · obtain ⟨⟨authority, window⟩, hwindow, rfl⟩ := List.mem_map.mp hnew
      obtain ⟨g, hg, rfl, hgrant⟩ := Answer.mem_windows hwindow
      obtain ⟨hcall, hgrants⟩ := hf.answers call answer hanswer
      obtain ⟨hsent, -, hle, hdeadline⟩ := AuthorityWindow.fromGrant_eq_ok hgrant
      exact ⟨call, hcall, g.leaseMs, hle, rfl, hsent, hdeadline, hgrants g hg⟩
    · exact hf.windows h hold

theorem Fleet.Reachable.sound (h : f.Reachable sha) :
    f.Sound := by
  induction h with
  | start w boot hw =>
    exact ⟨hw.sound, fun _ hc => absurd hc List.not_mem_nil,
      fun _ _ ha => absurd ha List.not_mem_nil, fun _ hh => absurd hh List.not_mem_nil⟩
  | step action _ hexec ih => exact ih.exec hexec

/-! ## Exclusion -/

/-- The arithmetic of a live window: what the clocks allow is less than what
the lease lasts. -/
theorem clock_lt {clock asked boot sent deadline lease : ℕ} (hsent : sent ≤ boot)
    (hlive : boot < deadline) (hdeadline : deadline + 5 * second ≤ sent + lease)
    (hclock : clock ≤ asked + (boot - sent) + 5 * second) : clock < asked + lease := by
  omega

/-- **A live window means a running lease.** -/
theorem Fleet.Sound.running (hf : f.Sound) (hstep : f.InStep) {h : HeldWindow}
    (hh : h ∈ f.windows) (hlive : f.live h = true) :
    ∃ a, f.world.store.attempts.lookup h.authority.attemptID = some a ∧ a.job = h.authority.jobID ∧
      f.world.clock < a.leaseExpiresAt := by
  obtain ⟨call, hcall, leaseMs, hle, hhost, hsent, hdeadline, a, ha, hjob, hlease⟩ :=
    hf.windows h hh
  obtain ⟨hafter, hbefore⟩ := AuthorityWindow.isLive_iff.mp hlive
  rw [hsent, ← hhost] at hafter
  rw [← hhost] at hbefore
  have hrecent : f.boot call.host < call.sent + 25 * second := by
    have hmost : leaseMs * millisecond ≤ 25 * second + 5 * second :=
      (Nat.mul_le_mul_right millisecond hle).trans (le_of_eq rfl)
    exact lt_of_lt_of_le hbefore (by
      have := hdeadline.trans (Nat.add_le_add_left hmost _)
      rw [← Nat.add_assoc] at this
      exact Nat.le_of_add_le_add_right this)
  exact ⟨a, ha, hjob, lt_of_lt_of_le
    (clock_lt hafter hbefore hdeadline (hstep call hcall hrecent)) hlease⟩

/-- The attempt was completed by its own worker, or an operator approved the
takeover of its session, and the takeover was used. -/
def Released (s : Store) (attempt : Uuid) (a : AttemptRow) : Prop :=
  (∃ c, s.completions.lookup attempt = some c ∧ c.worker = a.worker ∧ c.session = a.session) ∨
    s.replaced a.worker a.session

/-- Of two attempts of a job the earlier one has been released, unless its
lease is over. -/
theorem World.Sound.released (hw : w.Sound) {attempt' : Uuid} {a b : AttemptRow}
    (ha : w.store.attempts.lookup attempt = some a) (hb : w.store.attempts.lookup attempt' = some b)
    (hjob : a.job = b.job) (hnumber : a.number < b.number) (hlease : w.clock < a.leaseExpiresAt) :
    Released w.store attempt a := by
  obtain ⟨t, ht, hle⟩ := hw.owned.numbered attempt' b.grant
    (congrArg (Option.map AttemptRow.grant) hb)
  have hsuperseded : Ownership.Superseded w.store.ownership a.grant :=
    ⟨t, (congrArg w.store.ownership.task hjob).trans ht, .inr (lt_of_lt_of_le hnumber hle)⟩
  obtain hsettled | hreplaced | hover := hw.exclusive attempt a.grant
    (congrArg (Option.map AttemptRow.grant) ha) hsuperseded
  · obtain ⟨c, hc⟩ := Option.isSome_iff_exists.mp hsettled
    obtain ⟨a', ha', hworker, hsession, -⟩ := hw.signed attempt c hc
    obtain rfl := Option.mem_unique ha ha'
    exact .inl ⟨c, hc, hworker.symm, hsession.symm⟩
  · exact .inr hreplaced
  · exact absurd hover (not_le.mpr hlease)

/-- **Execution authority excludes.** While the clocks keep together, every live
window belongs to an attempt whose lease is still running, and of two attempts
of one job with live windows the earlier was completed by its own worker or
lost its session to an approved takeover. -/
theorem live_windows_exclude {sha : Uuid → ℕ} {f : Fleet} (h : f.Reachable sha)
    (hstep : f.InStep) :
    (∀ x ∈ f.windows, f.live x = true →
      ∃ a, f.world.store.attempts.lookup x.authority.attemptID = some a ∧
        a.job = x.authority.jobID ∧ f.world.clock < a.leaseExpiresAt) ∧
    ∀ x ∈ f.windows, ∀ y ∈ f.windows, f.live x = true → f.live y = true →
      x.authority.jobID = y.authority.jobID → x.authority.attemptID ≠ y.authority.attemptID →
      ∃ a b, f.world.store.attempts.lookup x.authority.attemptID = some a ∧
        f.world.store.attempts.lookup y.authority.attemptID = some b ∧
        (a.number < b.number ∧ Released f.world.store x.authority.attemptID a ∨
          b.number < a.number ∧ Released f.world.store y.authority.attemptID b) := by
  have hf := h.sound
  refine ⟨fun x hx hlive => hf.running hstep hx hlive, fun x hx y hy hlive hlive' hjob hne => ?_⟩
  obtain ⟨a, ha, hajob, halease⟩ := hf.running hstep hx hlive
  obtain ⟨b, hb, hbjob, hblease⟩ := hf.running hstep hy hlive'
  have hsame : a.job = b.job := hajob.trans (hjob.trans hbjob.symm)
  refine ⟨a, b, ha, hb, ?_⟩
  obtain hlt | heq | hgt := lt_trichotomy a.number b.number
  · exact .inl ⟨hlt, hf.world.released ha hb hsame hlt halease⟩
  · exact absurd (hf.world.owned.distinct _ _ a.grant b.grant
      (congrArg (Option.map AttemptRow.grant) ha) (congrArg (Option.map AttemptRow.grant) hb)
      hsame heq) hne
  · exact .inr ⟨hgt, hf.world.released hb ha hsame.symm hgt hblease⟩

/-! ## A takeover within the lease -/

theorem Fleet.Reachable.run {f' : Fleet} {actions : List Action}
    (h : f.Reachable sha) (hrun : actions.foldlM (Fleet.exec sha) f = .ok f') :
    f'.Reachable sha :=
  foldlM_invariant (Fleet.Reachable sha) h (fun _ action _ _ ht hexec => ht.step action hexec) hrun

namespace Sample

/-- A host acquires work as a session, with the answer of a full lease. -/
def acquires (session attempt : Uuid) (time : Time) : List Action :=
  let call : Call := ⟨0, time, time, .acquire identity ⟨session, attempt⟩⟩
  [.send 0 call.request, .serve call (.acquire time time ⟨false⟩ attempt),
    .deliver call (.assignments [⟨⟨1, attempt, attempt, 1, session⟩, 30000, 300000⟩])]

/-- Session 1 runs attempt 1 of the job; an operator approves its replacement,
and session 2 runs attempt 2 while the first window is still live. -/
def takeover : List Action :=
  [.pass second (fun _ => second)] ++
    (seated 1 second).map (fun x => .commit x.2) ++
    [.commit (.submitJob 1 "k" (String.ofList (List.replicate 64 '0')) job [])] ++
    acquires 1 1 second ++
    [.commit (.approveTakeover 1 1 2)] ++
    (seated 2 second).map (fun x => .commit x.2) ++
    [.pass (9 * second) (fun _ => 9 * second)] ++
    acquires 2 2 (10 * second)

end Sample

/-- Both windows of the takeover are live, and the earlier attempt has been
released. -/
theorem takeover_releases : ∃ (f : Fleet) (x y : HeldWindow), x ∈ f.windows ∧ y ∈ f.windows ∧
    f.InStep ∧ f.live x = true ∧ f.live y = true ∧
    x.authority.attemptID ≠ y.authority.attemptID ∧
    ∃ a b, f.world.store.attempts.lookup x.authority.attemptID = some a ∧
      f.world.store.attempts.lookup y.authority.attemptID = some b ∧
      (a.number < b.number ∧ Released f.world.store x.authority.attemptID a ∨
        b.number < a.number ∧ Released f.world.store y.authority.attemptID b) := by
  let p : Fleet → Bool := fun f => decide f.InStep && f.windows.any (fun x =>
    f.windows.any (fun y => f.live x && f.live y &&
      decide (x.authority.jobID = y.authority.jobID) &&
      decide (x.authority.attemptID ≠ y.authority.attemptID)))
  let start : Fleet := ⟨Sample.world, fun _ => 0, [], [], []⟩
  have hrun : (Sample.takeover.foldlM (Fleet.exec Sample.sha) start).toOption.any p = true := by
    decide +kernel
  rw [Option.any_eq_true] at hrun
  obtain ⟨f, hf, hp⟩ := hrun
  have hreach : f.Reachable Sample.sha :=
    Fleet.Reachable.run (.start Sample.world _ (.start _ _ _ _ _)) (toOption_eq_some.mp hf)
  simp only [p, Bool.and_eq_true, decide_eq_true_eq, List.any_eq_true] at hp
  obtain ⟨hstep, x, hx, y, hy, ⟨⟨hlive, hlive'⟩, hjob⟩, hne⟩ := hp
  exact ⟨f, x, y, hx, hy, hstep, hlive, hlive', hne,
    (live_windows_exclude hreach hstep).2 x hx y hy hlive hlive' hjob hne⟩

end Dispatch
