import Dispatch.Ledger.Transactions

/-!
# The history of a ledger

Two readings of `Ledger.Step`, table by table, that every proof about runs
starts from.

* What became of a row: `JobRow.Moves`, `AttemptRow.Later` and the like list
  the changes that the steps make to a row that is there, and say of a row that
  is not what it was made from.
* What stays: `Ledger.Later` collects what no step takes back. It is reflexive
  and transitive, so that it holds between any two moments of a run.

`Ledger.Reachable` are the ledgers that runs reach; `Reachable.ledger` connects
them with the stores.
-/

namespace Dispatch

open Txn

variable {l l' : Ledger} {j j' : JobRow} {w w' : World} {id : Uuid}

variable {sha : Uuid → ℕ} {op : Op} {now : Time}

/-! ## Jobs -/

/-- **What happens to a job** that is there. -/
inductive JobRow.Moves (j : JobRow) : JobRow → Prop where
  | stay : Moves j j
  | halt (h : j.state.isQueued = true ∨ j.state = .active) : Moves j j.halt
  | assign (attempt : Uuid) (hqueued : j.state.isQueued = true)
      (huncancelled : j.cancelRequested = false)
      (hbudget : (j.attemptCounter : ℤ) < j.spec.spec.retry.maxAttempts) :
      Moves j { j with
        state := .active
        currentAttempt := some attempt
        attemptCounter := j.attemptCounter + 1 }
  /-- Its attempt ends: a cancelled job is cancelled, another one is done or
  waits for an attempt it still has. -/
  | close (next : JobState) (accepted : Option Uuid) (manifest : Option ResultManifest)
      (eligible : Time) (howned : j.state.isOwned = true)
      (hcancelled : j.cancelRequested = true → next = .cancelled)
      (hnext : j.cancelRequested = false → next = .succeeded ∨ next = .failed ∨
        next = .retryWait ∧ (j.attemptCounter : ℤ) < j.spec.spec.retry.maxAttempts ∧
          j.spec.spec.retry.on ≠ []) :
      Moves j { j with
        state := next
        currentAttempt := none
        acceptedAttempt := accepted
        acceptedManifest := manifest
        nextEligibleAt := eligible }

/-- What a fence makes of the job. -/
theorem fenceOutcome_next (sha : Uuid → ℕ) (j : JobRow) (a : AttemptRow) (attempt : Uuid)
    (now : Time) :
    (j.cancelRequested = true → (fenceOutcome sha j a attempt now).jobState = .cancelled) ∧
      (j.cancelRequested = false → (fenceOutcome sha j a attempt now).jobState = .succeeded ∨
        (fenceOutcome sha j a attempt now).jobState = .failed ∨
        (fenceOutcome sha j a attempt now).jobState = .retryWait ∧
          (j.attemptCounter : ℤ) < j.spec.spec.retry.maxAttempts ∧
          j.spec.spec.retry.on ≠ []) := by
  unfold fenceOutcome
  constructor
  · intro hcancel
    rw [if_pos hcancel]
  · intro hcancel
    rw [if_neg (by simp [hcancel])]
    split
    · exact .inr (.inl rfl)
    · split_ifs with hretry
      · exact .inr (.inr ⟨rfl, hretry.1, List.ne_nil_of_mem hretry.2⟩)
      · exact .inr (.inl rfl)

/-- **A completion respects a cancellation**: once it is requested, only its
acknowledgement is accepted, and before that none is. -/
theorem Ledger.Completes.reason {completed : Time} {identity : WorkerIdentity}
    {r : CompletionRequest} {p : CompletionPayload} {a : AttemptRow} {m : ResultManifest}
    (h : l.Completes completed now identity r p j a m) :
    j.cancelRequested = true ↔ r.reason = some .userCancelled := by
  constructor
  · intro hcancel
    have hlate := h.late
    simp only [completionDecision, leaseDecision, JobRow.lease, hcancel] at hlate
    grind
  · intro hreason
    have hphase := h.phase
    simp only [validateCompletionPhase, hreason, bind_ok, require_ok] at hphase
    exact hphase.choose_spec.2.1

/-- What a completion makes of the job. -/
theorem Ledger.Completes.next {completed : Time} {identity : WorkerIdentity} {r : CompletionRequest}
    {p : CompletionPayload} {a : AttemptRow} {m : ResultManifest}
    (h : l.Completes completed now identity r p j a m) (hnewest : a.generation = j.attemptCounter) :
    (j.cancelRequested = true →
        (completionOutcome sha r j.spec completed now).jobState = .cancelled) ∧
      (j.cancelRequested = false →
        (completionOutcome sha r j.spec completed now).jobState = .succeeded ∨
        (completionOutcome sha r j.spec completed now).jobState = .failed ∨
        (completionOutcome sha r j.spec completed now).jobState = .retryWait ∧
          (j.attemptCounter : ℤ) < j.spec.spec.retry.maxAttempts ∧
          j.spec.spec.retry.on ≠ []) := by
  have hgeneration : r.authority.generation = j.attemptCounter :=
    (congrArg AttemptAuthority.generation h.authority).symm.trans hnewest
  unfold completionOutcome
  constructor
  · intro hcancel
    rw [h.reason.mp hcancel]
  · intro hcancel
    split
    · exact .inl rfl
    · rename_i hreason
      exact absurd (h.reason.mpr hreason) (by simp [hcancel])
    · split_ifs with hretry
      · exact .inr (.inr ⟨rfl, hgeneration ▸ hretry.1, List.ne_nil_of_mem hretry.2⟩)
      · exact .inr (.inl rfl)

/-- A sibling that stops was waiting or running. -/
theorem Ledger.stops_state {job : Uuid} {k : JobRow} {next : JobState}
    (h : l.stops job j next id k = true) : k.state.isQueued = true ∨ k.state = .active := by
  unfold Ledger.stops at h
  rw [Bool.and_eq_true] at h
  split at h
  · split at h
    · simp only [failFastCandidate, Bool.and_eq_true, Bool.or_eq_true, decide_eq_true_eq] at h
      exact h.2.2.2.imp_right And.left
    · exact absurd h.2 (by simp)
  · exact absurd h.2 (by simp)

/-- The rows of a close: one job ends its attempt, some siblings stop. -/
theorem Ledger.close_moves {job : Uuid} {own : JobRow → JobRow} {N : Uuid → JobRow → Prop}
    (hj : l.jobs.lookup job = some j) (hown : j.Moves (own j)) :
    l.jobs.Turns JobRow.Moves N (l.jobs.update (fun id k => if id = job then own k
      else if l.stops job j (own j).state id k then k.halt else k)) := by
  refine .update fun id k hk => ?_
  split_ifs with hid hstop
  · obtain rfl := Option.some.inj (hj.symm.trans (hid ▸ hk))
    exact hown
  · exact .halt (Ledger.stops_state hstop)
  · exact .stay

/-- **The jobs of a step**: each moves, and each other one is admitted. -/
theorem Ledger.Step.jobs (h : Ledger.Step sha op now l l') :
    l.jobs.Turns JobRow.Moves (l.Admitted l') l'.jobs := by
  cases h with
  | admits l' h =>
    refine ⟨fun id j hj => ⟨j, h.jobs id j hj, .stay⟩, fun id j hj => ?_⟩
    exact (h.fresh id j hj).imp (fun hold => ⟨j, hold, .stay⟩) fun hnew => ⟨hnew.new, hnew⟩
  | cancel job j hj hstate =>
    refine .modify (fun _ => .stay) fun k hk => .halt ?_
    obtain rfl := Option.mem_unique hj hk
    exact hstate
  | assign worker session request attempt job j w hop hfree h =>
    dsimp only [Ledger.assign]
    refine .modify (fun _ => .stay) fun k hk => ?_
    obtain rfl := Option.mem_unique h.waits hk
    exact .assign attempt h.queued h.uncancelled h.budget
  | complete completed identity r p j a res m hop hholds h =>
    obtain ⟨hcancelled, hnext⟩ := h.next hholds.newest
    exact Ledger.close_moves hholds.found (.close _ _ _ _ hholds.owned hcancelled hnext)
  | fence job attempt j a r hholds =>
    obtain ⟨hcancelled, hnext⟩ := fenceOutcome_next sha j a attempt now
    exact Ledger.close_moves hholds.found (.close _ _ _ _ hholds.owned hcancelled hnext)
  | _ => exact .same (fun _ => .stay) _

/-- Where a new attempt comes from. -/
def Ledger.Assigned (op : Op) (now : Time) (l l' : Ledger) (attempt : Uuid) (a : AttemptRow) :
    Prop :=
  ∃ worker session request job j w, op.acquires (worker, session, request) ∧
    l.workerRequests.lookup (worker, session, request) = none ∧
    l.Assigns worker session attempt job j w ∧ a = newAttempt now worker session job j ∧
    l' = l.assign now worker session attempt job j (worker, session, request)

/-- **Only an assignment counts an attempt.** -/
theorem Ledger.Step.counters (h : Ledger.Step sha op now l l') :
    (∃ attempt a, l.Assigned op now l' attempt a) ∨
      l.jobs.Turns (fun j j' => j'.attemptCounter = j.attemptCounter)
        (fun _ j => j.attemptCounter = 0) l'.jobs := by
  have hrefl : ∀ j : JobRow, (fun j j' : JobRow => j'.attemptCounter = j.attemptCounter) j j :=
    fun _ => rfl
  have hclose : ∀ (job : Uuid) (j : JobRow) (own : JobRow → JobRow),
      (∀ k, (own k).attemptCounter = k.attemptCounter) →
      l.jobs.Turns (fun j j' => j'.attemptCounter = j.attemptCounter)
        (fun _ j => j.attemptCounter = 0) (l.jobs.update (fun id k => if id = job then own k
          else if l.stops job j (own j).state id k then k.halt else k)) := by
    intro job j own hown
    refine .update fun id k hk => ?_
    split_ifs
    · exact hown k
    · rfl
    · rfl
  cases h with
  | admits l' h =>
    refine .inr ⟨fun id j hj => ⟨j, h.jobs id j hj, rfl⟩, fun id j hj => ?_⟩
    exact (h.fresh id j hj).imp (fun hold => ⟨j, hold, rfl⟩) fun hnew => ⟨hnew.new, hnew.counter⟩
  | cancel job j hj hstate => exact .inr (.modify hrefl fun _ _ => rfl)
  | assign worker session request attempt job j w hop hfree h =>
    exact .inl ⟨attempt, _, worker, session, request, job, j, w, hop, hfree, h, rfl, rfl⟩
  | complete completed identity r p j a res m hop hholds h => exact .inr (hclose _ _ _ fun _ => rfl)
  | fence job attempt j a r hholds => exact .inr (hclose _ _ _ fun _ => rfl)
  | _ => exact .inr (.same hrefl _)

/-- **What of a job stands**: its document, a cancellation, and a final
outcome. -/
structure JobRow.Later (j j' : JobRow) : Prop where
  project : j'.project = j.project
  spec : j'.spec = j.spec
  specHash : j'.specHash = j.specHash
  sweep : j'.sweep = j.sweep
  parent : j'.parentJob = j.parentJob
  counter : j.attemptCounter ≤ j'.attemptCounter
  cancelled : j.cancelRequested = true →
    j'.cancelRequested = true ∧ j'.attemptCounter = j.attemptCounter
  final : j.state.isTerminal = true → j' = j

theorem JobRow.Later.refl (j : JobRow) : j.Later j :=
  ⟨rfl, rfl, rfl, rfl, rfl, le_refl _, fun h => ⟨h, rfl⟩, fun _ => rfl⟩

theorem JobRow.Later.trans {j'' : JobRow} (h : j.Later j') (h' : j'.Later j'') :
    j.Later j'' where
  project := h'.project.trans h.project
  spec := h'.spec.trans h.spec
  specHash := h'.specHash.trans h.specHash
  sweep := h'.sweep.trans h.sweep
  parent := h'.parent.trans h.parent
  counter := h.counter.trans h'.counter
  cancelled hc := by
    obtain ⟨hc', hcounter⟩ := h.cancelled hc
    obtain ⟨hc'', hcounter'⟩ := h'.cancelled hc'
    exact ⟨hc'', hcounter'.trans hcounter⟩
  final hf := by
    have hsame := h.final hf
    exact (h'.final (hsame ▸ hf)).trans hsame

theorem JobRow.Moves.later (h : j.Moves j') : j.Later j' := by
  cases h with
  | stay => exact .refl j
  | halt h =>
    refine ⟨rfl, rfl, rfl, rfl, rfl, le_refl _, fun _ => ⟨rfl, rfl⟩, fun hf => ?_⟩
    obtain h | h := h <;> cases hs : j.state <;> simp_all [JobState.isQueued, JobState.isTerminal]
  | assign attempt hqueued huncancelled hbudget =>
    refine ⟨rfl, rfl, rfl, rfl, rfl, Nat.le_succ _, fun hc => ?_, fun hf => ?_⟩
    · exact absurd (huncancelled.symm.trans hc) (by simp)
    · cases hs : j.state <;> simp_all [JobState.isQueued, JobState.isTerminal]
  | close next accepted manifest eligible howned hcancelled hnext =>
    refine ⟨rfl, rfl, rfl, rfl, rfl, le_refl _, fun hc => ⟨hc, rfl⟩, fun hf => ?_⟩
    cases hs : j.state <;> simp_all [JobState.isOwned, JobState.isTerminal]

/-- What the scheduler reads of a document is written once. -/
theorem JobRow.Moves.columns (h : j.Moves j') :
    j'.resources = j.resources ∧ j'.priority = j.priority := by
  cases h with
  | stay => exact ⟨rfl, rfl⟩
  | halt _ => exact ⟨rfl, rfl⟩
  | assign _ _ _ _ => exact ⟨rfl, rfl⟩
  | close _ _ _ _ _ _ _ => exact ⟨rfl, rfl⟩

/-! ## Attempts and reservations -/

/-- **What of an attempt stands**: whose it is, and how it ended. -/
structure AttemptRow.Later (a a' : AttemptRow) : Prop where
  identity : a'.identity = a.identity
  ended : a.state.isActive = false → a'.state = a.state

theorem AttemptRow.Later.refl (a : AttemptRow) : a.Later a := ⟨rfl, fun _ => rfl⟩

theorem AttemptRow.Later.trans {a a' a'' : AttemptRow} (h : a.Later a') (h' : a'.Later a'') :
    a.Later a'' where
  identity := h'.identity.trans h.identity
  ended hended := by
    have hsame := h.ended hended
    exact (h'.ended (hsame ▸ hended)).trans hsame

section

variable {a a' : AttemptRow} (h : a.Later a')

include h

theorem AttemptRow.Later.job : a'.job = a.job := congrArg (fun x => x.1) h.identity

theorem AttemptRow.Later.number : a'.number = a.number := congrArg (fun x => x.2.1) h.identity

theorem AttemptRow.Later.worker : a'.worker = a.worker := congrArg (fun x => x.2.2.1) h.identity

theorem AttemptRow.Later.session : a'.session = a.session :=
  congrArg (fun x => x.2.2.2.1) h.identity

theorem AttemptRow.Later.generation : a'.generation = a.generation :=
  congrArg (fun x => x.2.2.2.2) h.identity

end

/-- A change of an active attempt that keeps whose it is. -/
theorem AttemptRow.Later.of_active {a a' : AttemptRow} (h : a'.identity = a.identity)
    (hactive : a.state.isActive = true) : a.Later a' :=
  ⟨h, fun hended => absurd (hactive.symm.trans hended) (by simp)⟩

/-- **The attempts of a step.** -/
theorem Ledger.Step.attempts (h : Ledger.Step sha op now l l') :
    l.attempts.Turns AttemptRow.Later (l.Assigned op now l') l'.attempts := by
  cases h with
  | admits l' h =>
    rw [show l'.attempts = l.attempts from congrArg (fun x => x.2.1) h.rest]
    exact .same AttemptRow.Later.refl _
  | assign worker session request attempt job j w hop hfree h =>
    exact .insert AttemptRow.Later.refl h.newAttempt
      ⟨worker, session, request, job, j, w, hop, hfree, h, rfl, rfl⟩
  | renew attempt a lease ha hactive =>
    dsimp only
    refine .modify AttemptRow.Later.refl fun a' ha' => ?_
    obtain rfl := Option.mem_unique ha ha'
    exact .of_active rfl hactive
  | phase attempt a claims deadline hop h =>
    dsimp only
    refine .modify AttemptRow.Later.refl fun a' ha' => ?_
    obtain rfl := Option.mem_unique h.granted ha'
    exact .of_active rfl h.active
  | complete completed identity r p j a res m hop hholds h =>
    dsimp only [Ledger.complete, Ledger.close]
    refine .modify AttemptRow.Later.refl fun a' ha' => ?_
    obtain rfl := Option.mem_unique hholds.granted ha'
    exact .of_active rfl hholds.active
  | fence job attempt j a r hholds =>
    dsimp only [Ledger.close]
    refine .modify AttemptRow.Later.refl fun a' ha' => ?_
    obtain rfl := Option.mem_unique hholds.granted ha'
    exact .of_active rfl hholds.active
  | report identity report hash w released reconciled hop h =>
    dsimp only [Ledger.report]
    refine .update fun id a ha => ?_
    split_ifs
    · exact ⟨rfl, fun _ => rfl⟩
    · exact .refl a
  | _ => exact .same AttemptRow.Later.refl _

/-- **What of a reservation stands**: it is never active again. -/
structure ReservationRow.Later (r r' : ReservationRow) : Prop where
  worker : r'.worker = r.worker
  resources : r'.resources = r.resources
  inactive : r.state ≠ .active → r'.state ≠ .active
  released : r.state = .released → r'.state = .released

theorem ReservationRow.Later.refl (r : ReservationRow) : r.Later r := ⟨rfl, rfl, id, id⟩

theorem ReservationRow.Later.trans {r r' r'' : ReservationRow} (h : r.Later r')
    (h' : r'.Later r'') : r.Later r'' where
  worker := h'.worker.trans h.worker
  resources := h'.resources.trans h.resources
  inactive hi := h'.inactive (h.inactive hi)
  released hr := h'.released (h.released hr)

/-- An active reservation may go anywhere. -/
theorem ReservationRow.Later.of_active {r : ReservationRow} (h : r.state = .active)
    (state : ReservationState) : r.Later { r with state := state } :=
  ⟨rfl, rfl, fun hi => absurd h hi, fun hr => absurd (h.symm.trans hr) (by simp)⟩

/-- **The reservations of a step.** -/
theorem Ledger.Step.reservations (h : Ledger.Step sha op now l l') :
    l.reservations.Turns ReservationRow.Later (fun attempt _ => ∃ a, l.Assigned op now l' attempt a)
      l'.reservations := by
  cases h with
  | admits l' h =>
    rw [show l'.reservations = l.reservations from congrArg (fun x => x.2.2.1) h.rest]
    exact .same ReservationRow.Later.refl _
  | assign worker session request attempt job j w hop hfree h =>
    exact .insert ReservationRow.Later.refl h.newReservation
      ⟨_, worker, session, request, job, j, w, hop, hfree, h, rfl, rfl⟩
  | complete completed identity r p j a res m hop hholds h =>
    dsimp only [Ledger.complete, Ledger.close]
    refine .modify ReservationRow.Later.refl fun r' hr' => ?_
    obtain rfl := Option.mem_unique hholds.reserved hr'
    exact .of_active hholds.held _
  | fence job attempt j a r hholds =>
    dsimp only [Ledger.close]
    refine .modify ReservationRow.Later.refl fun r' hr' => ?_
    obtain rfl := Option.mem_unique hholds.reserved hr'
    exact .of_active hholds.held _
  | report identity report hash w released reconciled hop h =>
    dsimp only [Ledger.report]
    refine .update fun id r hr => ?_
    split_ifs
    · exact ⟨rfl, rfl, fun _ => by simp, fun _ => rfl⟩
    · exact .refl r
  | _ => exact .same ReservationRow.Later.refl _

/-! ## Workers, sessions and approvals -/

/-- **What of a session stands**: its worker, its generation and its fence. -/
structure SessionRow.Later (ss ss' : SessionRow) : Prop where
  worker : ss'.worker = ss.worker
  generation : ss'.generation = ss.generation
  claims : ss'.registrationHash = ss.registrationHash
  fenced : ss.fencedAt ≠ none → ss'.fencedAt = ss.fencedAt
  sequence : ss.heartbeatSequence ≤ ss'.heartbeatSequence

theorem SessionRow.Later.refl (ss : SessionRow) : ss.Later ss :=
  ⟨rfl, rfl, rfl, fun _ => rfl, le_refl _⟩

theorem SessionRow.Later.trans {ss ss' ss'' : SessionRow} (h : ss.Later ss')
    (h' : ss'.Later ss'') : ss.Later ss'' where
  worker := h'.worker.trans h.worker
  generation := h'.generation.trans h.generation
  claims := h'.claims.trans h.claims
  fenced hf := by
    have hsame := h.fenced hf
    exact (h'.fenced (hsame ▸ hf)).trans hsame
  sequence := h.sequence.trans h'.sequence

/-- What a new session is: the seat of its worker, and the newest of it. -/
structure Ledger.Seated (l l' : Ledger) (id : Uuid) (ss : SessionRow) : Prop where
  unfenced : ss.fencedAt = none
  seat : l'.seat ss.worker = some id
  newest : ∀ id' ss', l.sessions.lookup id' = some ss' → ss'.worker = ss.worker →
    ss'.generation < ss.generation

/-- A vacated worker's sessions are fenced. -/
theorem Ledger.fenceSessions_turns (l : Ledger) (now : Time) (worker : Uuid)
    {N : Uuid → SessionRow → Prop} :
    l.sessions.Turns SessionRow.Later N (l.fenceSessions now worker) := by
  refine .update fun id ss _ => ?_
  split_ifs with h
  · exact ⟨rfl, rfl, rfl, fun hf => absurd h.2 hf, le_refl _⟩
  · exact .refl ss

/-- **The sessions of a step.** -/
theorem Ledger.Step.sessions (h : Ledger.Step sha op now l l') :
    l.sessions.Turns SessionRow.Later (l.Seated l') l'.sessions := by
  cases h with
  | admits l' h =>
    rw [show l'.sessions = l.sessions from congrArg (fun x => x.2.2.2.2.1) h.rest]
    exact .same SessionRow.Later.refl _
  | seat worker w hash sessions generation takeovers h =>
    have hturns : l.sessions.Turns SessionRow.Later (fun _ _ => False) sessions := by
      obtain rfl | ⟨rfl, -⟩ := h.fenced
      · exact l.fenceSessions_turns now worker
      · exact .same SessionRow.Later.refl _
    have hfree : sessions.lookup hash.sessionID = none := by
      by_contra hne
      obtain ⟨ss, hss⟩ := Option.ne_none_iff_exists'.mp hne
      obtain ⟨ss', hss', -⟩ | ⟨-, hfalse⟩ := hturns.found _ _ hss
      · exact absurd (h.fresh.symm.trans hss') (by simp)
      · exact hfalse
    have hseat : (l.install now worker hash sessions generation takeovers).seat worker
        = some hash.sessionID := by
      simp only [Ledger.seat, Ledger.install, Table.lookup_modify, if_pos, h.host]
      rfl
    refine ⟨fun id ss hss => ?_, fun id ss hss => ?_⟩
    · obtain ⟨ss', hss', hlater⟩ := hturns.kept id ss hss
      exact ⟨ss', Table.Extends.insert _ hfree _ _ hss', hlater⟩
    · simp only [Ledger.install, Table.lookup_insert_ite] at hss
      split_ifs at hss with hid
      · obtain rfl := Option.some.inj hss
        exact .inr ⟨hid ▸ h.fresh, rfl, hid ▸ hseat, h.newest⟩
      · exact (hturns.found id ss hss).imp_right fun hfalse => hfalse.2.elim
  | report identity report hash w released reconciled hop h =>
    obtain ⟨ss, hss, -, -, hnewer⟩ := h.unfenced
    dsimp only [Ledger.report]
    refine .modify SessionRow.Later.refl fun ss' hss' => ?_
    obtain rfl := Option.mem_unique hss hss'
    exact ⟨rfl, rfl, rfl, fun _ => rfl, hnewer.le⟩
  | _ => exact .same SessionRow.Later.refl _

/-- What of a session changes when another is seated, and only then. -/
def SessionRow.SameFence (ss ss' : SessionRow) : Prop :=
  ss'.worker = ss.worker ∧ ss'.generation = ss.generation ∧ ss'.fencedAt = ss.fencedAt

theorem SessionRow.SameFence.refl (ss : SessionRow) : ss.SameFence ss := ⟨rfl, rfl, rfl⟩

/-- **Seats and fences change by registration only.** -/
theorem Ledger.Step.seat_cases (h : Ledger.Step sha op now l l') :
    (∃ worker w hash sessions generation takeovers,
      l.Vacant now worker w hash sessions generation takeovers ∧
      (∃ identity r, op = .register identity r) ∧
      l' = l.install now worker hash sessions generation takeovers) ∨
    (∀ worker, l'.seat worker = l.seat worker) ∧
      l.sessions.Turns SessionRow.SameFence (fun _ _ => False) l'.sessions := by
  have hmodify : ∀ (x : Uuid) (f : WorkerRow → WorkerRow) (worker : Uuid),
      (∀ w, (f w).currentSession = w.currentSession) →
      ((l.workers.modify x f).lookup worker).bind WorkerRow.currentSession = l.seat worker := by
    intro x f worker hf
    simp only [Table.lookup_modify, Ledger.seat]
    split_ifs
    · cases l.workers.lookup worker with
      | none => rfl
      | some w => exact hf w
    · rfl
  cases h with
  | admits l' h =>
    refine .inr ⟨fun worker => ?_, ?_⟩
    · rw [Ledger.seat, show l'.workers = l.workers from congrArg (fun x => x.2.2.2.1) h.rest]
      rfl
    · rw [show l'.sessions = l.sessions from congrArg (fun x => x.2.2.2.2.1) h.rest]
      exact .same SessionRow.SameFence.refl _
  | retire x =>
    exact .inr ⟨fun worker => hmodify x _ worker (fun _ => rfl), .same SessionRow.SameFence.refl _⟩
  | seat x w hash sessions generation takeovers h hop =>
    exact .inl ⟨x, w, hash, sessions, generation, takeovers, h, hop, rfl⟩
  | report identity report hash w released reconciled hop h =>
    refine .inr ⟨fun worker => hmodify identity.workerID _ worker (fun _ => rfl), ?_⟩
    dsimp only [Ledger.report]
    exact .modify SessionRow.SameFence.refl fun _ _ => ⟨rfl, rfl, rfl⟩
  | drain x =>
    exact .inr ⟨fun worker => hmodify x _ worker (fun _ => rfl), .same SessionRow.SameFence.refl _⟩
  | provision x row hfree =>
    refine .inr ⟨fun worker => ?_, .same SessionRow.SameFence.refl _⟩
    simp only [Ledger.seat, Table.lookup_insert_ite]
    split_ifs with hx
    · rw [hx, hfree]
      rfl
    · rfl
  | _ => exact .inr ⟨fun _ => rfl, .same SessionRow.SameFence.refl _⟩

/-- **What of an approval stands**: whom it names, and that it was used. -/
structure TakeoverRow.Later (t t' : TakeoverRow) : Prop where
  toSession : t'.toSession = t.toSession
  used : t.usedAt ≠ none → t'.usedAt = t.usedAt

theorem TakeoverRow.Later.refl (t : TakeoverRow) : t.Later t := ⟨rfl, fun _ => rfl⟩

theorem TakeoverRow.Later.trans {t t' t'' : TakeoverRow} (h : t.Later t') (h' : t'.Later t'') :
    t.Later t'' where
  toSession := h'.toSession.trans h.toSession
  used hu := by
    have hsame := h.used hu
    exact (h'.used (hsame ▸ hu)).trans hsame

theorem Ledger.Step.takeovers (h : Ledger.Step sha op now l l') :
    l.takeovers.Turns TakeoverRow.Later (fun _ _ => True) l'.takeovers := by
  cases h with
  | admits l' h =>
    rw [show l'.takeovers = l.takeovers from congrArg (fun x => x.2.2.2.2.2.1) h.rest]
    exact .same TakeoverRow.Later.refl _
  | approve worker fromSession toSession hfree => exact .insert TakeoverRow.Later.refl hfree trivial
  | seat worker w hash sessions generation takeovers h =>
    obtain hsame | ⟨k, t, ht, hunused, hsame⟩ := h.approval
    · rw [show (l.install now worker hash sessions generation takeovers).takeovers = l.takeovers
        from hsame]
      exact .same TakeoverRow.Later.refl _
    · rw [show (l.install now worker hash sessions generation takeovers).takeovers = _ from hsame]
      refine .modify TakeoverRow.Later.refl fun t' ht' => ?_
      obtain rfl := Option.mem_unique ht ht'
      exact ⟨rfl, fun hu => absurd hunused hu⟩
  | _ => exact .same TakeoverRow.Later.refl _

/-- **What of a host stands**: the limits it was provisioned with. -/
structure WorkerRow.Later (w w' : WorkerRow) : Prop where
  limit : w'.limit = w.limit
  slotLimit : w'.slotLimit = w.slotLimit
  limitLabels : w'.limitLabels = w.limitLabels

theorem WorkerRow.Later.refl (w : WorkerRow) : w.Later w := ⟨rfl, rfl, rfl⟩

theorem WorkerRow.Later.trans {w w' w'' : WorkerRow} (h : w.Later w') (h' : w'.Later w'') :
    w.Later w'' :=
  ⟨h'.limit.trans h.limit, h'.slotLimit.trans h.slotLimit, h'.limitLabels.trans h.limitLabels⟩

theorem Ledger.Step.workers (h : Ledger.Step sha op now l l') :
    l.workers.Turns WorkerRow.Later (fun _ _ => True) l'.workers := by
  cases h with
  | admits l' h =>
    rw [show l'.workers = l.workers from congrArg (fun x => x.2.2.2.1) h.rest]
    exact .same WorkerRow.Later.refl _
  | retire =>
    dsimp only
    exact .modify WorkerRow.Later.refl fun _ _ => ⟨rfl, rfl, rfl⟩
  | seat =>
    dsimp only [Ledger.install]
    exact .modify WorkerRow.Later.refl fun _ _ => ⟨rfl, rfl, rfl⟩
  | report =>
    dsimp only [Ledger.report]
    exact .modify WorkerRow.Later.refl fun _ _ => ⟨rfl, rfl, rfl⟩
  | drain =>
    dsimp only
    exact .modify WorkerRow.Later.refl fun _ _ => ⟨rfl, rfl, rfl⟩
  | provision x row hfree => exact .insert WorkerRow.Later.refl hfree trivial
  | _ => exact .same WorkerRow.Later.refl _

/-! ## What stays -/

/-- **What no step takes back.** -/
structure Ledger.Later (l l' : Ledger) : Prop where
  jobs : ∀ id j, l.jobs.lookup id = some j → ∃ j', l'.jobs.lookup id = some j' ∧ j.Later j'
  attempts : ∀ id a, l.attempts.lookup id = some a →
    ∃ a', l'.attempts.lookup id = some a' ∧ a.Later a'
  reservations : ∀ id r, l.reservations.lookup id = some r →
    ∃ r', l'.reservations.lookup id = some r' ∧ r.Later r'
  workers : ∀ id w, l.workers.lookup id = some w →
    ∃ w', l'.workers.lookup id = some w' ∧ w.Later w'
  sessions : ∀ id ss, l.sessions.lookup id = some ss →
    ∃ ss', l'.sessions.lookup id = some ss' ∧ ss.Later ss'
  takeovers : ∀ k t, l.takeovers.lookup k = some t →
    ∃ t', l'.takeovers.lookup k = some t' ∧ t.Later t'
  sweeps : l.sweeps.Extends l'.sweeps
  workerRequests : l.workerRequests.Extends l'.workerRequests
  jobInputs : l.jobInputs.Extends l'.jobInputs
  datasets : l.datasets.Extends l'.datasets
  completions : l.completions.Extends l'.completions
  uploads : l.uploads.Extends l'.uploads
  artifacts : l.artifacts.Extends l'.artifacts

theorem Ledger.Later.refl (l : Ledger) : l.Later l where
  jobs _ j hj := ⟨j, hj, .refl j⟩
  attempts _ a ha := ⟨a, ha, .refl a⟩
  reservations _ r hr := ⟨r, hr, .refl r⟩
  workers _ w hw := ⟨w, hw, .refl w⟩
  sessions _ ss hss := ⟨ss, hss, .refl ss⟩
  takeovers _ t ht := ⟨t, ht, .refl t⟩
  sweeps := .refl _
  workerRequests := .refl _
  jobInputs := .refl _
  datasets := .refl _
  completions := .refl _
  uploads := .refl _
  artifacts := .refl _

theorem Ledger.Later.trans {l'' : Ledger} (h : l.Later l') (h' : l'.Later l'') :
    l.Later l'' where
  jobs id j hj := by
    obtain ⟨j', hj', hlater⟩ := h.jobs id j hj
    obtain ⟨j'', hj'', hlater'⟩ := h'.jobs id j' hj'
    exact ⟨j'', hj'', hlater.trans hlater'⟩
  attempts id a ha := by
    obtain ⟨a', ha', hlater⟩ := h.attempts id a ha
    obtain ⟨a'', ha'', hlater'⟩ := h'.attempts id a' ha'
    exact ⟨a'', ha'', hlater.trans hlater'⟩
  reservations id r hr := by
    obtain ⟨r', hr', hlater⟩ := h.reservations id r hr
    obtain ⟨r'', hr'', hlater'⟩ := h'.reservations id r' hr'
    exact ⟨r'', hr'', hlater.trans hlater'⟩
  workers id w hw := by
    obtain ⟨w', hw', hlater⟩ := h.workers id w hw
    obtain ⟨w'', hw'', hlater'⟩ := h'.workers id w' hw'
    exact ⟨w'', hw'', hlater.trans hlater'⟩
  sessions id ss hss := by
    obtain ⟨ss', hss', hlater⟩ := h.sessions id ss hss
    obtain ⟨ss'', hss'', hlater'⟩ := h'.sessions id ss' hss'
    exact ⟨ss'', hss'', hlater.trans hlater'⟩
  takeovers k t ht := by
    obtain ⟨t', ht', hlater⟩ := h.takeovers k t ht
    obtain ⟨t'', ht'', hlater'⟩ := h'.takeovers k t' ht'
    exact ⟨t'', ht'', hlater.trans hlater'⟩
  sweeps := h.sweeps.trans h'.sweeps
  workerRequests := h.workerRequests.trans h'.workerRequests
  jobInputs := h.jobInputs.trans h'.jobInputs
  datasets := h.datasets.trans h'.datasets
  completions := h.completions.trans h'.completions
  uploads := h.uploads.trans h'.uploads
  artifacts := h.artifacts.trans h'.artifacts

theorem Ledger.Step.later (h : Ledger.Step sha op now l l') : l.Later l' := by
  have hjobs : ∀ id j, l.jobs.lookup id = some j →
      ∃ j', l'.jobs.lookup id = some j' ∧ j.Later j' := by
    intro id j hj
    obtain ⟨j', hj', hmoves⟩ := h.jobs.kept id j hj
    exact ⟨j', hj', hmoves.later⟩
  have hattempts := h.attempts.kept
  have hreservations := h.reservations.kept
  have hworkers := h.workers.kept
  have hsessions := h.sessions.kept
  have htakeovers := h.takeovers.kept
  cases h with
  | file uploads artifacts huploads hartifacts =>
    exact ⟨hjobs, hattempts, hreservations, hworkers, hsessions, htakeovers, .refl _, .refl _,
      .refl _, .refl _, .refl _, huploads, hartifacts⟩
  | dataset id row hfree _ =>
    exact ⟨hjobs, hattempts, hreservations, hworkers, hsessions, htakeovers, .refl _, .refl _,
      .refl _, .insert row hfree, .refl _, .refl _, .refl _⟩
  | admits l' h =>
    have hrest := h.rest
    simp only [Ledger.others, Prod.mk.injEq] at hrest
    obtain ⟨-, -, -, -, -, -, hrequests, hdatasets, hcompletions, huploads, hartifacts⟩ := hrest
    exact ⟨hjobs, hattempts, hreservations, hworkers, hsessions, htakeovers, h.sweeps,
      hrequests ▸ .refl _, h.jobInputs, hdatasets ▸ .refl _, hcompletions ▸ .refl _,
      huploads ▸ .refl _, hartifacts ▸ .refl _⟩
  | refuse key reason hop hfree =>
    exact ⟨hjobs, hattempts, hreservations, hworkers, hsessions, htakeovers, .refl _,
      .insert _ hfree, .refl _, .refl _, .refl _, .refl _, .refl _⟩
  | assign worker session request attempt job j w hop hfree h =>
    exact ⟨hjobs, hattempts, hreservations, hworkers, hsessions, htakeovers, .refl _,
      .insert _ hfree, .refl _, .refl _, .refl _, .refl _, .refl _⟩
  | complete completed identity r p j a res m hop hholds h =>
    exact ⟨hjobs, hattempts, hreservations, hworkers, hsessions, htakeovers, .refl _, .refl _,
      .refl _, .refl _, .insert _ h.first, .refl _, .refl _⟩
  | _ =>
    exact ⟨hjobs, hattempts, hreservations, hworkers, hsessions, htakeovers, .refl _, .refl _,
      .refl _, .refl _, .refl _, .refl _, .refl _⟩

theorem Ledger.Steps.later (h : Ledger.Steps sha op now l l') : l.Later l' := by
  induction h with
  | refl => exact .refl l
  | tail _ hstep ih => exact ih.trans hstep.later

/-! ## Runs -/

/-- **The ledgers that runs reach.** -/
inductive Ledger.Reachable (sha : Uuid → ℕ) : Ledger → Prop where
  | start (projects : Table Uuid ProjectRow) (workers : Table Uuid WorkerRow)
      (credentials : Table Uuid CredentialRow) (workerProjects : Table (Uuid × Uuid) Unit) :
      Reachable sha (Store.provisioned projects workers credentials workerProjects).toLedger
  | step {l l' : Ledger} {op : Op} {now : Time} :
      Reachable sha l → Ledger.Step sha op now l l' → Reachable sha l'

theorem Ledger.Reachable.steps (h : Ledger.Reachable sha l)
    (hsteps : Ledger.Steps sha op now l l') : Ledger.Reachable sha l' := by
  induction hsteps with
  | refl => exact h
  | tail _ hstep ih => exact ih.step hstep

/-- What each step keeps, the steps of a transaction keep. -/
theorem Ledger.Reachable.keeps_steps (h : Ledger.Reachable sha l) (P : Ledger → Prop)
    (hkeep : ∀ l l' op now, Ledger.Reachable sha l → P l → Ledger.Step sha op now l l' → P l')
    (hP : P l) (hsteps : Ledger.Steps sha op now l l') : Ledger.Reachable sha l' ∧ P l' := by
  induction hsteps with
  | refl => exact ⟨h, hP⟩
  | tail _ hstep ih => exact ⟨ih.1.step hstep, hkeep _ _ _ _ ih.1 ih.2 hstep⟩

/-- A transaction of a reachable world, on the ledger. -/
theorem Reachable.exec_ledger (h : Reachable sha w) (hle : w.clock ≤ now) {s' : Store}
    {reply : Reply} (hexec : op.exec sha w.store now = .ok (s', reply)) :
    Ledger.Steps sha op now w.store.toLedger s'.toLedger :=
  op.exec_ledger hexec (h.sound.coherent.later hle) h.sound.owned

/-- **The ledger of a reachable world is reachable.** -/
theorem Reachable.ledger (h : Reachable sha w) : Ledger.Reachable sha w.store.toLedger := by
  induction h with
  | start projects workers credentials workerProjects clock =>
    exact .start projects workers credentials workerProjects
  | step hw hstep ih =>
    obtain ⟨hle, op, reply, hexec⟩ := hstep
    exact ih.steps (hw.exec_ledger hle hexec)

/-- Where a new completion comes from. -/
def Ledger.Completed (sha : Uuid → ℕ) (op : Op) (now : Time) (l l' : Ledger) (id : Uuid)
    (row : CompletionRow) : Prop :=
  ∃ completed identity r p j a res m, op = .complete completed identity r ∧
    r.authority.attemptID = id ∧ l.Holds r.authority.jobID r.authority.attemptID j a res ∧
    l.Completes completed now identity r p j a m ∧
    row = r.row p (completionOutcome sha r j.spec completed now).state m ∧
    l' = l.complete completed r p j (completionOutcome sha r j.spec completed now) m

/-- **The completions of a step.** -/
theorem Ledger.Step.completions (h : Ledger.Step sha op now l l') {row : CompletionRow}
    (hrow : l'.completions.lookup id = some row) :
    l.completions.lookup id = some row ∨ l.Completed sha op now l' id row := by
  cases h with
  | admits l' h =>
    rw [show l'.completions = l.completions from
      congrArg (fun x => x.2.2.2.2.2.2.2.2.1) h.rest] at hrow
    exact .inl hrow
  | complete completed identity r p j a res m hop hholds h =>
    simp only [Ledger.complete, Table.lookup_insert_ite] at hrow
    split_ifs at hrow with hid
    · exact .inr ⟨completed, identity, r, p, j, a, res, m, hop, hid.symm, hholds, h,
        (Option.some.inj hrow).symm, rfl⟩
    · exact .inl hrow
  | _ => exact .inl hrow

/-- **A completion that was not there** is accepted in one of the steps. -/
theorem Ledger.Steps.completions (h : Ledger.Steps sha op now l l') {row : CompletionRow}
    (hnone : l.completions.lookup id = none) (hrow : l'.completions.lookup id = some row) :
    ∃ l₁ l₂, Ledger.Steps sha op now l l₁ ∧ l₁.Completed sha op now l₂ id row ∧
      Ledger.Steps sha op now l₂ l' := by
  induction h with
  | refl => exact absurd (hnone.symm.trans hrow) (by simp)
  | tail hrun hstep ih =>
    obtain hbefore | hnew := hstep.completions hrow
    · obtain ⟨l₁, l₂, hfirst, hcompleted, hrest⟩ := ih hbefore
      exact ⟨l₁, l₂, hfirst, hcompleted, hrest.tail hstep⟩
    · exact ⟨_, _, hrun, hnew, .refl⟩

/-- An attempt that was not there is acquired. -/
theorem Ledger.Steps.acquires (h : Ledger.Steps sha op now l l') {attempt : Uuid}
    {a : AttemptRow} (hnone : l.attempts.lookup attempt = none)
    (ha : l'.attempts.lookup attempt = some a) : ∃ key, op.acquires key := by
  induction h generalizing a with
  | refl => exact absurd (hnone.symm.trans ha) (by simp)
  | tail _ hstep ih =>
    obtain ⟨b, hb, -⟩ | ⟨-, worker, session, request, job, j, w, hop, -⟩ :=
      hstep.attempts.found attempt a ha
    · exact ih hb
    · exact ⟨_, hop⟩

/-- **What assigned an attempt that was not there**: an acquisition that found
a job, with the checks the job passed. -/
theorem Reachable.exec_assigned (h : Reachable sha w) (hle : w.clock ≤ now) {s' : Store}
    {reply : Reply} (hexec : op.exec sha w.store now = .ok (s', reply)) {attempt : Uuid}
    {a : AttemptRow} (hnone : w.store.attempts.lookup attempt = none)
    (ha : s'.attempts.lookup attempt = some a) :
    ∃ observed queueNow identity request policy job j host p,
      op = .acquire observed queueNow identity request policy attempt ∧
      (∃ blockers sequence, Assignable (w.store.observing blockers sequence) now identity.workerID
        request policy job j host p) ∧
      w.store.toLedger.Assigns identity.workerID request.sessionID attempt job j.uncounted
        host.row ∧
      a = newAttempt now identity.workerID request.sessionID job j ∧
      s'.toLedger = w.store.toLedger.assign now identity.workerID request.sessionID attempt job
        j.uncounted (identity.workerID, request.sessionID, request.requestID) := by
  obtain ⟨key, observed, queueNow, identity, request, policy, drawn, rfl, -⟩ :=
    (h.exec_ledger hle hexec).acquires hnone ha
  simp only [Op.exec, bind_ok, pure_pair_ok] at hexec
  obtain ⟨⟨t, result⟩, hacquire, rfl, -⟩ := hexec
  cases acquireWork_acquired hacquire with
  | replayed => exact absurd (hnone.symm.trans ha) (by simp)
  | repeated => exact absurd (hnone.symm.trans ha) (by simp)
  | refused blockers sequence reason hkey hnotes =>
    exact absurd (hnone.symm.trans ha) (by simp)
  | assigned blockers sequence assigned job j host p inputs hkey hnotes hassignable hinputs
        hassigned =>
    obtain ⟨hattempt, hreservation, hledger⟩ := assignJob_toLedger hassigned
    have hattempts := congrArg Ledger.attempts
      (hledger (identity.workerID, request.sessionID, request.requestID))
    have hrow : AList.lookup attempt (w.store.toLedger.assign now identity.workerID
        request.sessionID drawn job j.uncounted
        (identity.workerID, request.sessionID, request.requestID)).attempts = some a := by
      rw [← ha]
      exact congrArg (AList.lookup attempt) hattempts.symm
    simp only [Ledger.assign, Table.lookup_insert_ite] at hrow
    split_ifs at hrow with hid
    · subst hid
      exact ⟨observed, queueNow, identity, request, policy, job, j, host, p, rfl,
        ⟨blockers, sequence, hassignable⟩, hassignable.assigns hattempt hreservation,
        (Option.some.inj hrow).symm, hledger _⟩
    · exact absurd (hnone.symm.trans hrow) (by simp)

/-- **Later in a run.** -/
abbrev World.Later (sha : Uuid → ℕ) : World → World → Prop :=
  Relation.ReflTransGen (World.Step sha)

theorem Reachable.later (h : Reachable sha w) (hlater : World.Later sha w w') :
    Reachable sha w' := by
  induction hlater with
  | refl => exact h
  | tail _ hstep ih => exact ih.step hstep

/-- **What a step of the ledger keeps, a run keeps**, from any moment on. -/
theorem Reachable.keeps (h : Reachable sha w) (hlater : World.Later sha w w')
    (P : Ledger → Prop)
    (hkeep : ∀ l l' op now, Ledger.Reachable sha l → P l → Ledger.Step sha op now l l' → P l')
    (hP : P w.store.toLedger) : P w'.store.toLedger := by
  induction hlater with
  | refl => exact hP
  | tail hrun hstep ih =>
    obtain ⟨hle, op, reply, hexec⟩ := hstep
    have hreached := h.later hrun
    exact (hreached.ledger.keeps_steps P hkeep ih (hreached.exec_ledger hle hexec)).2

/-- **What stands at one moment of a run stands later.** -/
theorem Reachable.later_ledger (h : Reachable sha w) (hlater : World.Later sha w w') :
    w.store.toLedger.Later w'.store.toLedger :=
  h.keeps hlater (fun l => w.store.toLedger.Later l)
    (fun _ _ _ _ _ hl hstep => hl.trans hstep.later) (.refl _)

end Dispatch
