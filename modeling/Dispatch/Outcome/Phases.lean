import Dispatch.Outcome.Completion
import Dispatch.Store.Footprint

/-!
# The phases of an attempt

An attempt is assigned with a deadline for its startup. Two of its reports set
a new deadline, and both need an attempt that is still within the old one, so
the time an attempt may act adds up to no more than its three timeouts
(`AttemptRow.Phased`): the sum is bounded although no single deadline says when
the attempt was assigned.

A report is also the only thing that writes what is known of the container. A
second report of a phase may only repeat what is written, and a completion must
give the exit code that is there (`validateCompletionPhase`), so what was once
accepted is never contradicted.
-/

namespace Dispatch

open Txn

variable {s s' seen : Store} {w : World} {id : WorkerIdentity} {a' : AttemptRow} {r : PhaseReport}
  {l' : Ledger} {c : PhaseClaims} {j : JobRow} {result : MutationResult}

variable {sha : Uuid → ℕ} {op : Op} {now : Time}

/-! ## Forward -/

/-- **One state of an attempt after another.** -/
inductive AttemptState.Follows : AttemptState → AttemptState → Prop where
  | start : Follows .assigned .starting
  | run : Follows .starting .running
  /-- The container ended before it was seen running. -/
  | skip : Follows .starting .finalizing
  | exit : Follows .running .finalizing
  | finish {state next : AttemptState} (hactive : state.isActive = true)
      (hended : next.isActive = false) : Follows state next

/-- The phases that begin with a deadline of their own. -/
def AttemptState.timed : AttemptState → Bool
  | running | finalizing => true
  | _ => false

/-- **What a transaction may do to an attempt**: its state stays or moves one
step forward, and evidence and deadline change with the state only. -/
structure AttemptRow.Advances (a a' : AttemptRow) : Prop where
  state : a'.state = a.state ∨ a.state.Follows a'.state
  container : a'.containerID = a.containerID ∨
    a.containerID = none ∧ a'.state ≠ a.state ∧ a'.state.timed = true
  exit : a'.exitCode = a.exitCode ∨
    a.exitCode = none ∧ a'.state ≠ a.state ∧ a'.state = .finalizing
  deadline : a'.phaseDeadline = a.phaseDeadline ∨ a'.state ≠ a.state ∧ a'.state.timed = true
  origin : a'.createdAt = a.createdAt

/-- What a transaction that reports no phase may do to an attempt: it ends
it. -/
structure AttemptRow.Stays (a a' : AttemptRow) : Prop where
  state : a'.state = a.state ∨ a.state.isActive = true ∧ a'.state.isActive = false
  container : a'.containerID = a.containerID
  exit : a'.exitCode = a.exitCode
  deadline : a'.phaseDeadline = a.phaseDeadline
  origin : a'.createdAt = a.createdAt
  job : a'.job = a.job

theorem AttemptRow.Stays.refl (a : AttemptRow) : a.Stays a := ⟨.inl rfl, rfl, rfl, rfl, rfl, rfl⟩

theorem AttemptRow.Stays.trans {a a'' : AttemptRow} (h : a.Stays a') (h' : a'.Stays a'') :
    a.Stays a'' where
  state := by
    obtain hsame | ⟨hactive, hended⟩ := h.state
    · exact hsame ▸ h'.state
    · obtain hsame | ⟨hactive', -⟩ := h'.state
      · exact .inr ⟨hactive, hsame ▸ hended⟩
      · exact absurd (hactive'.symm.trans hended) (by simp)
  container := h'.container.trans h.container
  exit := h'.exit.trans h.exit
  deadline := h'.deadline.trans h.deadline
  origin := h'.origin.trans h.origin
  job := h'.job.trans h.job

theorem AttemptRow.Stays.advances {a : AttemptRow} (h : a.Stays a') : a.Advances a' where
  state := h.state.imp id fun ⟨hactive, hended⟩ => .finish hactive hended
  container := .inl h.container
  exit := .inl h.exit
  deadline := .inl h.deadline
  origin := h.origin

theorem Ledger.Completes.exit {l : Ledger} {completed : Time} {identity : WorkerIdentity}
    {r : CompletionRequest} {p : CompletionPayload} {a : AttemptRow} {m : ResultManifest}
    (h : l.Completes completed now identity r p j a m) : a.exitCode = r.exitCode := by
  have hphase := h.phase
  simp only [validateCompletionPhase, bind_ok, require_ok] at hphase
  obtain ⟨_, hexit, -⟩ := hphase
  exact hexit

/-- **Only reports of a phase write evidence and deadlines.** -/
theorem Ledger.Step.stays {l : Ledger} (h : Ledger.Step sha op now l l') :
    l.attempts.Turns AttemptRow.Stays (l.Assigned op now l') l'.attempts ∨
      (∃ seen identity report, op = .phase seen identity report) ∧
        ∃ attempt a claims deadline, l.Enters now attempt a claims deadline ∧
          l' = { l with attempts := l.attempts.modify attempt (·.enterPhase claims deadline) } := by
  cases h with
  | phase attempt a claims deadline hop h => exact .inr ⟨hop, attempt, a, claims, deadline, h, rfl⟩
  | admits l' h =>
    rw [show l'.attempts = l.attempts from congrArg (fun x => x.2.1) h.rest]
    exact .inl (.same AttemptRow.Stays.refl _)
  | assign worker session request attempt job j w hop hfree h =>
    exact .inl (.insert AttemptRow.Stays.refl h.newAttempt
      ⟨worker, session, request, job, j, w, hop, hfree, h, rfl, rfl⟩)
  | renew attempt a lease ha hactive =>
    dsimp only
    exact .inl (.modify AttemptRow.Stays.refl fun a' _ => ⟨.inl rfl, rfl, rfl, rfl, rfl, rfl⟩)
  | complete completed identity r p j a res m hop hholds h =>
    dsimp only [Ledger.complete, Ledger.close]
    refine .inl (.modify AttemptRow.Stays.refl fun a' ha' => ?_)
    obtain rfl := Option.mem_unique hholds.granted ha'
    obtain ⟨hended, -⟩ := completionOutcome_cases sha r j.spec completed now
    exact ⟨.inr ⟨hholds.active, hended⟩, rfl, h.exit.symm, rfl, rfl, rfl⟩
  | fence job attempt j a r hholds =>
    dsimp only [Ledger.close]
    refine .inl (.modify AttemptRow.Stays.refl fun a' ha' => ?_)
    obtain rfl := Option.mem_unique hholds.granted ha'
    obtain ⟨hended, -⟩ := fenceOutcome_cases sha j a attempt now
    exact ⟨.inr ⟨hholds.active, hended⟩, rfl, rfl, rfl, rfl, rfl⟩
  | report identity report hash w released reconciled hop h =>
    dsimp only [Ledger.report]
    refine .inl (.update fun id a ha => ?_)
    split_ifs
    · exact ⟨.inl rfl, rfl, rfl, rfl, rfl, rfl⟩
    · exact .refl a
  | _ => exact .inl (.same AttemptRow.Stays.refl _)

theorem Ledger.Steps.stays {l : Ledger} (h : Ledger.Steps sha op now l l')
    (hop : ∀ seen identity report, op ≠ .phase seen identity report) {id : Uuid} {a : AttemptRow}
    (ha : l.attempts.lookup id = some a) : ∃ a', l'.attempts.lookup id = some a' ∧ a.Stays a' := by
  induction h with
  | refl => exact ⟨a, ha, .refl a⟩
  | tail _ hstep ih =>
    obtain ⟨a', ha', hstays⟩ := ih
    obtain hturns | ⟨⟨seen, identity, report, hphase⟩, -⟩ := hstep.stays
    · obtain ⟨a'', ha'', hstays'⟩ := hturns.kept id a' ha'
      exact ⟨a'', ha'', hstays.trans hstays'⟩
    · exact absurd hphase (hop seen identity report)

/-! ## The evidence of a report -/

/-- A phase with a deadline of its own names its container, and only the last
one has an exit code. -/
theorem validPhaseEvidence_cases (h : validPhaseEvidence c = true) :
    c.phase = .starting ∧ c.containerID = "" ∧ c.exitCode = none ∨
      c.phase = .running ∧ c.containerID ≠ "" ∧ c.exitCode = none ∨
      c.phase = .finalizing ∧ c.containerID ≠ "" := by
  have hnamed : hashPattern c.containerID = true → c.containerID ≠ "" := by
    intro hpattern hempty
    rw [hempty] at hpattern
    exact absurd hpattern (by decide)
  unfold validPhaseEvidence at h
  split at h
  · rename_i hphase
    simp only [Bool.and_eq_true, decide_eq_true_eq, Option.isNone_iff_eq_none] at h
    exact .inl ⟨hphase, h⟩
  · rename_i hphase
    simp only [Bool.and_eq_true, Option.isNone_iff_eq_none] at h
    exact .inr (.inl ⟨hphase, hnamed h.1, h.2⟩)
  · rename_i hphase
    rw [Bool.and_eq_true] at h
    exact .inr (.inr ⟨hphase, hnamed h.1⟩)
  · exact absurd h (by simp)

/-- What a report of the phase an attempt is in must repeat. -/
theorem nextPhaseDeadline_same {a : AttemptRow} {job : Job} {deadline : Time}
    (hsame : a.state = c.phase) (h : nextPhaseDeadline c a job now = .ok deadline) :
    (∀ container ∈ a.containerID, c.containerID = container) ∧ a.exitCode = c.exitCode := by
  simp only [nextPhaseDeadline, bind_ok, require_ok, if_pos hsame] at h
  obtain ⟨_, hcontainer, _, hexit, -⟩ := h
  exact ⟨hcontainer, hexit⟩

/-- **The moves of a report**, each with the deadline it sets. -/
theorem nextPhaseDeadline_moves {a : AttemptRow} {job : Job} {deadline : Time}
    (hmoves : a.state ≠ c.phase) (h : nextPhaseDeadline c a job now = .ok deadline) :
    (∀ container ∈ a.containerID, c.containerID = container) ∧
      (a.state = .assigned ∧ c.phase = .starting ∧ deadline = a.phaseDeadline ∨
        a.state = .starting ∧ c.phase = .running ∧
          deadline = now + seconds job.spec.timeouts.executionSeconds ∨
        (a.state = .starting ∨ a.state = .running) ∧ c.phase = .finalizing ∧
          deadline = now + seconds job.spec.timeouts.finalizationSeconds) := by
  simp only [nextPhaseDeadline, bind_ok, require_ok, if_neg hmoves] at h
  obtain ⟨_, hcontainer, h⟩ := h
  refine ⟨hcontainer, ?_⟩
  split at h
  · exact .inl ⟨‹_›, ‹_›, (pure_ok.mp h).symm⟩
  · exact .inr (.inl ⟨‹_›, ‹_›, (pure_ok.mp h).symm⟩)
  · exact .inr (.inr ⟨.inl ‹_›, ‹_›, (pure_ok.mp h).symm⟩)
  · exact .inr (.inr ⟨.inr ‹_›, ‹_›, (pure_ok.mp h).symm⟩)
  · exact absurd h (by simp)

/-! ## The budget -/

/-- The time an attempt has from its assignment to the end of a state. -/
def Timeouts.until (t : Timeouts) : AttemptState → Time
  | .assigned | .starting => seconds t.startupSeconds
  | .running => seconds t.startupSeconds + seconds t.executionSeconds
  | _ => seconds t.startupSeconds + seconds t.executionSeconds + seconds t.finalizationSeconds

theorem Timeouts.until_le (t : Timeouts) (state : AttemptState) :
    t.until state ≤
      seconds t.startupSeconds + seconds t.executionSeconds + seconds t.finalizationSeconds := by
  cases state with
  | assigned | starting => exact Nat.le_trans (Nat.le_add_right _ _) (Nat.le_add_right _ _)
  | running => exact Nat.le_add_right _ _
  | _ => exact Nat.le_refl _

/-- A deadline within a budget, and a timeout from before it. -/
theorem budget_add {now assigned spent budget timeout : ℕ} (hnow : now ≤ assigned + spent)
    (hspent : spent ≤ budget) : now + timeout ≤ assigned + (budget + timeout) := by
  omega

/-- **An attempt in its phases**: its container is known once it runs, its exit
code not before it has ended, and its deadline is within the timeouts up to its
state. -/
structure AttemptRow.Phased (t : Timeouts) (a : AttemptRow) : Prop where
  container : a.state.timed = true → a.containerID ≠ none
  exit : a.state.isActive = true → a.state ≠ .finalizing → a.exitCode = none
  deadline : a.phaseDeadline ≤ a.createdAt + t.until a.state

theorem newAttempt_phased (worker session job : Uuid) (j : JobRow) :
    (newAttempt now worker session job j).Phased j.spec.spec.timeouts :=
  ⟨fun h => (nomatch h), fun _ _ => rfl, Nat.le_refl _⟩

theorem AttemptRow.Phased.stays {t : Timeouts} {a : AttemptRow} (hp : a.Phased t) (h : a.Stays a') :
    a'.Phased t := by
  have hdeadline : a'.phaseDeadline ≤ a'.createdAt + t.until a.state := by
    rw [h.deadline, h.origin]
    exact hp.deadline
  obtain hsame | ⟨-, hended⟩ := h.state
  · exact ⟨hsame ▸ h.container ▸ hp.container, hsame ▸ h.exit ▸ hp.exit, hsame ▸ hdeadline⟩
  · refine ⟨fun htimed => ?_, fun hactive => absurd (hactive.symm.trans hended) (by simp), ?_⟩
    · cases hstate : a'.state <;> simp_all [AttemptState.timed, AttemptState.isActive]
    · have hwhole : t.until a'.state = seconds t.startupSeconds + seconds t.executionSeconds +
          seconds t.finalizationSeconds := by
        cases hstate : a'.state <;> simp_all [Timeouts.until, AttemptState.isActive]
      rw [hwhole]
      exact Nat.le_trans hdeadline (Nat.add_le_add_left (t.until_le a.state) _)

/-- What is known of a container stays when a report repeats it. -/
theorem AttemptRow.enterPhase_container {a : AttemptRow} {claims : PhaseClaims} {deadline : Time}
    (h : ∀ container ∈ a.containerID, claims.containerID = container)
    (hnamed : claims.containerID ≠ "") :
    (a.enterPhase claims deadline).containerID = some claims.containerID := by
  cases hcontainer : a.containerID with
  | none => simp [AttemptRow.enterPhase, hcontainer, hnamed]
  | some container => simp [AttemptRow.enterPhase, hcontainer, h container hcontainer]

section

variable {l : Ledger} {attempt : Uuid} {a : AttemptRow} {claims : PhaseClaims} {deadline : Time}
  {t : Timeouts} (h : l.Enters now attempt a claims deadline) (hp : a.Phased t)

include h

theorem Ledger.Enters.follows : a.state.Follows claims.phase := by
  obtain ⟨j, -, hdeadline⟩ := h.deadline
  obtain ⟨hstate, hphase, -⟩ | ⟨hstate, hphase, -⟩ | ⟨hstate | hstate, hphase, -⟩ :=
    (nextPhaseDeadline_moves h.moves hdeadline).2
  all_goals rw [hstate, hphase]
  · exact .start
  · exact .run
  · exact .skip
  · exact .exit

include hp

/-- The exit code is not known before the report that brings it. -/
theorem Ledger.Enters.exit : a.exitCode = none := by
  obtain ⟨j, -, hdeadline⟩ := h.deadline
  refine hp.exit h.active ?_
  obtain ⟨hstate, -⟩ | ⟨hstate, -⟩ | ⟨hstate | hstate, -⟩ :=
    (nextPhaseDeadline_moves h.moves hdeadline).2 <;> simp [hstate]

/-- **A report moves its attempt forward**, and writes only what was not
known. -/
theorem Ledger.Enters.advances : a.Advances (a.enterPhase claims deadline) where
  state := .inr h.follows
  container := by
    cases hcontainer : a.containerID with
    | some container => exact .inl (by simp [AttemptRow.enterPhase, hcontainer])
    | none =>
      obtain ⟨-, hempty, -⟩ | ⟨hphase, -⟩ | ⟨hphase, -⟩ := validPhaseEvidence_cases h.evidence
      · exact .inl (by simp [AttemptRow.enterPhase, hcontainer, hempty])
      · exact .inr ⟨rfl, h.moves.symm, by simp [AttemptRow.enterPhase, hphase, AttemptState.timed]⟩
      · exact .inr ⟨rfl, h.moves.symm, by simp [AttemptRow.enterPhase, hphase, AttemptState.timed]⟩
  exit := by
    obtain ⟨-, -, hnone⟩ | ⟨-, -, hnone⟩ | ⟨hphase, -⟩ := validPhaseEvidence_cases h.evidence
    · exact .inl (hnone.trans (h.exit hp).symm)
    · exact .inl (hnone.trans (h.exit hp).symm)
    · exact .inr ⟨h.exit hp, h.moves.symm, hphase⟩
  deadline := by
    obtain ⟨j, -, hdeadline⟩ := h.deadline
    obtain ⟨-, -, hsame⟩ | ⟨-, hphase, -⟩ | ⟨-, hphase, -⟩ :=
      (nextPhaseDeadline_moves h.moves hdeadline).2
    · exact .inl hsame
    · exact .inr ⟨h.moves.symm, by simp [AttemptRow.enterPhase, hphase, AttemptState.timed]⟩
    · exact .inr ⟨h.moves.symm, by simp [AttemptRow.enterPhase, hphase, AttemptState.timed]⟩
  origin := rfl

/-- **The deadline of a phase adds one timeout**, since the report came before
the deadline it replaces. -/
theorem Ledger.Enters.phased (hjob : ∃ j, l.jobs.lookup a.job = some j ∧ j.spec.spec.timeouts = t) :
    (a.enterPhase claims deadline).Phased t := by
  obtain ⟨j, hj, rfl⟩ := hjob
  obtain ⟨j', hj', hdeadline⟩ := h.deadline
  obtain rfl := Option.mem_unique hj hj'
  obtain ⟨hcontainer, hmove⟩ := nextPhaseDeadline_moves h.moves hdeadline
  have hevidence := validPhaseEvidence_cases h.evidence
  have hlate : now ≤ a.createdAt + j.spec.spec.timeouts.until a.state :=
    Nat.le_trans (Nat.le_of_lt h.early) hp.deadline
  refine ⟨fun htimed => ?_, fun _ hrunning => ?_, ?_⟩
  · obtain ⟨hphase, -⟩ | ⟨-, hnamed, -⟩ | ⟨-, hnamed⟩ := hevidence
    · exact absurd htimed (by simp [AttemptRow.enterPhase, hphase, AttemptState.timed])
    · simp [AttemptRow.enterPhase_container hcontainer hnamed]
    · simp [AttemptRow.enterPhase_container hcontainer hnamed]
  · obtain ⟨-, -, hnone⟩ | ⟨-, -, hnone⟩ | ⟨hphase, -⟩ := hevidence
    · exact hnone
    · exact hnone
    · exact absurd hphase hrunning
  · have hwithin := hp.deadline
    simp only [AttemptRow.enterPhase]
    obtain ⟨hstate, hphase, rfl⟩ | ⟨hstate, hphase, rfl⟩ | ⟨hstate | hstate, hphase, rfl⟩ := hmove
    all_goals rw [hphase]; rw [hstate] at hlate hwithin; simp only [Timeouts.until] at *
    · exact hwithin
    · exact budget_add hlate (Nat.le_refl _)
    · exact budget_add hlate (Nat.le_add_right _ _)
    · exact budget_add hlate (Nat.le_refl _)

end

/-! ## Every attempt -/

/-- **The attempts of a ledger are in their phases**, and one that was completed
has the exit code it was completed with. -/
structure Ledger.Phased (l : Ledger) : Prop where
  attempts : ∀ id a, l.attempts.lookup id = some a →
    ∃ j, l.jobs.lookup a.job = some j ∧ a.Phased j.spec.spec.timeouts
  completed : ∀ id c, l.completions.lookup id = some c →
    ∃ a, l.attempts.lookup id = some a ∧ a.state.isActive = false ∧
      a.exitCode = c.payloadDigest.exitCode

theorem normalizeCompletion_exitCode {r : CompletionRequest} {p : CompletionPayload}
    (h : normalizeCompletion r = .ok p) : p.exitCode = r.exitCode := by
  simp only [normalizeCompletion, bind_ok, pure_ok] at h
  obtain ⟨-, -, -, -, -, -, -, -, -, -, -, -, _, -, rfl⟩ := h
  rfl

/-- **An attempt in a step** moves forward, and stays in its phases. -/
theorem Ledger.Step.advances {l : Ledger} (h : Ledger.Step sha op now l l') (hp : l.Phased) :
    l.attempts.Turns (fun a a' => a.Advances a' ∧ a'.job = a.job ∧
        ∀ j, l.jobs.lookup a.job = some j → a.Phased j.spec.spec.timeouts →
          a'.Phased j.spec.spec.timeouts)
      (l.Assigned op now l') l'.attempts := by
  obtain hturns | ⟨-, attempt, a, claims, deadline, henters, rfl⟩ := h.stays
  · refine hturns.imp fun a a' hstays => ?_
    exact ⟨hstays.advances, hstays.job, fun _ _ hphased => hphased.stays hstays⟩
  · dsimp only
    refine .modify (fun a => ?_) fun b hb => ?_
    · exact ⟨(AttemptRow.Stays.refl a).advances, rfl, fun _ _ => id⟩
    obtain rfl := Option.mem_unique henters.granted hb
    obtain ⟨j, -, hphased⟩ := hp.attempts attempt a hb
    exact ⟨henters.advances hphased, rfl, fun j hj hphased => henters.phased hphased ⟨j, hj, rfl⟩⟩

theorem Ledger.Phased.step {l : Ledger} (hp : l.Phased) (h : Ledger.Step sha op now l l') :
    l'.Phased := by
  have hjobs : ∀ id j, l.jobs.lookup id = some j →
      ∃ j', l'.jobs.lookup id = some j' ∧ j'.spec = j.spec := by
    intro id j hj
    obtain ⟨j', hj', hlater⟩ := h.later.jobs id j hj
    exact ⟨j', hj', hlater.spec⟩
  refine ⟨fun id a' ha' => ?_, fun id c hc => ?_⟩
  · obtain ⟨a, ha, -, hjob, hkeeps⟩ | ⟨-, hassigned⟩ := (h.advances hp).found id a' ha'
    · obtain ⟨j, hj, hphased⟩ := hp.attempts id a ha
      obtain ⟨j', hj', hspec⟩ := hjobs a.job j hj
      exact ⟨j', hjob ▸ hj', hspec ▸ hkeeps j hj hphased⟩
    · obtain ⟨worker, session, request, job, j, w, -, -, hassigns, rfl, -⟩ := hassigned
      obtain ⟨j', hj', hspec⟩ := hjobs job j hassigns.waits
      exact ⟨j', hj', hspec ▸ newAttempt_phased worker session job j⟩
  · obtain hold | ⟨completed, identity, r, p, j, a, res, m, -, rfl, hholds, hcompletes, rfl, rfl⟩ :=
      h.completions hc
    · obtain ⟨a, ha, hended, hexit⟩ := hp.completed id c hold
      obtain ⟨a', ha', hadvances, -⟩ := (h.advances hp).kept id a ha
      obtain ⟨b, hb, hlater⟩ := h.later.attempts id a ha
      obtain rfl := Option.mem_unique ha' hb
      have hsame := hlater.ended hended
      obtain hkept | ⟨-, hmoved, -⟩ := hadvances.exit
      · exact ⟨a', ha', hsame ▸ hended, hkept.trans hexit⟩
      · exact absurd hsame hmoved
    · refine ⟨a.complete r p (completionOutcome sha r j.spec completed now).state completed, ?_,
        (completionOutcome_cases sha r j.spec completed now).1, ?_⟩
      · simp [Ledger.complete, Ledger.close, hholds.granted]
      · exact (normalizeCompletion_exitCode hcompletes.payload).symm

theorem Ledger.Reachable.phased {l : Ledger} (h : Ledger.Reachable sha l) : l.Phased := by
  induction h with
  | start => exact ⟨fun _ _ h => (nomatch h), fun _ _ h => (nomatch h)⟩
  | step _ hstep ih => exact ih.step hstep

/-! ## Every transaction -/

/-- **The attempts after a report**: it moved its own attempt, or none. -/
theorem reportPhase_attempts (h : reportPhase s seen now id r = .ok (s', result)) :
    s'.attempts = s.attempts ∨ ∃ a j deadline, PhaseAccepted s now id r a j deadline ∧
      a.state ≠ r.claims.phase ∧ s'.attempts = s.attempts.modify r.claims.authority.attemptID
        (·.enterPhase r.claims deadline) := by
  obtain ⟨rfl, -⟩ | ⟨a, j, deadline, haccepted, -, ⟨-, rfl⟩ | ⟨hmoves, hlogged⟩⟩ :=
    reportPhase_cases h
  · exact .inl rfl
  · exact .inl rfl
  · exact .inr ⟨a, j, deadline, haccepted, hmoves, (appendEvent_attempts hlogged).1⟩

/-- An attempt of a reachable store is in its phases. -/
theorem Reachable.phased (h : Reachable sha w) {id : Uuid} {a : AttemptRow}
    (ha : w.store.attempts.lookup id = some a) :
    ∃ j, w.store.jobs.lookup a.job = some j ∧ a.Phased j.spec.spec.timeouts := by
  obtain ⟨j, hj, hphased⟩ := h.ledger.phased.attempts id a ha
  obtain ⟨k, hk, rfl⟩ := Store.job_of_toLedger hj
  exact ⟨k, hk, hphased⟩

/-- **An attempt in a transaction** moves forward once at most. -/
theorem Reachable.exec_advances (h : Reachable sha w) (hle : w.clock ≤ now) {reply : Reply}
    (hexec : op.exec sha w.store now = .ok (s', reply)) {id : Uuid} {a : AttemptRow}
    (ha : w.store.attempts.lookup id = some a) :
    ∃ a', s'.attempts.lookup id = some a' ∧ a.Advances a' := by
  by_cases hop : ∃ seen identity report, op = .phase seen identity report
  · obtain ⟨seen, identity, r, rfl⟩ := hop
    simp only [Op.exec, bind_ok, pure_pair_ok] at hexec
    obtain ⟨⟨t, result⟩, hreport, rfl, -⟩ := hexec
    obtain hsame | ⟨b, j, deadline, haccepted, hmoves, hmodified⟩ := reportPhase_attempts hreport
    · exact ⟨a, hsame ▸ ha, (AttemptRow.Stays.refl a).advances⟩
    · rw [hmodified, Table.lookup_modify, ha]
      split_ifs with hid
      · obtain rfl := Option.some.inj (ha.symm.trans (hid ▸ haccepted.attempt))
        obtain ⟨_, -, hphased⟩ := h.phased ha
        exact ⟨_, rfl, (haccepted.enters hmoves).advances hphased⟩
      · exact ⟨a, rfl, (AttemptRow.Stays.refl a).advances⟩
  · simp only [not_exists] at hop
    obtain ⟨a', ha', hstays⟩ := (h.exec_ledger hle hexec).stays hop ha
    exact ⟨a', ha', hstays.advances⟩

/-! ## Reports never disagree -/

/-- **What a report says of the container is what is known of it.** -/
structure PhaseClaims.Agrees (c : PhaseClaims) (a : AttemptRow) : Prop where
  container : c.containerID ≠ "" → a.containerID = some c.containerID
  exit : ∀ e ∈ c.exitCode, a.exitCode = some e

/-- What is known stays known. -/
theorem AttemptRow.Advances.known {a : AttemptRow} (h : a.Advances a') :
    (∀ c, a.containerID = some c → a'.containerID = some c) ∧
      ∀ e, a.exitCode = some e → a'.exitCode = some e := by
  refine ⟨fun c hc => ?_, fun e he => ?_⟩
  · obtain hsame | ⟨hnone, -⟩ := h.container
    · exact hsame.trans hc
    · exact absurd (hnone.symm.trans hc) (by simp)
  · obtain hsame | ⟨hnone, -⟩ := h.exit
    · exact hsame.trans he
    · exact absurd (hnone.symm.trans he) (by simp)

theorem PhaseClaims.Agrees.advances {a : AttemptRow} (h : c.Agrees a) (hadvances : a.Advances a') :
    c.Agrees a' where
  container hnamed := hadvances.known.1 _ (h.container hnamed)
  exit e he := hadvances.known.2 e (h.exit e he)

/-- An accepted report agrees with the attempt it leaves. -/
theorem PhaseAccepted.agrees {a : AttemptRow} {deadline : Time} {t : Timeouts}
    (h : PhaseAccepted s now id r a j deadline) (hp : a.Phased t) :
    (a.state = r.claims.phase → r.claims.Agrees a) ∧
      (a.state ≠ r.claims.phase → r.claims.Agrees (a.enterPhase r.claims deadline)) := by
  refine ⟨fun hsame => ?_, fun hmoves => ?_⟩
  · obtain ⟨hcontainer, hexit⟩ := nextPhaseDeadline_same hsame h.deadline
    refine ⟨fun hnamed => ?_, fun e he => hexit.trans he⟩
    have htimed : a.state.timed = true := by
      rw [hsame]
      obtain ⟨-, hempty, -⟩ | ⟨hphase, -⟩ | ⟨hphase, -⟩ := validPhaseEvidence_cases h.evidence
      · exact absurd hempty hnamed
      · rw [hphase]; rfl
      · rw [hphase]; rfl
    obtain ⟨container, hknown⟩ := Option.ne_none_iff_exists'.mp (hp.container htimed)
    rw [hknown, hcontainer container hknown]
  · obtain ⟨hcontainer, -⟩ := nextPhaseDeadline_moves hmoves h.deadline
    exact ⟨fun hnamed => AttemptRow.enterPhase_container hcontainer hnamed, fun e he => he⟩

/-- **Every report on file agrees with its attempt.** -/
def Store.Reported (s : Store) : Prop :=
  ∀ key c, s.phaseReports.lookup key = some c →
    ∃ a, s.attempts.lookup c.authority.attemptID = some a ∧ c.Agrees a

/-- The file and the attempt after a first report. -/
theorem PhaseAccepted.filed {a : AttemptRow} {deadline : Time} {t : Timeouts}
    (h : PhaseAccepted s now id r a j deadline) (hp : a.Phased t)
    (hdone : a.state = r.claims.phase ∧ s' = s.filePhase id r ∨
      a.state ≠ r.claims.phase ∧ Store.appendEvent { s.filePhase id r with
        attempts := s.attempts.modify r.claims.authority.attemptID
          (·.enterPhase r.claims deadline) } now a.job (some r.claims.authority.attemptID)
        (.phaseChanged a.state r.claims.phase deadline r.claims.containerID r.claims.exitCode)
        = .ok s') :
    s'.phaseReports = (s.filePhase id r).phaseReports ∧
      ∃ a', s'.attempts.lookup r.claims.authority.attemptID = some a' ∧ r.claims.Agrees a' := by
  obtain ⟨hsame, rfl⟩ | ⟨hmoves, hlogged⟩ := hdone
  · exact ⟨rfl, a, h.attempt, (h.agrees hp).1 hsame⟩
  · refine ⟨(appendEvent_writes hlogged .phaseReports (by decide) :), ?_⟩
    rw [(appendEvent_attempts hlogged).1, Table.lookup_modify, if_pos rfl, h.attempt]
    exact ⟨_, rfl, (h.agrees hp).2 hmoves⟩

theorem Op.exec_phaseReports {reply : Reply} (h : op.exec sha s now = .ok (s', reply))
    (hop : ∀ seen identity report, op ≠ .phase seen identity report) :
    s'.phaseReports = s.phaseReports := by
  refine op.exec_writes h .phaseReports ?_
  cases op with
  | phase seen identity report => exact absurd rfl (hop seen identity report)
  | _ => simp only [Op.footprint]; decide

theorem Reachable.reported (h : Reachable sha w) : w.store.Reported := by
  induction h with
  | start => exact fun _ _ h => (nomatch h)
  | @step w w' hw hstep ih =>
    obtain ⟨hle, op, reply, hexec⟩ := hstep
    -- A report that stays on file goes on agreeing.
    have hkept : ∀ key c, w.store.phaseReports.lookup key = some c →
        ∃ a, w'.store.attempts.lookup c.authority.attemptID = some a ∧ c.Agrees a := by
      intro key c hc
      obtain ⟨a, ha, hagrees⟩ := ih key c hc
      obtain ⟨a', ha', hadvances⟩ := hw.exec_advances hle hexec ha
      exact ⟨a', ha', hagrees.advances hadvances⟩
    by_cases hop : ∃ seen identity report, op = .phase seen identity report
    · obtain ⟨seen, identity, r, rfl⟩ := hop
      simp only [Op.exec, bind_ok, pure_pair_ok] at hexec
      obtain ⟨⟨t, result⟩, hreport, rfl, -⟩ := hexec
      obtain ⟨hsame, -⟩ | ⟨a, j, deadline, haccepted, -, hdone⟩ := reportPhase_cases hreport
      · exact fun key c hc => hkept key c (hsame ▸ hc)
      · obtain ⟨_, -, hphased⟩ := hw.phased haccepted.attempt
        obtain ⟨hfile, hagrees⟩ := haccepted.filed hphased hdone
        intro key c hc
        rw [hfile, Store.filePhase, Table.lookup_insert_ite] at hc
        split_ifs at hc
        · obtain rfl := Option.some.inj hc
          exact hagrees
        · exact hkept key c hc
    · simp only [not_exists] at hop
      exact fun key c hc => hkept key c (Op.exec_phaseReports hexec hop ▸ hc)

/-- **An accepted report agrees with its attempt**, also when it repeats an
earlier one. -/
theorem Reachable.report_agrees (h : Reachable sha w)
    (hreport : reportPhase w.store seen now id r = .ok (s', result))
    (haccepted : result.decision = .accepted) :
    ∃ a, s'.attempts.lookup r.claims.authority.attemptID = some a ∧ r.claims.Agrees a := by
  obtain ⟨rfl, hrefused | ⟨hsaved, -⟩⟩ | ⟨a, j, deadline, hfirst, -, hdone⟩ :=
    reportPhase_cases hreport
  · exact absurd haccepted hrefused
  · exact h.reported _ _ hsaved
  · obtain ⟨_, -, hphased⟩ := h.phased hfirst.attempt
    exact (hfirst.filed hphased hdone).2

/-- **An accepted completion has the exit code of its attempt.** -/
theorem Reachable.completion_agrees (h : Reachable sha w) (hle : w.clock ≤ now)
    {completed : Time} {r : CompletionRequest} {result : CompletionResult}
    (hexec : Op.exec sha w.store now (.complete completed id r) = .ok (s', .completion result))
    (haccepted : result.decision = .accepted) :
    ∃ a, s'.attempts.lookup r.authority.attemptID = some a ∧ a.exitCode = r.exitCode := by
  have hreached : Reachable sha ⟨s', now⟩ := h.step ⟨hle, _, _, hexec⟩
  simp only [Op.exec, bind_ok, pure_pair_ok, Reply.completion.injEq] at hexec
  obtain ⟨⟨t, _⟩, hcomplete, rfl, rfl⟩ := hexec
  obtain ⟨-, -, hnormal⟩ := completeAttempt_checked hcomplete
  obtain ⟨c, -, hc, -, -, -, hdigest, -⟩ := completeAttempt_accepted hcomplete haccepted
  obtain ⟨a, ha, -, hexit⟩ := hreached.ledger.phased.completed _ c hc
  exact ⟨a, ha, hexit.trans (normalizeCompletion_exitCode (hdigest ▸ hnormal))⟩

/-! ## Whole runs -/

/-- How far a state is. -/
def AttemptState.stage : AttemptState → ℕ
  | assigned => 0
  | starting => 1
  | running => 2
  | finalizing => 3
  | _ => 4

theorem AttemptState.Follows.stage_lt {state next : AttemptState} (h : state.Follows next) :
    state.stage < next.stage := by
  cases h with
  | finish hactive hended =>
    cases state <;> cases next <;> simp_all [AttemptState.stage, AttemptState.isActive]
  | _ => decide

/-- No state is left and entered again. -/
theorem AttemptState.stage_le {state next : AttemptState}
    (h : Relation.ReflTransGen AttemptState.Follows state next) : state.stage ≤ next.stage := by
  induction h with
  | refl => exact Nat.le_refl _
  | tail _ hnext ih => exact Nat.le_trans ih (Nat.le_of_lt hnext.stage_lt)

/-- A report of a phase that its attempt has reached moves nothing. -/
theorem reportPhase_reached {a : AttemptRow} (h : reportPhase s seen now id r = .ok (s', result))
    (ha : s.attempts.lookup r.claims.authority.attemptID = some a)
    (hreached : Relation.ReflTransGen AttemptState.Follows r.claims.phase a.state) :
    s'.attempts = s.attempts := by
  obtain hsame | ⟨b, j, deadline, haccepted, hmoves, -⟩ := reportPhase_attempts h
  · exact hsame
  · obtain rfl := Option.mem_unique ha haccepted.attempt
    have hnext := (haccepted.enters hmoves).follows.stage_lt
    have hback := AttemptState.stage_le hreached
    omega

/-- **An attempt in a run.** -/
theorem Reachable.later_attempt {w' : World} (h : Reachable sha w)
    (hlater : World.Later sha w w') {id : Uuid} {a : AttemptRow}
    (ha : w.store.attempts.lookup id = some a) :
    ∃ a', w'.store.attempts.lookup id = some a' ∧
      Relation.ReflTransGen AttemptState.Follows a.state a'.state ∧
      (∀ c, a.containerID = some c → a'.containerID = some c) ∧
      (∀ e, a.exitCode = some e → a'.exitCode = some e) ∧ a'.createdAt = a.createdAt := by
  induction hlater with
  | refl => exact ⟨a, ha, .refl, fun _ hc => hc, fun _ he => he, rfl⟩
  | tail hrun hstep ih =>
    obtain ⟨a', ha', hforward, hcontainer, hexit, horigin⟩ := ih
    obtain ⟨hle, op, reply, hexec⟩ := hstep
    obtain ⟨a'', ha'', hadvances⟩ := (h.later hrun).exec_advances hle hexec ha'
    refine ⟨a'', ha'', ?_, fun c hc => hadvances.known.1 c (hcontainer c hc),
      fun e he => hadvances.known.2 e (hexit e he), hadvances.origin.trans horigin⟩
    obtain hsame | hnext := hadvances.state
    · exact hsame ▸ hforward
    · exact hforward.tail hnext

/-- **Authority ends with the budget.** -/
theorem Reachable.authorized_lt (h : Reachable sha w) {authority : AttemptAuthority}
    (hauthorized : Authorized w.store now authority) :
    ∃ a j, w.store.attempts.lookup authority.attemptID = some a ∧
      w.store.jobs.lookup a.job = some j ∧
      now < a.createdAt + (seconds j.spec.spec.timeouts.startupSeconds +
        seconds j.spec.spec.timeouts.executionSeconds +
        seconds j.spec.spec.timeouts.finalizationSeconds) := by
  obtain ⟨a, j, ha, hj, haccepted⟩ := hauthorized
  obtain ⟨l, hl, -, -, -, -, -, hearly⟩ := leaseDecision_eq_accepted.mp haccepted
  obtain rfl := Option.some.inj hl
  obtain ⟨k, hk, hphased⟩ := h.phased ha
  obtain rfl := Option.mem_unique hj hk
  have hbudget := Nat.add_le_add_left (j.spec.spec.timeouts.until_le a.state) a.createdAt
  exact ⟨a, j, ha, hj, Nat.lt_of_lt_of_le hearly (Nat.le_trans hphased.deadline hbudget)⟩

/-- **The phases of every attempt.** In every reachable world:

- whatever transaction comes next, an attempt stays in its state or moves one
  step forward, evidence is written where there was none, and the deadline
  changes only on the way into `running` or `finalizing`; a new attempt starts
  in `assigned`, with nothing known;
- an accepted report or completion agrees with what is written, and a report
  that was seen before or names a phase already reached changes no attempt;
- later in the run, an attempt is where some steps forward lead, with the
  container and the exit code it had;
- an attempt acts only before its three timeouts have passed since it was
  assigned. -/
theorem attempt_phases {w : World} (h : Reachable sha w) :
    (∀ (op : Op) now s' reply, w.clock ≤ now → op.exec sha w.store now = .ok (s', reply) →
      (∀ id a, w.store.attempts.lookup id = some a →
        ∃ a', s'.attempts.lookup id = some a' ∧ a.Advances a') ∧
      (∀ id a', w.store.attempts.lookup id = none → s'.attempts.lookup id = some a' →
        a'.state = .assigned ∧ a'.containerID = none ∧ a'.exitCode = none ∧ a'.createdAt = now) ∧
      (∀ seen identity r result, op = .phase seen identity r → reply = .mutation result →
        (result.decision = .accepted → ∃ a',
          s'.attempts.lookup r.claims.authority.attemptID = some a' ∧ r.claims.Agrees a') ∧
        (w.store.phaseReports.lookup
            (identity.workerID, r.claims.authority.sessionID, r.eventID) ≠ none →
          s'.attempts = w.store.attempts) ∧
        (∀ a, w.store.attempts.lookup r.claims.authority.attemptID = some a →
          Relation.ReflTransGen AttemptState.Follows r.claims.phase a.state →
          s'.attempts = w.store.attempts)) ∧
      (∀ completed identity r result, op = .complete completed identity r →
        reply = .completion result → result.decision = .accepted →
        ∃ a', s'.attempts.lookup r.authority.attemptID = some a' ∧ a'.exitCode = r.exitCode)) ∧
    (∀ w', World.Later sha w w' → ∀ id a, w.store.attempts.lookup id = some a →
      ∃ a', w'.store.attempts.lookup id = some a' ∧
        Relation.ReflTransGen AttemptState.Follows a.state a'.state ∧
        (∀ c, a.containerID = some c → a'.containerID = some c) ∧
        (∀ e, a.exitCode = some e → a'.exitCode = some e) ∧ a'.createdAt = a.createdAt) ∧
    (∀ now authority, Authorized w.store now authority →
      ∃ a j, w.store.attempts.lookup authority.attemptID = some a ∧
        w.store.jobs.lookup a.job = some j ∧
        now < a.createdAt + (seconds j.spec.spec.timeouts.startupSeconds +
          seconds j.spec.spec.timeouts.executionSeconds +
          seconds j.spec.spec.timeouts.finalizationSeconds)) := by
  refine ⟨fun op now s' reply hle hexec => ⟨fun id a ha => h.exec_advances hle hexec ha, ?_,
    ?_, ?_⟩, fun w' hlater id a ha => h.later_attempt hlater ha,
    fun now authority hauthorized => h.authorized_lt hauthorized⟩
  · intro id a' hnone ha'
    obtain ⟨observed, queueNow, identity, request, policy, job, j, host, p, -, -, -, rfl, -⟩ :=
      h.exec_assigned hle hexec hnone ha'
    exact ⟨rfl, rfl, rfl, rfl⟩
  · rintro seen identity r result rfl rfl
    simp only [Op.exec, bind_ok, pure_pair_ok, Reply.mutation.injEq] at hexec
    obtain ⟨⟨t, _⟩, hreport, rfl, rfl⟩ := hexec
    refine ⟨h.report_agrees hreport, fun hseen => ?_, fun a ha => reportPhase_reached hreport ha⟩
    obtain hsame | ⟨a, j, deadline, haccepted, -, -⟩ := reportPhase_attempts hreport
    · exact hsame
    · exact absurd haccepted.first hseen
  · rintro completed identity r result rfl rfl
    exact h.completion_agrees hle hexec

/-- Attempt 1 is finalizing; it was assigned less than its three timeouts
ago. -/
theorem sample_phases : ∃ (w : World) (a : AttemptRow) (j : JobRow),
    Reachable Sample.sha w ∧ Authorized w.store second ⟨1, 1, 1, 1, 1⟩ ∧
    w.store.attempts.lookup 1 = some a ∧ a.state = .finalizing ∧
    w.store.jobs.lookup a.job = some j ∧
    second < a.createdAt + (seconds j.spec.spec.timeouts.startupSeconds +
      seconds j.spec.spec.timeouts.executionSeconds +
      seconds j.spec.spec.timeouts.finalizationSeconds) := by
  obtain ⟨w, hw, hp⟩ := Sample.reaches Sample.assigned_reachable Sample.finalized (fun w =>
    (w.store.attempts.lookup 1).any (fun a : AttemptRow => decide (a.state = .finalizing) &&
      (w.store.jobs.lookup a.job).any (fun j : JobRow =>
        decide (leaseDecision ⟨1, 1, 1, 1, 1⟩ j.lease (some (a.lease 1)) second = .accepted))))
    (by decide +kernel)
  simp only [Option.any_eq_true, Bool.and_eq_true, decide_eq_true_eq] at hp
  obtain ⟨a, ha, hstate, j, hj, hdecision⟩ := hp
  have hauthorized : Authorized w.store second ⟨1, 1, 1, 1, 1⟩ := ⟨a, j, ha, hj, hdecision⟩
  obtain ⟨a', j', ha', hj', hlt⟩ := (attempt_phases hw).2.2 second _ hauthorized
  obtain rfl := Option.mem_unique ha ha'
  exact ⟨w, a, j', hw, hauthorized, ha, hstate, hj', hlt⟩

end Dispatch
