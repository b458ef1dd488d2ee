import Dispatch.Lib.Rotation
import Dispatch.Scheduling.Queue

/-!
# The rotation over projects

The selection ranks what a worker could start by the turn of its project after
the cursor, then by priority and age (`Candidate.key`), and takes the first. The
cursor is moved by the transaction that commits an assignment and by no other,
so whatever was refused, repeated or rolled back in between, the projects that
are served one after the other form one rotation: while a project could be
served and is not, each project that is served instead is nearer to it than
the one before.
-/

namespace Dispatch

open Txn Rotation

variable {w : AcquisitionWorker} {j : JobRow} {job worker attempt : Uuid}

variable {sha : Uuid → ℕ} {s s' : Store} {op : Op} {now : Time}

/-! ## Eligible jobs -/

/-- **A job the worker could start.** -/
structure Eligible (s : Store) (worker : Uuid) (w : AcquisitionWorker) (now : Time) (id : Uuid)
    (j : JobRow) : Prop where
  waits : s.jobs.lookup id = some j
  queued : j.state.isQueued = true
  uncancelled : j.cancelRequested = false
  served : (s.workerProjects.lookup (worker, j.project)).isSome = true
  due : j.nextEligibleAt ≤ now
  placement : placementMatches w.row.labels j.spec.spec.placementLabels = true
  fits : j.resources.fits w.free = true
  slot : 1 ≤ w.slots
  quota : ∃ p, s.projects.lookup j.project = some p ∧ p.enabled = true ∧
    quotaAdmits s j.project p j.resources = true
  concurrency : sweepAdmits s j = true

theorem blockingReason_eq_none {p : ProjectRow} :
    blockingReason s w now j p = none ↔ p.enabled = true ∧ j.nextEligibleAt ≤ now ∧
      placementMatches w.row.labels j.spec.spec.placementLabels = true ∧
      j.resources.fits w.free = true ∧ 1 ≤ w.slots ∧
      quotaAdmits s j.project p j.resources = true ∧ sweepAdmits s j = true := by
  unfold blockingReason
  grind

/-- **The eligible jobs are the candidates nothing blocks.** -/
theorem eligible_iff {id : Uuid} :
    Eligible s worker w now id j ↔ ∃ c ∈ candidates s worker w now,
      c.visible = true ∧ c.blocked = none ∧ c.id = id ∧ c.job = j := by
  constructor
  · intro h
    obtain ⟨p, hp, henabled, hquota⟩ := h.quota
    refine ⟨⟨id, j, p.enabled && decide (j.nextEligibleAt ≤ now), blockingReason s w now j p⟩,
      List.mem_filterMap.mpr ⟨(id, j), (Table.mem_select ..).mpr ⟨h.waits, ?_⟩, by simp [hp]⟩,
      by simp [henabled, h.due], ?_, rfl, rfl⟩
    · simp [h.queued, h.uncancelled, h.served]
    · exact blockingReason_eq_none.mpr ⟨henabled, h.due, h.placement, h.fits, h.slot, hquota,
        h.concurrency⟩
  · rintro ⟨c, hc, -, hfree, rfl, rfl⟩
    obtain ⟨⟨id, j⟩, hselected, hc⟩ := List.mem_filterMap.mp hc
    obtain ⟨hj, hrow⟩ := (Table.mem_select _ _ _ _).mp hselected
    simp only [Bool.and_eq_true, Bool.not_eq_true'] at hrow
    simp only at hc
    split at hc
    · rename_i p hp
      obtain rfl := Option.some.inj hc
      obtain ⟨henabled, hdue, hplacement, hfits, hslot, hquota, hsweep⟩ :=
        blockingReason_eq_none.mp hfree
      exact ⟨hj, hrow.1.1, hrow.1.2, hrow.2, hdue, hplacement, hfits, hslot,
        ⟨p, hp, henabled, hquota⟩, hsweep⟩
    · exact (nomatch hc)

/-! ## The ranking -/

/-- **The place of a job**: the turn of its project, its priority, its age. -/
def JobRow.place (cursor : Option Uuid) (now : Time) (id : Uuid) (j : JobRow) :
    (Bool ×ₗ Uuid) ×ₗ ℤᵒᵈ ×ₗ Time ×ₗ Uuid :=
  toLex (turn cursor j.project,
    toLex (OrderDual.toDual (effectivePriority j now), toLex (j.createdAt, id)))

/-- The key of the ranking: what is blocked comes last. -/
def Candidate.key (cursor : Option Uuid) (now : Time) (c : Candidate) :
    Bool ×ₗ (Bool ×ₗ Uuid) ×ₗ ℤᵒᵈ ×ₗ Time ×ₗ Uuid :=
  toLex (c.blocked.isSome, c.job.place cursor now c.id)

theorem Candidate.before_iff {cursor : Option Uuid} {x y : Candidate} :
    x.before cursor now y = true ↔ x.key cursor now ≤ y.key cursor now := by
  simp only [Candidate.key, JobRow.place, turn, Prod.Lex.toLex_le_toLex, Prod.Lex.toLex_lt_toLex,
    OrderDual.toDual_lt_toDual, Prod.mk.injEq, EmbeddingLike.apply_eq_iff_eq, Bool.lt_iff]
  cases cursor with
  | none =>
    simp only [Candidate.before, Option.any_none, ← Option.not_isSome]
    split_ifs <;> grind
  | some p =>
    simp only [Candidate.before, Option.any_some, ← Option.not_isSome]
    split_ifs <;> grind

/-- The first of a sorted list comes before every other. -/
theorem head_key_le {cursor : Option Uuid} {cs : List Candidate} {c : Candidate}
    (h : (cs.insertionSort (fun x y => x.before cursor now y)).head? = some c) :
    c ∈ cs ∧ ∀ d ∈ cs, c.key cursor now ≤ d.key cursor now := by
  have : Std.Total (fun x y : Candidate => x.before cursor now y = true) :=
    ⟨fun x y => by simp only [Candidate.before_iff]; exact le_total _ _⟩
  have : IsTrans Candidate (fun x y => x.before cursor now y = true) :=
    ⟨fun x y z => by simp only [Candidate.before_iff]; exact le_trans⟩
  have hmem : ∀ d, d ∈ cs ↔ d ∈ cs.insertionSort (fun x y => x.before cursor now y) :=
    fun d => (List.perm_insertionSort _ cs).mem_iff.symm
  have hsorted := List.pairwise_insertionSort (fun x y => x.before cursor now y = true) cs
  obtain ⟨rest, hrest⟩ := List.head?_eq_some_iff.mp h
  refine ⟨(hmem c).mpr (List.mem_of_mem_head? h), fun d hd => ?_⟩
  rw [hrest] at hsorted
  have hd' := (hmem d).mp hd
  rw [hrest] at hd'
  obtain rfl | hd' := List.mem_cons.mp hd'
  · exact le_refl _
  · exact Candidate.before_iff.mp ((List.pairwise_cons.mp hsorted).1 d hd')

/-- **The choice of the scheduler is the eligible job in the first place.** -/
theorem selectAcquisitionCandidate_first
    (h : (selectAcquisitionCandidate s worker w now).job = some job)
    (hfree : (selectAcquisitionCandidate s worker w now).reason = none) :
    ∃ j, Eligible s worker w now job j ∧ ∀ id k, Eligible s worker w now id k →
      j.place s.projectCursor now job ≤ k.place s.projectCursor now id := by
  unfold selectAcquisitionCandidate at h hfree
  dsimp only at h hfree
  split at h
  · rename_i c hhead
    obtain rfl := Option.some.inj h
    rw [hhead] at hfree
    change c.blocked = none at hfree
    obtain ⟨hc, hfirst⟩ := head_key_le hhead
    obtain ⟨hc, hvisible⟩ := List.mem_filter.mp hc
    refine ⟨c.job, eligible_iff.mpr ⟨c, hc, hvisible, hfree, rfl, rfl⟩, fun id k hk => ?_⟩
    obtain ⟨d, hd, hdvisible, hdfree, rfl, rfl⟩ := eligible_iff.mp hk
    have hle := hfirst d (List.mem_filter.mpr ⟨hd, hdvisible⟩)
    rw [Candidate.key, Candidate.key, hfree, hdfree, Prod.Lex.toLex_le_toLex] at hle
    obtain hlt | ⟨-, hle⟩ := hle
    · exact absurd hlt (by simp)
    · exact hle
  · exact (nomatch h)

/-! ## Assignments -/

theorem recheckReason_selected {p : ProjectRow} {reason : Option NoWork}
    (h : recheckReason s w p j reason = none) : reason = none := by
  simp only [recheckReason] at h
  split_ifs at h
  exact h

/-- What was blocked when it was selected is not assigned. -/
theorem tryAssign_selected {request : AcquisitionRequest} {policy : AcquisitionPolicy}
    {selected reason : Option NoWork} {assignment : WorkAssignment}
    (h : tryAssign s now worker request policy attempt job selected
      = .ok (s', some assignment, reason)) : selected = none := by
  simp only [tryAssign, bind_ok] at h
  obtain ⟨j, -, _, -, w, -, p, -, _, -, h⟩ := h
  split at h
  · exact absurd (pure_ok.mp h) (by simp)
  · rename_i hreason
    split_ifs at hreason
    rw [Option.orElse_eq_orElse, Option.orElse_eq_or, Option.or_eq_none_iff] at hreason
    exact recheckReason_selected hreason.2

theorem assignJob_rotates {session : Uuid}
    (h : assignJob s now worker session attempt job j = .ok s') :
    s.attempts.lookup attempt = none ∧
      s'.attempts = AList.insert attempt (newAttempt now worker session job j) s.attempts ∧
      s'.projectCursor = some j.project := by
  simp only [assignJob, bind_ok, orThrow_ok] at h
  obtain ⟨attempts, hattempts, reservations, -, hlogged⟩ := h
  obtain ⟨hfree, rfl⟩ := Table.insertNew_eq_some hattempts
  exact ⟨hfree, (appendEvent_attempts hlogged).1,
    (appendEvent_writes hlogged .projectCursor (by decide) :)⟩

/-- **The job of a new attempt is the scheduler's choice**, and its project has
had its turn. -/
theorem acquireWork_selected {observed queueNow : Time} {id : WorkerIdentity}
    {request : AcquisitionRequest} {policy : AcquisitionPolicy} {result : AcquisitionResult}
    {a : AttemptRow}
    (h : acquireWork s observed queueNow now id request policy attempt = .ok (s', result))
    (hnone : s.attempts.lookup attempt = none) (ha : s'.attempts.lookup attempt = some a) :
    ∃ host j, readAcquisitionWorker s id.workerID request.sessionID = .ok host ∧
      Eligible s id.workerID host queueNow a.job j ∧
      (∀ id' k, Eligible s id.workerID host queueNow id' k →
        j.place s.projectCursor queueNow a.job ≤ k.place s.projectCursor queueNow id') ∧
      s'.projectCursor = some j.project := by
  simp only [acquireWork, bind_ok] at h
  obtain ⟨-, -, -, -, -, -, h⟩ := h
  have hgone : s'.attempts = s.attempts → False := fun hsame =>
    absurd (hnone.symm.trans (hsame ▸ ha)) (by simp)
  split at h
  · simp only [bind_ok, pure_pair_ok] at h
    obtain ⟨_, -, rfl, -⟩ := h
    exact (hgone rfl).elim
  · simp only [bind_ok, pure_pair_ok] at h
    obtain ⟨_, -, rfl, -⟩ := h
    exact (hgone rfl).elim
  simp only [bind_ok] at h
  obtain ⟨host, hhost, sampled, hblockers, h⟩ := h
  obtain ⟨blockers, sequence, rfl⟩ := recordQueueBlockers_eq_ok hblockers
  split at h
  · simp only [bind_ok, pure_pair_ok] at h
    obtain ⟨_, -, rfl, -⟩ := h
    exact (hgone rfl).elim
  rename_i job hjob
  simp only [bind_ok] at h
  obtain ⟨⟨assigned, assignment, reason⟩, htry, h⟩ := h
  obtain ⟨rfl, rfl⟩ | ⟨k, w, p, inputs, hassignable, -, hassigned, rfl⟩ := tryAssign_cases htry
  · obtain ⟨rfl, -⟩ := pure_pair_ok.mp h
    exact (hgone rfl).elim
  obtain ⟨rfl, -⟩ := pure_pair_ok.mp h
  have hselected := tryAssign_selected htry
  split at hjob
  · exact absurd hjob (by simp)
  · rename_i hready
    simp only [hready] at hselected
    obtain ⟨j, heligible, hfirst⟩ := selectAcquisitionCandidate_first hjob hselected
    obtain ⟨-, hattempts, hcursor⟩ := assignJob_rotates hassigned
    obtain rfl : k = j := Option.mem_unique hassignable.found heligible.waits
    have hrow : a = newAttempt now id.workerID request.sessionID job k := by
      rw [hattempts, AList.lookup_insert] at ha
      exact (Option.some.inj ha).symm
    exact ⟨host, k, hhost, hrow ▸ heligible, hrow ▸ hfirst, hcursor⟩

/-- **Only a new assignment moves the cursor.** -/
theorem Op.exec_cursor {reply : Reply} (h : op.exec sha s now = .ok (s', reply))
    (hidle : ∀ id, s.attempts.lookup id = none → s'.attempts.lookup id = none) :
    s'.projectCursor = s.projectCursor := by
  by_cases hop : ∃ observed queueNow identity request policy attempt,
      op = .acquire observed queueNow identity request policy attempt
  · obtain ⟨observed, queueNow, identity, request, policy, attempt, rfl⟩ := hop
    simp only [Op.exec, bind_ok, pure_pair_ok] at h
    obtain ⟨⟨t, result⟩, hacquire, rfl, -⟩ := h
    cases acquireWork_acquired hacquire with
    | replayed => rfl
    | repeated => rfl
    | refused blockers sequence reason hkey hnotes =>
      rfl
    | assigned blockers sequence assigned job j host p inputs hkey hnotes hassignable hinputs
          hassigned =>
      obtain ⟨hfree, hattempts, -⟩ := assignJob_rotates hassigned
      have hnone := hidle attempt hfree
      simp only [hattempts, AList.lookup_insert] at hnone
      exact absurd hnone (Option.some_ne_none _)
  · refine op.exec_writes h .projectCursor ?_
    cases op with
    | acquire observed queueNow identity request policy attempt =>
      exact absurd ⟨observed, queueNow, identity, request, policy, attempt, rfl⟩ hop
    | _ => simp only [Op.footprint]; decide

/-! ## Fairness -/

/-- The jobs an acquisition could assign. -/
def Op.Offers (op : Op) (s : Store) (id : Uuid) (j : JobRow) : Prop :=
  ∃ observed queueNow identity request policy attempt host,
    op = .acquire observed queueNow identity request policy attempt ∧
      readAcquisitionWorker s identity.workerID request.sessionID = .ok host ∧
      Eligible s identity.workerID host queueNow id j

/-- **A run that could always have served `p`**: the projects of its new
assignments, at each of which `p` had an eligible job. -/
inductive World.Serves (sha : Uuid → ℕ) (p : Uuid) : World → List Uuid → World → Prop where
  | start (w : World) : Serves sha p w [] w
  | other {w w' w'' : World} {served : List Uuid} (hrun : Serves sha p w served w')
      (hstep : w'.Step sha w'')
      (hidle : ∀ id, w'.store.attempts.lookup id = none → w''.store.attempts.lookup id = none) :
      Serves sha p w served w''
  | assign {w w' : World} {served : List Uuid} {op : Op} {now : Time} {s' : Store} {reply : Reply}
      {attempt : Uuid} {a : AttemptRow} {j : JobRow} (hrun : Serves sha p w served w')
      (hle : w'.clock ≤ now) (hexec : op.exec sha w'.store now = .ok (s', reply))
      (hnone : w'.store.attempts.lookup attempt = none) (ha : s'.attempts.lookup attempt = some a)
      (hj : w'.store.jobs.lookup a.job = some j)
      (hwaits : ∃ id k, op.Offers w'.store id k ∧ k.project = p) :
      Serves sha p w (served ++ [j.project]) ⟨s', now⟩

theorem World.Serves.later {p : Uuid} {w w' : World} {served : List Uuid}
    (h : World.Serves sha p w served w') : World.Later sha w w' := by
  induction h with
  | start => exact .refl
  | other hrun hstep hidle ih => exact ih.tail hstep
  | assign hrun hle hexec hnone ha hj hwaits ih => exact ih.tail ⟨hle, _, _, hexec⟩

/-- **Projects that pass `p` over come ever nearer to it.** -/
theorem Reachable.passed {w w' : World} (h : Reachable sha w) {p : Uuid} {served : List Uuid}
    (hrun : World.Serves sha p w served w') (hp : p ∉ served) :
    Passed p w'.store.projectCursor served := by
  induction hrun with
  | start => exact .start p _
  | other hrun hstep hidle ih =>
    obtain ⟨hle, op, reply, hexec⟩ := hstep
    rw [Op.exec_cursor hexec hidle]
    exact ih hp
  | assign hrun hle hexec hnone ha hj hwaits ih =>
    rw [List.mem_append, List.mem_singleton, not_or] at hp
    obtain ⟨id, k, ⟨observed, queueNow, identity, request, policy, drawn, host, rfl, hhost,
      heligible⟩, rfl⟩ := hwaits
    obtain ⟨_, _, _, _, _, _, _, _, _, hop, -⟩ :=
      (h.later hrun.later).exec_assigned hle hexec hnone ha
    obtain ⟨-, -, -, -, -, rfl⟩ := Op.acquire.inj hop
    simp only [Op.exec, bind_ok, pure_pair_ok] at hexec
    obtain ⟨⟨t, result⟩, hacquire, rfl, -⟩ := hexec
    obtain ⟨host', j', hhost', hchosen, hfirst, hcursor⟩ := acquireWork_selected hacquire hnone ha
    obtain rfl := Except.ok.inj (hhost.symm.trans hhost')
    obtain rfl := Option.mem_unique hj hchosen.waits
    -- The chosen job is in the first place, so its project has the turn.
    have hturn := Prod.Lex.monotone_fst_ofLex (hfirst id k heligible)
    rw [hcursor]
    exact (ih hp.1).serve (Ne.symm hp.2) hturn

/-- **The rotation is fair.** In every run from a reachable world:

- as long as `p` has an eligible job at every acquisition that assigns one, no
  other project is served twice before `p` is;
- the job that is assigned has, among the eligible jobs of its project, the
  highest effective priority, and of those with the same priority the earliest
  creation and then the least identifier;
- the cursor is moved by new assignments only, one for each. -/
theorem project_rotation {w : World} (h : Reachable sha w) :
    (∀ p served w', World.Serves sha p w served w' → p ∉ served → served.Nodup) ∧
    (∀ observed queueNow identity request policy attempt now s' reply a, w.clock ≤ now →
      Op.exec sha w.store now (.acquire observed queueNow identity request policy attempt)
        = .ok (s', reply) →
      w.store.attempts.lookup attempt = none → s'.attempts.lookup attempt = some a →
      ∃ host j, readAcquisitionWorker w.store identity.workerID request.sessionID = .ok host ∧
        Eligible w.store identity.workerID host queueNow a.job j ∧
        ∀ id k, Eligible w.store identity.workerID host queueNow id k → k.project = j.project →
          effectivePriority k queueNow ≤ effectivePriority j queueNow ∧
          (effectivePriority k queueNow = effectivePriority j queueNow →
            j.createdAt ≤ k.createdAt ∧ (j.createdAt = k.createdAt → a.job ≤ id))) ∧
    (∀ (op : Op) now s' reply, w.clock ≤ now → op.exec sha w.store now = .ok (s', reply) →
      ((∀ id, w.store.attempts.lookup id = none → s'.attempts.lookup id = none) →
        s'.projectCursor = w.store.projectCursor) ∧
      ∀ id id' a a', w.store.attempts.lookup id = none → s'.attempts.lookup id = some a →
        w.store.attempts.lookup id' = none → s'.attempts.lookup id' = some a' → id = id') := by
  refine ⟨fun p served w' hrun hp => (h.passed hrun hp).nodup, ?_, ?_⟩
  · intro observed queueNow identity request policy attempt now s' reply a hle hexec hnone ha
    simp only [Op.exec, bind_ok, pure_pair_ok] at hexec
    obtain ⟨⟨t, result⟩, hacquire, rfl, -⟩ := hexec
    obtain ⟨host, j, hhost, hchosen, hfirst, -⟩ := acquireWork_selected hacquire hnone ha
    refine ⟨host, j, hhost, hchosen, fun id k heligible hproject => ?_⟩
    have hplace := hfirst id k heligible
    simp only [JobRow.place, hproject, Prod.Lex.toLex_le_toLex, lt_irrefl, true_and, false_or,
      OrderDual.toDual_lt_toDual, EmbeddingLike.apply_eq_iff_eq] at hplace
    grind
  · intro op now s' reply hle hexec
    refine ⟨Op.exec_cursor hexec, fun id id' a a' hnone ha hnone' ha' => ?_⟩
    obtain ⟨_, _, _, _, _, _, _, _, _, rfl, -⟩ := h.exec_assigned hle hexec hnone ha
    obtain ⟨_, _, _, _, _, _, _, _, _, hop, -⟩ := h.exec_assigned hle hexec hnone' ha'
    exact (Op.acquire.inj hop).2.2.2.2.2

namespace Sample

/-- Three projects that share the worker, each with a job. -/
def shared : List (Time × Op) :=
  (second, .operate
    (AList.insert 3 ⟨"r", 4000, 4096, 4, true⟩ (AList.insert 2 ⟨"q", 4000, 4096, 4, true⟩
      (AList.insert 1 ⟨"p", 4000, 4096, 4, true⟩ ∅)))
    (AList.insert 1 ⟨1, false⟩ ∅)
    (AList.insert (1, 3) () (AList.insert (1, 2) () (AList.insert (1, 1) () ∅)))) ::
  seated 1 second ++ [(1, "p"), (2, "q"), (3, "r")].map (fun x => (second, Op.submitJob x.1 "k"
    (String.ofList (List.replicate 64 '0')) { Sample.job with metadata := ⟨"j", x.2, ∅⟩ } []))

/-- The acquisition of attempt `k`. -/
def turn (k : Uuid) : Op := .acquire second second identity ⟨1, k⟩ ⟨false⟩ k

/-- It assigns a job of project `k` while there is one of project 3 to assign. -/
def passes (k : Uuid) (s s' : Store) : Bool :=
  (s.attempts.lookup k).isNone &&
    (s'.attempts.lookup k).any (fun a : AttemptRow =>
      (s.jobs.lookup a.job).any (fun j : JobRow => decide (j.project = k))) &&
    (readAcquisitionWorker s 1 1).toOption.any (fun host =>
      (candidates s 1 host second).any (fun c => c.visible && c.blocked.isNone &&
        decide (c.job.project = 3)))

theorem serves_turn {k : Uuid} {w w' : World} {served : List Uuid} {reply : Reply}
    (hrun : World.Serves sha 3 w served w') (hle : w'.clock ≤ second)
    (hexec : (turn k).exec sha w'.store second = .ok (s', reply))
    (h : passes k w'.store s' = true) : World.Serves sha 3 w (served ++ [k]) ⟨s', second⟩ := by
  simp only [passes, Bool.and_eq_true, Option.isNone_iff_eq_none, Option.any_eq_true,
    List.any_eq_true, decide_eq_true_eq] at h
  obtain ⟨⟨hnone, a, ha, j, hj, rfl⟩, host, hhost, c, hc, ⟨hvisible, hfree⟩, hwaits⟩ := h
  exact .assign hrun hle hexec hnone ha hj ⟨c.id, c.job, ⟨second, second, identity, _, ⟨false⟩, _,
    host, rfl, toOption_eq_some.mp hhost, eligible_iff.mpr ⟨c, hc, hvisible, hfree, rfl, rfl⟩⟩,
    hwaits⟩

end Sample

/-- Projects 1 and 2 are served while project 3 waits, each once. -/
theorem sample_rotation : ∃ w w' : World, Reachable Sample.sha w ∧
    World.Serves Sample.sha 3 w [1, 2] w' ∧ [1, 2].Nodup := by
  obtain ⟨w, hw, hp⟩ := Sample.reaches Sample.world_reachable Sample.shared (fun w =>
    decide (w.clock ≤ second) &&
    ((Sample.turn 1).exec Sample.sha w.store second).toOption.any (fun x =>
      Sample.passes 1 w.store x.1 &&
      ((Sample.turn 2).exec Sample.sha x.1 second).toOption.any (fun y =>
        Sample.passes 2 x.1 y.1))) (by decide +kernel)
  simp only [Bool.and_eq_true, Option.any_eq_true, decide_eq_true_eq] at hp
  obtain ⟨hle, ⟨s₁, _⟩, hfirst, hpasses, ⟨s₂, _⟩, hsecond, hpasses'⟩ := hp
  have hserved := Sample.serves_turn (.start w) hle (toOption_eq_some.mp hfirst) hpasses
  have hserved' := Sample.serves_turn hserved (Nat.le_refl second) (toOption_eq_some.mp hsecond)
    hpasses'
  exact ⟨w, _, hw, hserved', (project_rotation hw).1 3 [1, 2] _ hserved' (by decide)⟩

end Dispatch
