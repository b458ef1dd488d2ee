import Dispatch.Outcome.Chronicle
import Dispatch.Spec.Decoding
import Dispatch.Scheduling.Observations

/-!
# The queue

An acquisition decodes the job it has selected, and a job it could not decode,
bind or start would fail the transaction, be left where it is in the queue and
be selected again by the next one. No such job is ever admitted: whatever the
scheduler assumes of a queued job was checked when the job was submitted, by
itself, as a child of a sweep or as the retry of one, and stays true while the
job waits.
-/

namespace Dispatch

open Txn

variable {job worker attempt session : Uuid} {j : JobRow} {w : AcquisitionWorker}
  {request : AcquisitionRequest} {policy : AcquisitionPolicy}

variable {sha : Uuid → ℕ} {now : Time} {s : Store}

/-! ## Inputs -/

/-- The rows of a job's inputs, by position. -/
def inputRows (s : Store) (project job : Uuid) : List (ℕ × JobInputRow) :=
  ((s.jobInputs.select (fun k r => decide (k.1 = job) && decide (r.project = project))).map
    (fun x => (x.1.2, x.2))).insertionSort (fun x y => x.1 ≤ y.1)

/-- What one row of a job's inputs binds. -/
def inputBinding (s : Store) (project : Uuid) (x : ℕ × JobInputRow) :
    Option (ℕ × JobInputBinding) :=
  match s.datasets.lookup x.2.dataset with
  | some d =>
    if d.project = project then
      some (x.1, ⟨⟨x.2.dataset, d.name, d.object, d.manifest⟩, x.2.mountPath⟩)
    else none
  | none => none

/-- The checks on the bindings of a job's inputs. -/
def checkBindings (project job : Uuid) (expected : List Input)
    (bindings : List (ℕ × JobInputBinding)) : Except StoreError (List JobInputBinding) := do
  require (canonicalUUID project ∧ canonicalUUID job ∧ expected.length ≤ 64) .invalid
  require (bindings.map Prod.fst = List.range bindings.length ∧ bindings.length ≤ expected.length ∧
    ∀ b ∈ bindings, ∃ i ∈ expected[b.1]?, b.2.dataset.name = i.dataset ∧
      b.2.mountPath = i.mountPath ∧
      b.2.dataset.manifest.validate b.2.dataset.object.sizeBytes = true) .invalid
  require (bindings.length = expected.length) .notFound
  pure (bindings.map Prod.snd)

theorem loadJobInputs_eq (s : Store) (project job : Uuid) (expected : List Input) :
    loadJobInputs s project job expected = checkBindings project job expected
      ((inputRows s project job).filterMap (inputBinding s project)) :=
  rfl

/-- A row of a job's inputs is a row of the table. -/
theorem mem_inputRows {project : Uuid} {x : ℕ × JobInputRow} :
    x ∈ inputRows s project job ↔
      s.jobInputs.lookup (job, x.1) = some x.2 ∧ x.2.project = project := by
  rw [inputRows, List.mem_insertionSort, List.mem_map]
  constructor
  · rintro ⟨⟨⟨k, i⟩, r⟩, hchosen, rfl⟩
    obtain ⟨hr, hmine⟩ := (Table.mem_select _ _ _ _).mp hchosen
    simp only [Bool.and_eq_true, decide_eq_true_eq] at hmine
    exact ⟨hmine.1 ▸ hr, hmine.2⟩
  · rintro ⟨hr, rfl⟩
    exact ⟨((job, x.1), x.2), (Table.mem_select _ _ _ _).mpr ⟨hr, by simp⟩, rfl⟩

/-- The rows of a job's inputs are its positions in order. -/
theorem inputRows_positions (hbound : s.toLedger.Bound job j) :
    (inputRows s j.project job).map Prod.fst = List.range j.spec.spec.inputs.length := by
  have hsorted := List.pairwise_insertionSort (fun x y : ℕ × JobInputRow => x.1 ≤ y.1)
    ((s.jobInputs.select (fun k r => decide (k.1 = job) && decide (r.project = j.project))).map
      (fun x => (x.1.2, x.2)))
  have hnodup : ((inputRows s j.project job).map Prod.fst).Nodup := by
    have hselected := Table.nodup_select_keys s.jobInputs
      (fun k r => decide (k.1 = job) && decide (r.project = j.project))
    rw [inputRows, ((List.perm_insertionSort ..).map Prod.fst).nodup_iff, List.map_map]
    refine (List.nodup_map_iff_inj_on (List.Nodup.of_map _ hselected)).mpr fun x hx y hy hxy => ?_
    have hkeys : x.1.1 = job ∧ y.1.1 = job := by
      have hx := ((Table.mem_select _ _ _ _).mp hx).2
      have hy := ((Table.mem_select _ _ _ _).mp hy).2
      simp only [Bool.and_eq_true, decide_eq_true_eq] at hx hy
      exact ⟨hx.1, hy.1⟩
    exact List.inj_on_of_nodup_map hselected hx hy
      (Prod.ext (hkeys.1.trans hkeys.2.symm) hxy)
  refine List.Perm.eq_of_pairwise' (r := (· ≤ ·)) (hsorted.map _ fun _ _ h => h)
    (List.pairwise_lt_range.imp le_of_lt)
    ((List.perm_ext_iff_of_nodup hnodup List.nodup_range).mpr fun i => ?_)
  rw [List.mem_range, List.mem_map]
  constructor
  · rintro ⟨x, hx, rfl⟩
    exact hbound.only x.1 x.2 (mem_inputRows.mp hx).1
  · intro hi
    obtain ⟨r, d, hr, hproject, -⟩ := hbound.rows i _ (List.getElem?_eq_getElem hi)
    exact ⟨(i, r), mem_inputRows.mpr ⟨hr, hproject⟩, rfl⟩

/-- **A row finds its dataset**, and the dataset is the one the document
names. -/
theorem inputBinding_found (hbound : s.toLedger.Bound job j) {x : ℕ × JobInputRow}
    (hx : x ∈ inputRows s j.project job) :
    ∃ d input, s.datasets.lookup x.2.dataset = some d ∧
      j.spec.spec.inputs[x.1]? = some input ∧ d.name = input.dataset ∧
      x.2.mountPath = input.mountPath ∧ inputBinding s j.project x
        = some (x.1, ⟨⟨x.2.dataset, d.name, d.object, d.manifest⟩, x.2.mountPath⟩) := by
  obtain ⟨hr, -⟩ := mem_inputRows.mp hx
  have hi := hbound.only x.1 x.2 hr
  obtain ⟨r, d, hr', -, hmount, hd, hown, hname⟩ :=
    hbound.rows x.1 _ (List.getElem?_eq_getElem hi)
  obtain rfl := Option.mem_unique hr hr'
  have hdataset : s.datasets.lookup x.2.dataset = some d := hd
  refine ⟨d, _, hd, List.getElem?_eq_getElem hi, hname, hmount, ?_⟩
  rw [inputBinding, hdataset]
  exact if_pos hown

/-- **The inputs of an admitted job are found.** -/
theorem loadJobInputs_total (hbound : s.toLedger.Bound job j) (hnamed : s.toLedger.Named)
    (hid : job ≠ 0) (hproject : j.project ≠ 0) (hlength : j.spec.spec.inputs.length ≤ 64) :
    ∃ inputs, loadJobInputs s j.project job j.spec.spec.inputs = .ok inputs := by
  rw [loadJobInputs_eq]
  set bindings := (inputRows s j.project job).filterMap (inputBinding s j.project) with hbindings
  have hfst : bindings.map Prod.fst = List.range j.spec.spec.inputs.length := by
    rw [← inputRows_positions hbound, hbindings, List.map_filterMap, ← List.filterMap_eq_map]
    refine List.filterMap_congr fun x hx => ?_
    obtain ⟨d, input, -, -, -, -, hbinds⟩ := inputBinding_found hbound hx
    rw [hbinds]
    rfl
  have hcount : bindings.length = j.spec.spec.inputs.length := by
    rw [← List.length_map Prod.fst, hfst, List.length_range]
  refine ⟨bindings.map Prod.snd, ?_⟩
  simp only [checkBindings, bind_ok, require_ok, pure_ok]
  refine ⟨(), ⟨decide_eq_true hproject, decide_eq_true hid, hlength⟩, (), ⟨?_, hcount.le, ?_⟩, (),
    hcount, trivial⟩
  · exact hfst.trans (congrArg List.range hcount.symm)
  · intro b hb
    obtain ⟨x, hx, hb⟩ := List.mem_filterMap.mp hb
    obtain ⟨d, input, hd, hinput, hname, hmount, hbinds⟩ := inputBinding_found hbound hx
    obtain rfl := Option.mem_unique hb hbinds
    exact ⟨input, hinput, hname, hmount, hnamed.datasets _ d hd⟩

/-! ## Candidates -/

/-- What a candidate is. -/
theorem mem_candidates {c : Candidate} (hc : c ∈ candidates s worker w now) :
    s.jobs.lookup c.id = some c.job ∧ c.job.state.isQueued = true ∧ c.job.cancelRequested = false ∧
      ∃ p, s.projects.lookup c.job.project = some p ∧ c.blocked = blockingReason s w now c.job p ∧
        c.visible = (p.enabled && decide (c.job.nextEligibleAt ≤ now)) := by
  obtain ⟨⟨id, j⟩, hselected, hc⟩ := List.mem_filterMap.mp hc
  obtain ⟨hj, hrow⟩ := (Table.mem_select _ _ _ _).mp hselected
  simp only [Bool.and_eq_true, Bool.not_eq_true'] at hrow
  simp only at hc
  split at hc
  · rename_i p hp
    obtain rfl := Option.some.inj hc
    exact ⟨hj, hrow.1.1, hrow.1.2, p, hp, rfl, rfl⟩
  · exact (nomatch hc)

/-- What blocks a job is a reason an observation may carry. -/
theorem blockingReason_observable {p : ProjectRow} {reason : NoWork}
    (h : blockingReason s w now j p = some reason) : reason ≠ .workerNotReady ∧ reason ≠ .queueEmpty
    := by
  unfold blockingReason at h
  split_ifs at h <;> obtain rfl := Option.some.inj h <;> simp

/-- Only blocked candidates are observed. -/
theorem mem_sampledBlockers {cs : List Candidate} {b : Uuid × NoWork}
    (hb : b ∈ sampledBlockers s cs now) : ∃ c ∈ cs, c.id = b.1 ∧ c.blocked = some b.2 := by
  obtain ⟨x, hx, rfl⟩ := List.mem_map.mp ((List.perm_insertionSort ..).mem_iff.mp hb)
  have hdue := (List.perm_insertionSort ..).mem_iff.mp (List.mem_of_mem_take hx)
  obtain ⟨c, hc, hsome⟩ := List.mem_filterMap.mp hdue
  obtain ⟨reason, hreason, hsome⟩ := Option.bind_eq_some_iff.mp hsome
  refine ⟨c, hc, ?_⟩
  split at hsome
  · obtain rfl := Option.some.inj hsome
    exact ⟨rfl, hreason⟩
  · split_ifs at hsome
    obtain rfl := Option.some.inj hsome
    exact ⟨rfl, hreason⟩

theorem selectAcquisitionCandidate_blockers :
    (selectAcquisitionCandidate s worker w now).blockers
      = sampledBlockers s (candidates s worker w now) now := by
  unfold selectAcquisitionCandidate
  dsimp only
  split <;> rfl

/-- A job is selected among the visible candidates, with what blocks it. -/
theorem selectAcquisitionCandidate_job
    (h : (selectAcquisitionCandidate s worker w now).job = some job) :
    ∃ c ∈ candidates s worker w now, c.id = job ∧ c.visible = true ∧
      (selectAcquisitionCandidate s worker w now).reason = c.blocked := by
  unfold selectAcquisitionCandidate at h ⊢
  dsimp only at h ⊢
  split at h
  · rename_i c hhead
    have hc := (List.perm_insertionSort ..).mem_iff.mp (List.mem_of_mem_head? hhead)
    exact ⟨c, (List.mem_filter.mp hc).1, Option.some.inj h, (List.mem_filter.mp hc).2, rfl⟩
  · exact (nomatch h)

/-- **An observation that agrees with those before it goes through.** -/
theorem recordQueueBlocker_total {observedAt : Time} {reason : NoWork} (hjob : job ≠ 0)
    (hworker : worker ≠ 0) (hsession : request.sessionID ≠ 0) (hrequest : request.requestID ≠ 0)
    (htime : observedAt ≠ 0) (hreason : reason ≠ .workerNotReady ∧ reason ≠ .queueEmpty)
    (hj : s.jobs.lookup job = some j) (hqueued : j.state.isQueued = true)
    (huncancelled : j.cancelRequested = false)
    (hagrees : ∀ k b, s.blockers.lookup k = some b → k.1 = job →
      b.key = (worker, request.sessionID, request.requestID) → b.reason = reason) :
    ∃ t, recordQueueBlocker s worker request observedAt (job, reason) = .ok t := by
  cases hsaved : s.blockers.select (fun k b => decide (k.1 = job) && decide (b.worker = worker) &&
      decide (b.session = request.sessionID) && decide (b.request = request.requestID)) with
  | nil =>
    refine ⟨{ s with
      blockers := AList.insert (job, blockerSlot s job) ⟨s.blockerSequence + 1, worker,
        request.sessionID, request.requestID, j.attemptCounter, reason, observedAt⟩ s.blockers
      blockerSequence := s.blockerSequence + 1 }, ?_⟩
    simp only [recordQueueBlocker, bind_ok, require_ok, hsaved, hj, orThrow_ok]
    exact ⟨(), ⟨decide_eq_true hjob, decide_eq_true hworker, decide_eq_true hsession,
      decide_eq_true hrequest, hreason.1, hreason.2, htime⟩, j, rfl, (),
      ⟨hqueued, huncancelled⟩, rfl⟩
  | cons x rest =>
    obtain ⟨k, saved⟩ := x
    have hmem : (k, saved) ∈ s.blockers.select (fun k b => decide (k.1 = job) &&
        decide (b.worker = worker) && decide (b.session = request.sessionID) &&
        decide (b.request = request.requestID)) := hsaved ▸ List.mem_cons_self
    obtain ⟨hrow, hkey⟩ := (Table.mem_select _ _ _ _).mp hmem
    simp only [Bool.and_eq_true, decide_eq_true_eq] at hkey
    obtain ⟨⟨⟨hk, rfl⟩, hs⟩, hr⟩ := hkey
    have hsame : saved.reason = reason :=
      hagrees k saved hrow hk (by rw [BlockerRow.key, hs, hr])
    refine ⟨s, ?_⟩
    simp only [recordQueueBlocker, bind_ok, require_ok, hsaved]
    exact ⟨(), ⟨decide_eq_true hjob, decide_eq_true hworker, decide_eq_true hsession,
      decide_eq_true hrequest, hreason.1, hreason.2, htime⟩, (), hsame, rfl⟩

/-- **The observations of a first request go through.** -/
theorem recordQueueBlockers_total {observedAt : Time} (hnamed : s.toLedger.Named)
    (hworker : worker ≠ 0) (hsession : request.sessionID ≠ 0) (hrequest : request.requestID ≠ 0)
    (htime : observedAt ≠ 0) (hnew : ∀ k b, s.blockers.lookup k = some b →
      b.key ≠ (worker, request.sessionID, request.requestID)) :
    ∃ t, (sampledBlockers s (candidates s worker w observedAt) observedAt).foldlM
        (fun s b => recordQueueBlocker s worker request observedAt b) s = .ok t ∧
      ∃ blockers sequence, t = s.observing blockers sequence := by
  -- A job is observed for one reason, however often its turn comes.
  have hturns : ∃ t, (sampledBlockers s (candidates s worker w observedAt) observedAt).foldlM
        (fun s b => recordQueueBlocker s worker request observedAt b) s = .ok t ∧
      (∃ blockers sequence, t = s.observing blockers sequence) ∧
      ∀ k b, t.blockers.lookup k = some b →
        b.key = (worker, request.sessionID, request.requestID) →
        ∃ c ∈ candidates s worker w observedAt, c.id = k.1 ∧ c.blocked = some b.reason := by
    refine foldlM_total (fun t => (∃ blockers sequence, t = s.observing blockers sequence) ∧
      ∀ k b, t.blockers.lookup k = some b →
        b.key = (worker, request.sessionID, request.requestID) →
        ∃ c ∈ candidates s worker w observedAt, c.id = k.1 ∧ c.blocked = some b.reason)
      ⟨⟨s.blockers, s.blockerSequence, rfl⟩, fun k b hb hkey => absurd hkey (hnew k b hb)⟩ ?_
    rintro t ⟨job, reason⟩ hmem ⟨⟨blockers, sequence, rfl⟩, hnotes⟩
    obtain ⟨c, hc, rfl, hreason⟩ := mem_sampledBlockers hmem
    obtain ⟨hj, hqueued, huncancelled, p, hp, hblocked, -⟩ := mem_candidates hc
    have hobservable := blockingReason_observable (hblocked ▸ hreason)
    have hid : c.id ≠ 0 := (hnamed.jobs c.id _ (Store.toLedger_job hj)).1
    have hok : ∃ t', recordQueueBlocker (s.observing blockers sequence) worker request observedAt
        (c.id, reason) = .ok t' := by
      refine recordQueueBlocker_total hid hworker hsession hrequest htime hobservable hj hqueued
        huncancelled fun k b hb hk hkey => ?_
      obtain ⟨c', hc', hid', hreason'⟩ := hnotes k b hb hkey
      obtain ⟨hj', -, -, p', hp', hblocked', -⟩ := mem_candidates hc'
      -- The same job, so the same candidate.
      rw [hid', hk, hj] at hj'
      rw [← Option.some.inj hj', hp] at hp'
      rw [← Option.some.inj hj', ← Option.some.inj hp', ← hblocked, hreason] at hblocked'
      exact Option.some.inj (hreason'.symm.trans hblocked')
    obtain ⟨t', ht'⟩ := hok
    obtain ⟨blockers', sequence', rfl⟩ := recordQueueBlocker_eq_ok ht'
    refine ⟨_, ht', ⟨blockers', sequence', rfl⟩, fun k b hb hkey => ?_⟩
    obtain hold | ⟨-, hk, hb⟩ := recordQueueBlocker_lookup ht' hb
    · exact hnotes k b hold hkey
    · exact ⟨c, hc, hk.symm, hb ▸ hreason⟩
  obtain ⟨t, ht, hobserving, -⟩ := hturns
  exact ⟨t, ht, hobserving⟩

/-! ## Assignment -/

/-- **What the scheduler assumes of a job it has selected.** -/
structure Store.Startable (s : Store) (attempt job : Uuid) (j : JobRow) : Prop where
  found : s.jobs.lookup job = some j
  valid : j.spec.isValid = true
  project : ∃ p, s.projects.lookup j.project = some p
  sweep : ∀ x ∈ j.sweep, (s.sweeps.lookup x.1).isSome = true
  budget : (j.attemptCounter : ℤ) < j.spec.spec.retry.maxAttempts
  pinned : pinnedImage j.spec.spec.image = true
  hashed : j.spec.canonical = j.specHash
  inputs : ∃ inputs, loadJobInputs s j.project job j.spec.spec.inputs = .ok inputs
  newAttempt : s.attempts.lookup attempt = none
  newReservation : s.reservations.lookup attempt = none
  newEvent : s.events.lookup (job, j.eventSequence + 1) = none

theorem assignJob_total (h : s.Startable attempt job j) :
    ∃ t, assignJob s now worker session attempt job j = .ok t := by
  simp only [assignJob, Table.insertNew_of_free _ h.newAttempt,
    Table.insertNew_of_free _ h.newReservation, orThrow_some, ok_bind]
  refine Store.appendEvent_total (j := { j with
    state := .active
    currentAttempt := some attempt
    attemptCounter := j.attemptCounter + 1 }) ?_ h.newEvent
  rw [Table.lookup_modify, if_pos rfl, h.found, Option.map_some]

theorem tryAssign_total {selected : Option NoWork} (h : s.Startable attempt job j)
    (hhost : readAcquisitionWorker s worker request.sessionID = .ok w) :
    ∃ r, tryAssign s now worker request policy attempt job selected = .ok r := by
  obtain ⟨p, hp⟩ := h.project
  obtain ⟨inputs, hinputs⟩ := h.inputs
  obtain ⟨t, ht⟩ : ∃ t, assignJob s now worker request.sessionID attempt job j = .ok t :=
    assignJob_total h
  simp only [tryAssign, h.found, hp, hhost, orThrow_some, ok_bind, require_of h.valid,
    require_of h.sweep]
  split
  · exact ⟨_, rfl⟩
  · simp only [require_of h.hashed, require_of (And.intro h.budget h.pinned), hinputs, ht, ok_bind]
    exact ⟨_, rfl⟩

/-- Observations do not make a job harder to start. -/
theorem Store.Startable.observing (h : s.Startable attempt job j)
    (blockers : Table (Uuid × ℕ) BlockerRow) (sequence : ℕ) :
    (s.observing blockers sequence).Startable attempt job j :=
  ⟨h.found, h.valid, h.project, h.sweep, h.budget, h.pinned, h.hashed, h.inputs, h.newAttempt,
    h.newReservation, h.newEvent⟩

theorem readAcquisitionWorker_total (h : isCurrentSession s worker session = true) :
    ∃ w, readAcquisitionWorker s worker session = .ok w := by
  obtain ⟨w, ss, hw, -⟩ := isCurrentSession_iff.mp h
  simp only [readAcquisitionWorker, hw, orThrow_some, ok_bind, require_of h]
  exact ⟨_, rfl⟩

/-- The document of a stored job names at most 64 inputs, and they are found. -/
theorem Reachable.inputs_total {w : World} (h : Reachable sha w)
    (hj : w.store.jobs.lookup job = some j) :
    ∃ inputs, loadJobInputs w.store j.project job j.spec.spec.inputs = .ok inputs := by
  have hsound := h.ledger_sound
  have hrow := Store.toLedger_job hj
  have hnamed := hsound.named.jobs job _ hrow
  have hvalid := Job.isValid_iff.mp (hsound.furnished.documents job _ hrow).valid
  simp only [Job.validate, bind_ok, require_ok] at hvalid
  obtain ⟨_, -, _, -, _, -, _, -, _, -, _, -, _, -, _, -, _, -, _, -, _, -, _, -, _, -, _, hlengths,
    -⟩ := hvalid
  exact (loadJobInputs_total (hsound.furnished.bound job _ hrow) hsound.named hnamed.1 hnamed.2
    hlengths.1 :)

/-- **A queued job can be started**, in every state a run reaches. -/
theorem Reachable.startable {w : World} (h : Reachable sha w) {p : ProjectRow}
    (hj : w.store.jobs.lookup job = some j) (hqueued : j.state.isQueued = true)
    (hp : w.store.projects.lookup j.project = some p)
    (hattempt : w.store.attempts.lookup attempt = none) : w.store.Startable attempt job j := by
  have hsound := h.ledger_sound
  have hrow := Store.toLedger_job hj
  have hdocument := hsound.furnished.documents job _ hrow
  exact {
    found := hj
    valid := hdocument.valid
    project := ⟨p, hp⟩
    sweep := fun x hx => Option.isSome_iff_ne_none.mpr (hsound.keyed.sweep job _ hrow x hx)
    budget := (hsound.jobs job _ hrow).queued hqueued
    pinned := hdocument.pinned
    hashed := hdocument.hashed
    inputs := h.inputs_total hj
    newAttempt := hattempt
    newReservation := by
      have hheld := hsound.keyed.held attempt
      rw [show w.store.toLedger.attempts.lookup attempt = none from hattempt, Option.map_none,
        eq_comm, Option.map_eq_none_iff] at hheld
      exact hheld
    newEvent := h.chronicled.unwritten hj (Nat.lt_succ_self _) }

/-- An answer with an attempt can be given again, in every state a run
reaches. -/
theorem Reachable.replay_total {w : World} (h : Reachable sha w) {request saved : Uuid}
    (hcurrent : isCurrentSession w.store worker session = true)
    (hsaved : w.store.workerRequests.lookup (worker, session, request) = some ⟨.inl saved⟩) :
    ∃ result, replayAssignment w.store now worker session saved = .ok result := by
  have hsound := h.ledger_sound
  obtain ⟨a, ha, hworker, hsession⟩ := hsound.answered _ _ hsaved
  obtain ⟨k, hk⟩ := Option.ne_none_iff_exists'.mp (hsound.keyed.job saved a ha)
  obtain ⟨j, hj, -⟩ := Store.job_of_toLedger hk
  obtain ⟨host, hhost⟩ := readAcquisitionWorker_total hcurrent
  obtain ⟨inputs, hinputs⟩ := h.inputs_total hj
  have hdocument := hsound.furnished.documents a.job _ (Store.toLedger_job hj)
  have hattempt : w.store.attempts.lookup saved = some a := ha
  have hdecodes : j.spec.isValid = true ∧ j.spec.canonical = j.specHash :=
    ⟨hdocument.valid, hdocument.hashed⟩
  have hmine : a.worker = worker ∧ a.session = session := ⟨hworker, hsession⟩
  simp only [replayAssignment, hattempt, hj, hhost, hinputs, orThrow_some, ok_bind,
    require_of hmine, require_of hdecodes]
  split_ifs <;> exact ⟨_, rfl⟩

/-- **A request that was answered is answered again**, and nothing changes. -/
theorem Reachable.acquire_recorded {w : World} (h : Reachable sha w) {observed queueNow : Time}
    {identity : WorkerIdentity} (hworker : identity.workerID ≠ 0)
    (hcredential : identity.credentialID ≠ 0) (hsession : request.sessionID ≠ 0)
    (hrequest : request.requestID ≠ 0) (hauthorized : authorizeWorkerTx w.store identity = .ok ())
    (hcurrent : isCurrentSession w.store identity.workerID request.sessionID = true)
    (hkey : w.store.workerRequests.lookup
      (identity.workerID, request.sessionID, request.requestID) ≠ none) :
    ∃ result, acquireWork w.store observed queueNow now identity request policy attempt
      = .ok (w.store, result) := by
  have hidentity : canonicalUUID identity.workerID = true ∧
      canonicalUUID identity.credentialID = true :=
    ⟨decide_eq_true hworker, decide_eq_true hcredential⟩
  have hids : canonicalUUID request.sessionID = true ∧ canonicalUUID request.requestID = true :=
    ⟨decide_eq_true hsession, decide_eq_true hrequest⟩
  obtain ⟨host, hhost⟩ := readAcquisitionWorker_total hcurrent
  obtain ⟨⟨saved | reason⟩, hrow⟩ := Option.ne_none_iff_exists'.mp hkey
  · obtain ⟨result, hresult⟩ : ∃ result, replayAssignment w.store now identity.workerID
        request.sessionID saved = .ok result := h.replay_total hcurrent hrow
    simp only [acquireWork, require_of hidentity, require_of hids, hauthorized, hrow, hresult,
      ok_bind]
    exact ⟨_, rfl⟩
  · simp only [acquireWork, require_of hidentity, require_of hids, hauthorized, hrow, hhost,
      ok_bind]
    exact ⟨_, rfl⟩

/-- **An acquisition by the current session of an authorised worker goes
through**, with work or without. -/
theorem Reachable.acquire_total {w : World} (h : Reachable sha w) {observed queueNow : Time}
    {identity : WorkerIdentity} (hworker : identity.workerID ≠ 0)
    (hcredential : identity.credentialID ≠ 0) (hsession : request.sessionID ≠ 0)
    (hrequest : request.requestID ≠ 0) (htime : queueNow ≠ 0)
    (hauthorized : authorizeWorkerTx w.store identity = .ok ())
    (hcurrent : isCurrentSession w.store identity.workerID request.sessionID = true)
    (hattempt : w.store.attempts.lookup attempt = none) :
    ∃ s' result, acquireWork w.store observed queueNow now identity request policy attempt
      = .ok (s', result) := by
  have hidentity : canonicalUUID identity.workerID = true ∧
      canonicalUUID identity.credentialID = true :=
    ⟨decide_eq_true hworker, decide_eq_true hcredential⟩
  have hids : canonicalUUID request.sessionID = true ∧ canonicalUUID request.requestID = true :=
    ⟨decide_eq_true hsession, decide_eq_true hrequest⟩
  obtain ⟨host, hhost⟩ := readAcquisitionWorker_total hcurrent
  cases hkey : w.store.workerRequests.lookup
      (identity.workerID, request.sessionID, request.requestID) with
  | some row =>
    exact ⟨w.store, h.acquire_recorded hworker hcredential hsession hrequest hauthorized hcurrent
      (by simp [hkey])⟩
  | none =>
    simp only [acquireWork, require_of hidentity, require_of hids, hauthorized, hkey, hhost,
      ok_bind]
    cases hready : host.readiness observed policy with
    | some reason =>
      simp only [List.foldlM_nil, hhost, ok_bind, pure_bind]
      exact ⟨_, _, rfl⟩
    | none =>
      have hnew : ∀ k b, w.store.blockers.lookup k = some b →
          b.key ≠ (identity.workerID, request.sessionID, request.requestID) :=
        fun k b hb heq => h.observed hb (heq ▸ hkey)
      obtain ⟨sampled, hsampled, blockers, sequence, rfl⟩ := recordQueueBlockers_total (w := host)
        h.ledger_sound.named hworker hsession hrequest htime hnew
      have hseen : readAcquisitionWorker (w.store.observing blockers sequence) identity.workerID
          request.sessionID = .ok host := hhost
      simp only [selectAcquisitionCandidate_blockers, hsampled, ok_bind]
      split
      · simp only [hseen, ok_bind]
        exact ⟨_, _, rfl⟩
      · rename_i job hjob
        obtain ⟨c, hc, rfl, -, -⟩ := selectAcquisitionCandidate_job hjob
        obtain ⟨hj, hqueued, -, p, hp, -⟩ := mem_candidates hc
        have hstartable := h.startable hj hqueued hp hattempt
        obtain ⟨⟨assigned, assignment, reason⟩, hassigned⟩ : ∃ r, tryAssign
            (w.store.observing blockers sequence) now identity.workerID request policy attempt c.id
            (selectAcquisitionCandidate w.store identity.workerID host queueNow).reason = .ok r :=
          tryAssign_total (hstartable.observing blockers sequence) hseen
        simp only [hassigned, ok_bind]
        cases assignment with
        | some a => exact ⟨_, _, rfl⟩
        | none => exact ⟨_, _, rfl⟩

/-! ## The choice -/

/-- Where a ranking puts one kind before the other, the first of a list is of
the first kind if any of it is. -/
theorem head_insertionSort {α : Type} {r : α → α → Prop} [DecidableRel r] {p : α → Prop}
    (hbefore : ∀ a b, p a → ¬ p b → r a b) (hafter : ∀ a b, ¬ p a → p b → ¬ r a b) {l : List α}
    (h : ∃ a ∈ l, p a) : ∃ a, (l.insertionSort r).head? = some a ∧ p a := by
  induction l with
  | nil => simp at h
  | cons a l ih =>
    rw [List.insertionSort_cons]
    by_cases hl : ∃ b ∈ l, p b
    · obtain ⟨b, hhead, hb⟩ := ih hl
      obtain ⟨rest, hrest⟩ : ∃ rest, l.insertionSort r = b :: rest :=
        List.head?_eq_some_iff.mp hhead
      rw [hrest, List.orderedInsert]
      split_ifs with hab
      · by_cases ha : p a
        · exact ⟨a, rfl, ha⟩
        · exact absurd hab (hafter a b ha hb)
      · exact ⟨b, rfl, hb⟩
    · -- Only the new element is of the first kind.
      have ha : p a := by
        obtain ⟨b, hb, hpb⟩ := h
        obtain rfl | hb := List.mem_cons.mp hb
        · exact hpb
        · exact absurd ⟨b, hb, hpb⟩ hl
      cases hrest : l.insertionSort r with
      | nil => exact ⟨a, rfl, ha⟩
      | cons b rest =>
        have hb : b ∈ l := (List.perm_insertionSort r l).mem_iff.mp (hrest ▸ List.mem_cons_self)
        rw [List.orderedInsert, if_pos (hbefore a b ha fun hpb => hl ⟨b, hb, hpb⟩)]
        exact ⟨a, rfl, ha⟩

/-- **A job that can be assigned is never passed over** for one that cannot. -/
theorem selectAcquisitionCandidate_unblocked {c : Candidate} (hc : c ∈ candidates s worker w now)
    (hvisible : c.visible = true) (hfree : c.blocked = none) :
    (selectAcquisitionCandidate s worker w now).job ≠ none ∧
      (selectAcquisitionCandidate s worker w now).reason = none := by
  obtain ⟨x, hhead, hx⟩ := head_insertionSort (p := fun x : Candidate => x.blocked = none)
    (r := fun x y => x.before s.projectCursor now y = true)
    (fun a b ha hb => by
      have hne : a.blocked.isNone ≠ b.blocked.isNone := by simp [ha, hb]
      rw [Candidate.before, if_pos hne, ha]
      rfl)
    (fun a b ha hb => by
      have hne : a.blocked.isNone ≠ b.blocked.isNone := by simp [ha, hb]
      rw [Candidate.before, if_pos hne]
      simpa using ha)
    ⟨c, List.mem_filter.mpr ⟨hc, hvisible⟩, hfree⟩
  simp only [selectAcquisitionCandidate, hhead]
  exact ⟨by simp, hx⟩

/-! ## Budgets and the queue -/

/-- **Attempts are numbered within the budget, and no job poisons the queue.**
The attempts of a job are numbered from one to its counter, each number once,
and the counter stays within the document's budget. A job that waits has an
attempt left, a pinned image, and a document that is read back from any listing
of its stored value, is valid, and has the canonical text that was hashed. So
an acquisition by an authorised worker's current session goes through, whatever
the queue holds, and a job that can be assigned is chosen before one that
cannot. (An observation may not carry the zero time, so the clock is past it.) -/
theorem queue_never_poisoned {w : World} (h : Reachable sha w) :
    (∀ job j, w.store.jobs.lookup job = some j →
      (∀ n, (∃ id a, w.store.attempts.lookup id = some a ∧ a.job = job ∧ a.number = n) ↔
        1 ≤ n ∧ n ≤ j.attemptCounter) ∧
      (∀ id id' a a', w.store.attempts.lookup id = some a → w.store.attempts.lookup id' = some a' →
        a.job = job → a'.job = job → a.number = a'.number → id = id') ∧
      (j.attemptCounter : ℤ) ≤ j.spec.spec.retry.maxAttempts ∧
      (j.state.isQueued = true → j.cancelRequested = false →
        (j.attemptCounter : ℤ) < j.spec.spec.retry.maxAttempts ∧
        pinnedImage j.spec.spec.image = true ∧
        ∀ document, Json.Reordered j.spec.toJson document →
          ∃ job', Job.ofJson document = some job' ∧
          job'.isValid = true ∧ job'.canonicalText = j.specHash.canonicalText)) ∧
    (∀ observed queueNow now identity request policy attempt,
      identity.workerID ≠ 0 → identity.credentialID ≠ 0 → request.sessionID ≠ 0 →
      request.requestID ≠ 0 → queueNow ≠ 0 → authorizeWorkerTx w.store identity = .ok () →
      isCurrentSession w.store identity.workerID request.sessionID = true →
      w.store.attempts.lookup attempt = none →
      ∃ s' result, acquireWork w.store observed queueNow now identity request policy attempt
        = .ok (s', result)) ∧
    (∀ worker host queueNow c, c ∈ candidates w.store worker host queueNow → c.visible = true →
      c.blocked = none → (selectAcquisitionCandidate w.store worker host queueNow).job ≠ none ∧
        (selectAcquisitionCandidate w.store worker host queueNow).reason = none) := by
  have hsound := h.ledger_sound
  refine ⟨fun job j hj => ?_, ?_, ?_⟩
  · have hrow := Store.toLedger_job hj
    have hdocument := hsound.furnished.documents job _ hrow
    refine ⟨fun n => ⟨?_, fun hn => ?_⟩, ?_, (hsound.jobs job _ hrow).budget, fun hqueued _ => ?_⟩
    · rintro ⟨id, a, ha, rfl, rfl⟩
      exact (hsound.numbered.within id a _ ha hrow :)
    · exact hsound.numbered.all job _ n hrow hn.1 hn.2
    · exact fun id id' a a' ha ha' hjob hjob' =>
        hsound.numbered.once id id' a a' ha ha' (hjob.trans hjob'.symm)
    · refine ⟨(hsound.jobs job _ hrow).queued hqueued, hdocument.pinned, fun document hsame => ?_⟩
      have hmachine := Job.machine_of_isValid hdocument.valid
      obtain ⟨job', hjob', hrelisted⟩ := Job.ofJson_reordered hmachine hsame
      refine ⟨job', hjob', hrelisted.isValid hdocument.valid, ?_⟩
      have hhashed : j.spec.canonical = j.specHash := hdocument.hashed
      rw [hrelisted.canonicalText, ← hhashed, Job.canonicalText, Job.canonicalText,
        Job.canonical_canonical]
      rfl
  · exact fun observed queueNow now identity request policy attempt hworker hcredential hsession
      hrequest htime hauthorized hcurrent hattempt =>
      h.acquire_total hworker hcredential hsession hrequest htime hauthorized hcurrent hattempt
  · exact fun worker host queueNow c hc hvisible hfree =>
      selectAcquisitionCandidate_unblocked hc hvisible hfree

/-- A job waits for the sample's worker; its document is read back, and the
worker's request is answered. -/
theorem sample_queue :
    ∃ w j job' s' result, Reachable Sample.sha w ∧ w.store.jobs.lookup 1 = some j ∧
      j.state = .queued ∧ (j.attemptCounter : ℤ) < j.spec.spec.retry.maxAttempts ∧
      Job.ofJson j.spec.toJson = some job' ∧ job'.isValid = true ∧
      acquireWork w.store second second second Sample.identity ⟨1, 1⟩ ⟨false⟩ 1
        = .ok (s', result) := by
  obtain ⟨w, hw, hp⟩ := Sample.reaches Sample.world_reachable (Sample.seated 1 second ++
      [(second, .submitJob 1 "k" (String.ofList (List.replicate 64 '0')) Sample.job [])])
    (fun w => (w.store.jobs.lookup 1).any (fun j : JobRow =>
        decide (j.state = .queued) && !j.cancelRequested) &&
      (authorizeWorkerTx w.store Sample.identity).toOption.isSome &&
      isCurrentSession w.store 1 1 && (w.store.attempts.lookup 1).isNone) (by decide +kernel)
  simp only [Bool.and_eq_true, Option.any_eq_true, decide_eq_true_eq, Bool.not_eq_true'] at hp
  obtain ⟨⟨⟨⟨j, hj, hstate, huncancelled⟩, hauthorized⟩, hcurrent⟩, hattempt⟩ := hp
  obtain ⟨hjobs, hacquires, -⟩ := queue_never_poisoned hw
  obtain ⟨-, -, -, hwaits⟩ := hjobs 1 j hj
  obtain ⟨hbudget, -, hdocument⟩ := hwaits (by rw [hstate]; rfl) huncancelled
  obtain ⟨job', hjob', hvalid, -⟩ := hdocument _ (.refl _)
  obtain ⟨u, hu⟩ := Option.isSome_iff_exists.mp hauthorized
  obtain ⟨s', result, hresult⟩ := hacquires second second second Sample.identity ⟨1, 1⟩ ⟨false⟩ 1
    (by decide) (by decide) (by decide) (by decide) (by decide) (toOption_eq_some.mp hu) hcurrent
    (Option.isNone_iff_eq_none.mp hattempt)
  exact ⟨w, j, job', s', result, hw, hj, hstate, hbudget, hjob', hvalid, hresult⟩

end Dispatch
