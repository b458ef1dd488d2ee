import Dispatch.Scheduling.Observations
import Dispatch.Store.Reads

/-!
# The history of a blocked job

A job's observations stand in sixteen slots, filled and refilled in turn
(`Observed.ring`), so what they hold is the newest of what was recorded.
-/

namespace Dispatch

open Txn

variable {sha : Uuid → ℕ} {s s' : Store} {job worker : Uuid} {rows : List BlockerRow}
  {request : AcquisitionRequest} {observedAt : Time} {reason : NoWork}

variable {b : BlockerRow}

/-- **The observations recorded for a job**, the newest first. A request that
is retried while its observation is retained records nothing. Between two
recordings other jobs are observed, and ids are lost with transactions that do
not commit. -/
inductive Observed (job : Uuid) : List BlockerRow → Store → Prop where
  | unobserved {s : Store} (h : ∀ slot, s.blockers.lookup (job, slot) = none) : Observed job [] s
  | noted {rows : List BlockerRow} {s s' : Store} {worker : Uuid} {request : AcquisitionRequest}
      {observedAt : Time} {reason : NoWork} {j : JobRow} (h : Observed job rows s)
      (hnote : recordQueueBlocker s worker request observedAt (job, reason) = .ok s')
      (hnew : ∀ slot b, s.blockers.lookup (job, slot) = some b →
        b.key ≠ (worker, request.sessionID, request.requestID))
      (hj : s.jobs.lookup job = some j) :
      Observed job (⟨s'.blockerSequence, worker, request.sessionID, request.requestID,
        j.attemptCounter, reason, observedAt⟩ :: rows) s'
  | retried {rows : List BlockerRow} {s s' : Store} {worker : Uuid} {request : AcquisitionRequest}
      {observedAt : Time} {reason : NoWork} {slot : ℕ} {b : BlockerRow} (h : Observed job rows s)
      (hnote : recordQueueBlocker s worker request observedAt (job, reason) = .ok s')
      (hb : s.blockers.lookup (job, slot) = some b)
      (hkey : b.key = (worker, request.sessionID, request.requestID)) : Observed job rows s'
  | elsewhere {rows : List BlockerRow} {s s' : Store} (h : Observed job rows s)
      (hsame : ∀ slot, s'.blockers.lookup (job, slot) = s.blockers.lookup (job, slot))
      (hle : s.blockerSequence ≤ s'.blockerSequence) : Observed job rows s'

/-! ## The ring -/

/-- The order in which slots are reused: empty ones first, then the oldest. -/
def slotRank : Option BlockerRow → ℕ
  | none => 0
  | some b => b.id + 1

private theorem foldl_least (rank : ℕ → ℕ) (n : ℕ) :
    ∃ r, (List.range n).foldl (fun best i => if rank i < rank best then i else best) 0 = r ∧
      (r = 0 ∨ r < n) ∧ (∀ i < n, rank r ≤ rank i) ∧ ∀ i < r, rank r < rank i := by
  induction n with
  | zero => exact ⟨0, rfl, .inl rfl, nofun, nofun⟩
  | succ n ih =>
    obtain ⟨r, hr, hbound, hleast, hfirst⟩ := ih
    rw [List.range_succ, List.foldl_append, hr]
    show ∃ r', (if rank n < rank r then n else r) = r' ∧ _
    split_ifs with hlt
    · refine ⟨n, rfl, .inr n.lt_succ_self, fun i hi => ?_, fun i hi => hlt.trans_le (hleast i hi)⟩
      obtain hi | rfl := Nat.lt_succ_iff_lt_or_eq.mp hi
      · exact hlt.le.trans (hleast i hi)
      · exact le_rfl
    · refine ⟨r, rfl, hbound.imp_right (Nat.lt_succ_of_lt ·), fun i hi => ?_, hfirst⟩
      obtain hi | rfl := Nat.lt_succ_iff_lt_or_eq.mp hi
      · exact hleast i hi
      · exact not_lt.mp hlt

theorem blockerSlot_eq {slot : ℕ} (hslot : slot < 16)
    (hleast : ∀ i < 16, slotRank (s.blockers.lookup (job, slot))
      ≤ slotRank (s.blockers.lookup (job, i)))
    (hfirst : ∀ i < slot, slotRank (s.blockers.lookup (job, slot))
      < slotRank (s.blockers.lookup (job, i))) : blockerSlot s job = slot := by
  obtain ⟨r, hr, hbound, hleast', hfirst'⟩ :=
    foldl_least (fun i => slotRank (s.blockers.lookup (job, i))) 16
  have heq : blockerSlot s job = r := hr
  rw [heq]
  obtain hlt | hlt | hlt := Nat.lt_trichotomy r slot
  · exact absurd (hleast' slot hslot) (not_le.mpr (hfirst r hlt))
  · exact hlt
  · exact absurd (hleast r (by omega)) (not_le.mpr (hfirst' slot hlt))

/-- The slots as a ring: the observation after `n` others is in slot
`n % 16`. -/
structure Ring (job : Uuid) (rows : List BlockerRow) (s : Store) : Prop where
  newer : rows.Pairwise (fun b b' => b'.id < b.id)
  drawn : ∀ b ∈ rows, b.id ≤ s.blockerSequence
  slots : ∀ slot < 16, s.blockers.lookup (job, slot) = rows[(rows.length + 15 - slot) % 16]?
  bounded : ∀ slot b, s.blockers.lookup (job, slot) = some b → slot < 16
  keys : (rows.take 16).Pairwise (fun b b' => b.key ≠ b'.key)

/-- An older observation is chosen before a newer one, and a vacant slot before
both. -/
theorem slotRank_lt (hnewer : rows.Pairwise (fun b b' => b'.id < b.id)) {i k : ℕ} (hik : i < k)
    (hi : i < rows.length) : slotRank rows[k]? < slotRank rows[i]? := by
  rw [List.getElem?_eq_getElem hi]
  by_cases hk : k < rows.length
  · rw [List.getElem?_eq_getElem hk]
    exact Nat.succ_lt_succ (List.pairwise_iff_getElem.mp hnewer i k hi hk hik)
  · rw [List.getElem?_eq_none (not_lt.mp hk)]
    exact Nat.succ_pos _

theorem Ring.blockerSlot_eq (h : Ring job rows s) : blockerSlot s job = rows.length % 16 := by
  have hturn : rows.length % 16 < 16 := Nat.mod_lt _ (by decide)
  have hchosen : s.blockers.lookup (job, rows.length % 16) = rows[15]? := by
    rw [h.slots _ hturn, show (rows.length + 15 - rows.length % 16) % 16 = 15 by omega]
  refine Dispatch.blockerSlot_eq hturn (fun i hi => ?_) (fun i hi => ?_)
  · rw [hchosen, h.slots i hi]
    obtain hlt | heq := Nat.lt_or_eq_of_le
      (show (rows.length + 15 - i) % 16 ≤ 15 by omega)
    · by_cases hlen : (rows.length + 15 - i) % 16 < rows.length
      · exact (slotRank_lt h.newer hlt hlen).le
      · rw [List.getElem?_eq_none (show rows.length ≤ 15 by omega)]
        exact Nat.zero_le _
    · rw [heq]
  · rw [hchosen, h.slots i (by omega)]
    exact slotRank_lt h.newer (by omega) (by omega)

theorem Ring.mem_take_iff (h : Ring job rows s) :
    (∃ slot, s.blockers.lookup (job, slot) = some b) ↔ b ∈ rows.take 16 := by
  rw [List.mem_iff_getElem?]
  constructor
  · rintro ⟨slot, hb⟩
    rw [h.slots slot (h.bounded slot b hb)] at hb
    exact ⟨_, (List.getElem?_take_of_lt (Nat.mod_lt _ (by decide))).trans hb⟩
  · rintro ⟨i, hb⟩
    obtain ⟨hi, -⟩ := List.getElem?_eq_some_iff.mp hb
    rw [List.length_take] at hi
    rw [List.getElem?_take_of_lt (by omega)] at hb
    refine ⟨(rows.length + 15 - i) % 16, ?_⟩
    rw [h.slots _ (Nat.mod_lt _ (by decide)),
      show (rows.length + 15 - (rows.length + 15 - i) % 16) % 16 = i by omega, hb]

theorem Ring.slot_inj (h : Ring job rows s) {slot slot' : ℕ} {b' : BlockerRow}
    (hb : s.blockers.lookup (job, slot) = some b) (hb' : s.blockers.lookup (job, slot') = some b')
    (hid : b.id = b'.id) : slot = slot' := by
  have hslot := h.bounded slot b hb
  have hslot' := h.bounded slot' b' hb'
  rw [h.slots slot hslot, List.getElem?_eq_some_iff] at hb
  rw [h.slots slot' hslot', List.getElem?_eq_some_iff] at hb'
  obtain ⟨hi, rfl⟩ := hb
  obtain ⟨hi', rfl⟩ := hb'
  have hnewer := List.pairwise_iff_getElem.mp h.newer
  obtain hlt | heq | hlt := Nat.lt_trichotomy ((rows.length + 15 - slot) % 16)
    ((rows.length + 15 - slot') % 16)
  · exact absurd hid (hnewer _ _ hi hi' hlt).ne'
  · omega
  · exact absurd hid (hnewer _ _ hi' hi hlt).ne

/-- **A recording keeps the ring.** -/
theorem Ring.noted (h : Ring job rows s) (hid : b.id = s.blockerSequence + 1)
    (hnew : ∀ slot b', s.blockers.lookup (job, slot) = some b' → b'.key ≠ b.key) :
    Ring job (b :: rows) (s.observing (AList.insert (job, blockerSlot s job) b s.blockers)
      (s.blockerSequence + 1)) where
  newer := List.pairwise_cons.mpr ⟨fun b' hb' => hid ▸ Nat.lt_succ_of_le (h.drawn b' hb'), h.newer⟩
  drawn := by
    rintro b' (_ | ⟨_, hb'⟩)
    · exact hid.le
    · exact (h.drawn b' hb').trans (Nat.le_succ _)
  slots := by
    intro slot hslot
    rw [Store.observing_blockers, Table.lookup_insert_ite, h.blockerSlot_eq, List.length_cons]
    split_ifs with heq
    · rw [(Prod.mk.inj heq).2, show (rows.length + 1 + 15 - rows.length % 16) % 16 = 0 by omega]
      rfl
    · have hne : slot ≠ rows.length % 16 := fun hslot => heq (hslot ▸ rfl)
      rw [h.slots slot hslot, show (rows.length + 1 + 15 - slot) % 16
        = (rows.length + 15 - slot) % 16 + 1 by omega]
      rfl
  bounded := by
    intro slot b' hb'
    rw [Store.observing_blockers, Table.lookup_insert_ite, h.blockerSlot_eq] at hb'
    split_ifs at hb' with heq
    · exact (Prod.mk.inj heq).2 ▸ Nat.mod_lt _ (by decide)
    · exact h.bounded slot b' hb'
  keys := by
    refine List.pairwise_cons.mpr ⟨fun b' hb' => ?_, h.keys.sublist ?_⟩
    · obtain ⟨slot, hstored⟩ := h.mem_take_iff.mpr (List.take_subset_take_left rows (by decide) hb')
      exact (hnew slot b' hstored).symm
    · exact List.take_sublist_take_left (by decide)

theorem Observed.ring (h : Observed job rows s) : Ring job rows s := by
  induction h with
  | unobserved h =>
    exact ⟨.nil, nofun, fun slot _ => h slot,
      fun slot b hb => absurd ((h slot).symm.trans hb) nofun, .nil⟩
  | noted _ hnote hnew hj ih =>
    obtain ⟨⟨slot, b, hb, hkey⟩, -⟩ | ⟨-, j, hj', rfl⟩ := recordQueueBlocker_cases hnote
    · exact absurd hkey (hnew slot b hb)
    · obtain rfl := Option.mem_unique hj hj'
      exact ih.noted rfl hnew
  | retried _ hnote hb hkey ih =>
    obtain ⟨-, rfl⟩ | ⟨hnew, -⟩ := recordQueueBlocker_cases hnote
    · exact ih
    · exact absurd hkey (hnew _ _ hb)
  | elsewhere _ hsame hle ih =>
    exact ⟨ih.newer, fun b hb => (ih.drawn b hb).trans hle,
      fun slot hslot => (hsame slot).trans (ih.slots slot hslot),
      fun slot b hb => ih.bounded slot b ((hsame slot).symm.trans hb), ih.keys⟩

/-! ## What a reader sees -/

/-- An observation as it is read. -/
def BlockerRow.observation (b : BlockerRow) : QueueBlocker :=
  ⟨b.id, b.worker, b.session, b.request, b.attemptCounter, b.reason, b.observedAt⟩

theorem Ring.history (h : Ring job rows s) :
    queueBlockerHistory s job = (rows.take 16).map BlockerRow.observation := by
  let read := s.blockers.ordered (fun k _ => decide (k.1 = job)) (fun x => OrderDual.toDual x.2.id)
    (fun x => x.1.2)
  have hread : ∀ {x}, x ∈ read ↔ s.blockers.lookup x.1 = some x.2 ∧ decide (x.1.1 = job) = true :=
    fun {x} => Table.mem_ordered (k := x.1) (r := x.2)
  have hmem : ∀ b, b ∈ read.map Prod.snd ↔ b ∈ rows.take 16 := by
    intro b
    rw [← h.mem_take_iff, List.mem_map]
    constructor
    · rintro ⟨⟨⟨_, slot⟩, _⟩, hx, rfl⟩
      obtain ⟨hlookup, hjob⟩ := hread.mp hx
      exact ⟨slot, of_decide_eq_true hjob ▸ hlookup⟩
    · rintro ⟨slot, hb⟩
      exact ⟨((job, slot), b), hread.mpr ⟨hb, decide_eq_true rfl⟩, rfl⟩
  have hsorted : (read.map Prod.snd).Pairwise (fun b b' => b'.id < b.id) := by
    refine List.pairwise_map.mpr (List.Pairwise.imp_of_mem ?_
      (Table.pairwise_ordered s.blockers _ _ _))
    rintro ⟨⟨_, slot⟩, b⟩ ⟨⟨_, slot'⟩, b'⟩ hx hy ⟨horder, hne⟩
    obtain ⟨hb, hjob⟩ := hread.mp hx
    obtain ⟨hb', hjob'⟩ := hread.mp hy
    obtain rfl := of_decide_eq_true hjob
    obtain rfl := of_decide_eq_true hjob'
    obtain hlt | ⟨heq, -⟩ := horder
    · exact hlt
    · exact absurd (congrArg _ (h.slot_inj hb hb' heq)) hne
  have : Std.Antisymm (fun b b' : BlockerRow => b'.id < b.id) := ⟨fun _ _ h h' => absurd h h'.asymm⟩
  have : Std.Irrefl (fun b b' : BlockerRow => b'.id < b.id) := ⟨fun _ => Nat.lt_irrefl _⟩
  rw [← hsorted.eq_of_mem_iff (h.newer.sublist (List.take_sublist 16 rows)) hmem, List.map_map]
  rfl

/-! ## What recording leaves alone -/

theorem recordQueueBlocker_elsewhere
    (h : recordQueueBlocker s worker request observedAt (job, reason) = .ok s') {other : Uuid}
    (hne : other ≠ job) (slot : ℕ) :
    s'.blockers.lookup (other, slot) = s.blockers.lookup (other, slot) := by
  obtain ⟨-, rfl⟩ | ⟨-, j, -, rfl⟩ := recordQueueBlocker_cases h
  · rfl
  · rw [Store.observing_blockers, Table.lookup_insert_ite,
      if_neg fun heq => hne (congrArg Prod.fst heq)]

theorem queueBlockerHistory_elsewhere
    (h : recordQueueBlocker s worker request observedAt (job, reason) = .ok s') {other : Uuid}
    (hne : other ≠ job) : queueBlockerHistory s' other = queueBlockerHistory s other := by
  refine congrArg (List.map _) (Table.ordered_congr ?_ ?_)
  · rintro ⟨id, slot⟩ b
    refine and_congr_left fun hid => ?_
    obtain rfl := of_decide_eq_true hid
    rw [recordQueueBlocker_elsewhere h hne]
  · rintro ⟨id, slot⟩ b ⟨id', slot'⟩ b' hid hid' - hslot
    exact Prod.ext ((of_decide_eq_true hid).trans (of_decide_eq_true hid').symm) hslot

/-- **Observations give no authority**: what an assignment requires does not
read them. -/
theorem assignable_observing_iff {now : Time} {policy : AcquisitionPolicy} {j : JobRow}
    {w : AcquisitionWorker} {p : ProjectRow} (blockers : Table (Uuid × ℕ) BlockerRow)
    (sequence : ℕ) : Assignable (s.observing blockers sequence) now worker request policy
      job j w p ↔ Assignable s now worker request policy job j w p :=
  ⟨fun h => ⟨h.found, h.valid, h.host, h.project, h.sweep, h.enabled, h.quota,
      h.concurrency, h.fits, h.slot, h.ready, h.queued, h.uncancelled, h.eligible, h.budget⟩,
    fun h => ⟨h.found, h.valid, h.host, h.project, h.sweep, h.enabled, h.quota,
      h.concurrency, h.fits, h.slot, h.ready, h.queued, h.uncancelled, h.eligible, h.budget⟩⟩

/-! ## Every run -/

theorem Observed.turn {blocker : Uuid × NoWork} (h : Observed job rows s)
    (hturn : recordQueueBlocker s worker request observedAt blocker = .ok s') :
    ∃ rows, Observed job rows s' := by
  obtain ⟨noted, reason⟩ := blocker
  by_cases hjob : job = noted
  · subst hjob
    obtain ⟨⟨slot, b, hb, hkey⟩, -⟩ | ⟨hnew, j, hj, -⟩ := recordQueueBlocker_cases hturn
    · exact ⟨rows, .retried h hturn hb hkey⟩
    · exact ⟨_, .noted h hturn hnew hj⟩
  · refine ⟨rows, .elsewhere h (recordQueueBlocker_elsewhere hturn hjob) ?_⟩
    obtain ⟨-, rfl⟩ | ⟨-, j, -, rfl⟩ := recordQueueBlocker_cases hturn
    · exact le_rfl
    · exact Nat.le_succ _

theorem Reachable.observations {w : World} (h : Reachable sha w) (job : Uuid) :
    ∃ rows, Observed job rows w.store := by
  induction h with
  | start projects workers credentials workerProjects clock =>
    exact ⟨[], .unobserved fun _ => rfl⟩
  | @step w w' hw hstep ih =>
    obtain ⟨-, op, reply, hexec⟩ := hstep
    obtain ⟨rows, ih⟩ := ih
    by_cases hop : ∃ key, op.acquires key
    · obtain ⟨_, observed, queueNow, identity, request, policy, attempt, rfl, -⟩ := hop
      simp only [Op.exec, bind_ok, pure_pair_ok] at hexec
      obtain ⟨⟨t, _⟩, ht, rfl, -⟩ := hexec
      obtain hsame | ⟨sampled, ⟨observedAt, l, hfold⟩, hblockers, hsequence, -⟩ :=
        acquireWork_notes ht
      · exact ⟨rows, hsame ▸ ih⟩
      · obtain ⟨rows', hrows'⟩ := foldlM_invariant (fun t => ∃ rows, Observed job rows t) ⟨rows, ih⟩
          (fun _ _ _ _ ht hturn => ht.elim fun _ ht => ht.turn hturn) hfold
        exact ⟨rows', .elsewhere hrows' (fun slot => by rw [hblockers]) hsequence.ge⟩
    · obtain ⟨hblockers, hsequence⟩ := Op.exec_blockers hexec (not_exists.mp hop)
      exact ⟨rows, .elsewhere ih (fun slot => by rw [hblockers]) hsequence.ge⟩

/-- **Queue diagnostics keep the newest history.** Of the observations recorded
for a job a reader sees the newest sixteen, each once and in order, under
pairwise distinct requests; every run records its observations in this sense.
Recording changes neither what is seen of another job nor what can be
assigned. -/
theorem queue_diagnostics_newest (job : Uuid) :
    (∀ rows s, Observed job rows s →
      queueBlockerHistory s job
        = (rows.take queueBlockerHistoryLimit).map BlockerRow.observation ∧
      (∀ b, (∃ slot, s.blockers.lookup (job, slot) = some b) ↔
        b ∈ rows.take queueBlockerHistoryLimit) ∧
      rows.Pairwise (fun b b' => b'.id < b.id) ∧
      (rows.take queueBlockerHistoryLimit).Pairwise (fun b b' => b.key ≠ b'.key)) ∧
    (∀ sha w, Reachable sha w → ∃ rows, Observed job rows w.store) ∧
    ∀ s s' worker request observedAt reason,
      recordQueueBlocker s worker request observedAt (job, reason) = .ok s' →
      (∀ other, other ≠ job → queueBlockerHistory s' other = queueBlockerHistory s other) ∧
      ∀ now host acquisition policy id j w p,
        Assignable s' now host acquisition policy id j w p ↔
          Assignable s now host acquisition policy id j w p := by
  refine ⟨fun rows s h => ?_, fun sha w h => h.observations job, ?_⟩
  · exact ⟨h.ring.history, fun b => h.ring.mem_take_iff, h.ring.newer, h.ring.keys⟩
  · intro s s' worker request observedAt reason h
    refine ⟨fun other hne => queueBlockerHistory_elsewhere h hne, ?_⟩
    obtain ⟨blockers, sequence, rfl⟩ := recordQueueBlocker_eq_ok h
    exact fun _ _ _ _ _ _ _ _ => assignable_observing_iff blockers sequence

namespace Sample

/-- Two jobs that wait. -/
def crowded : Store :=
  { world.store with
    jobs := AList.insert 2 (newSubmission second 1 Sample.job none)
      (AList.insert 1 (newSubmission second 1 Sample.job none) ∅) }

/-- What twenty acquisitions, forty seconds apart, note of both: they are over
their quota. -/
def notes : List (Uuid × Uuid) := (List.range 20).flatMap (fun i => [(i + 1, 1), (i + 1, 2)])

/-- One of these notes. -/
def note (s : Store) (x : Uuid × Uuid) : Except StoreError Store :=
  recordQueueBlocker s 1 ⟨1, x.1⟩ (40 * x.1 * second) (x.2, .projectQuota)

end Sample

/-- Two jobs over their quota are observed twenty times each, in turn. Of the
first one the observations of the requests from 20 down to 5 are seen. -/
theorem sample_queue_diagnostics_newest : ∃ (s : Store) (rows : List BlockerRow),
    Sample.notes.foldlM Sample.note Sample.crowded = .ok s ∧ Observed 1 rows s ∧
    queueBlockerHistory s 1 = (rows.take queueBlockerHistoryLimit).map BlockerRow.observation ∧
    (queueBlockerHistory s 1).map QueueBlocker.requestID
      = [20, 19, 18, 17, 16, 15, 14, 13, 12, 11, 10, 9, 8, 7, 6, 5] ∧
    (queueBlockerHistory s 1).map QueueBlocker.sequence
      = [39, 37, 35, 33, 31, 29, 27, 25, 23, 21, 19, 17, 15, 13, 11, 9] := by
  have hnotes : (Sample.notes.foldlM Sample.note Sample.crowded).toOption.any (fun s : Store =>
      decide ((queueBlockerHistory s 1).map QueueBlocker.requestID
        = [20, 19, 18, 17, 16, 15, 14, 13, 12, 11, 10, 9, 8, 7, 6, 5] ∧
      (queueBlockerHistory s 1).map QueueBlocker.sequence
        = [39, 37, 35, 33, 31, 29, 27, 25, 23, 21, 19, 17, 15, 13, 11, 9])) = true := by
    decide +kernel
  simp only [Option.any_eq_true, decide_eq_true_eq, toOption_eq_some] at hnotes
  obtain ⟨s, hs, hseen⟩ := hnotes
  obtain ⟨rows, hrows⟩ := foldlM_invariant (fun t => ∃ rows, Observed 1 rows t)
    ⟨[], .unobserved fun _ => rfl⟩ (fun _ _ _ _ ht hturn => ht.elim fun _ ht => ht.turn hturn) hs
  exact ⟨s, rows, hs, hrows, ((queue_diagnostics_newest 1).1 rows s hrows).1, hseen⟩

end Dispatch
