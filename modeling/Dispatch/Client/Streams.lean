import Dispatch.Client.Logs
import Dispatch.Outcome.Cancellation
import Dispatch.Ownership.Tenancy

/-!
# The segments of a stream, and what is printed of them

The segments of a stream lie one after the other, and later ones come at the
end only. The records of a segment lie inside its range, so that the records of
segments that follow each other are in order. What is printed of a stream is
read off the lines of output below the headings of its attempt.
-/

namespace Dispatch

open Txn

variable {x : LogSegment} {records : List LogRecord} {l : LogSegmentRow}

variable {sha : Uuid → ℕ}

/-! ## The segments of a stream -/

section Streams

variable {w w' : World} {project attempt : Uuid} {stream : Stream} {s : Store}

/-- The segments of a stream, from its first record on. -/
abbrev streamLog (s : Store) (project attempt : Uuid) (stream : Stream) : List LogSegment :=
  logSegments s project attempt stream 0

theorem logSegment_range (h : logSegment s l = some x) :
    x.firstSequence = l.claims.firstSequence ∧ x.lastSequence = l.claims.lastSequence ∧
      x.stream = l.claims.stream := by
  simp only [logSegment, Option.bind_eq_bind, Option.bind_eq_some_iff] at h
  obtain ⟨a, -, u, -, hx⟩ := h
  obtain rfl := Option.some.inj hx
  exact ⟨rfl, rfl, rfl⟩

theorem mem_logSegments {after : ℕ} :
    x ∈ logSegments s project attempt stream after ↔ ∃ id l, s.logSegments.lookup id = some l ∧
      l.Of attempt stream ∧ s.attemptIn project attempt = true ∧
      after < l.claims.lastSequence ∧ logSegment s l = some x := by
  unfold logSegments
  rw [List.mem_filterMap]
  constructor
  · rintro ⟨⟨id, l⟩, hl, hx⟩
    obtain ⟨hl, hselected⟩ := Table.mem_ordered.mp hl
    simp only [Bool.and_eq_true, decide_eq_true_eq] at hselected
    obtain ⟨⟨⟨hattempt, hmine⟩, hstream⟩, hafter⟩ := hselected
    exact ⟨id, l, hl, ⟨hattempt, hstream⟩, hattempt ▸ hmine, hafter, hx⟩
  · rintro ⟨id, l, hl, hof, hmine, hafter, hx⟩
    refine ⟨(id, l), Table.mem_ordered.mpr ⟨hl, ?_⟩, hx⟩
    simp only [Bool.and_eq_true, decide_eq_true_eq]
    exact ⟨⟨⟨hof.attempt, by rw [hof.attempt]; exact hmine⟩, hof.stream⟩, hafter⟩

/-- A cursor cuts off what is not after it. -/
theorem logSegments_after (s : Store) (project attempt : Uuid) (stream : Stream) (after : ℕ) :
    logSegments s project attempt stream after =
      (streamLog s project attempt stream).filter (fun x => decide (after < x.lastSequence)) := by
  have hrows : s.logSegments.ordered (fun _ l => decide (l.claims.authority.attemptID = attempt) &&
      s.attemptIn project l.claims.authority.attemptID && decide (l.claims.stream = stream) &&
      decide (after < l.claims.lastSequence)) (fun x => x.2.claims.firstSequence) (fun x => x.1) =
      (s.logSegments.ordered (fun _ l => decide (l.claims.authority.attemptID = attempt) &&
        s.attemptIn project l.claims.authority.attemptID && decide (l.claims.stream = stream) &&
        decide (0 < l.claims.lastSequence)) (fun x => x.2.claims.firstSequence)
          (fun x => x.1)).filter (fun x => decide (after < x.2.claims.lastSequence)) := by
    rw [Table.filter_ordered _ _ _ _ _ fun _ _ _ _ _ _ _ hid => hid]
    refine congrArg (fun p => s.logSegments.ordered p _ _) ?_
    funext id l
    by_cases hafter : after < l.claims.lastSequence
    · simp [hafter, Nat.zero_lt_of_lt hafter]
    · simp [hafter]
  unfold streamLog logSegments
  rw [hrows, List.filter_filterMap, List.filterMap_filter]
  refine List.filterMap_congr fun x _ => ?_
  cases hx : logSegment s x.2 with
  | none => split <;> rfl
  | some y =>
    rw [← (logSegment_range hx).2.1]
    rfl

/-- **The segments of a stream lie one after the other.** -/
theorem Reachable.pairwise_streamLog (h : Reachable sha w) (project attempt : Uuid)
    (stream : Stream) : (streamLog w.store project attempt stream).Pairwise
      (fun x y => x.lastSequence < y.firstSequence) := by
  refine List.pairwise_filterMap.mpr ((Table.pairwise_ordered _ _ _ _).imp_of_mem ?_)
  rintro ⟨id, l⟩ ⟨id', l'⟩ hl hl' ⟨horder, hne⟩ x hx y hy
  obtain ⟨hl, hselected⟩ := Table.mem_ordered.mp hl
  obtain ⟨hl', hselected'⟩ := Table.mem_ordered.mp hl'
  simp only [Bool.and_eq_true, decide_eq_true_eq] at hselected hselected'
  rw [(logSegment_range hx).2.1, (logSegment_range hy).1]
  have hle : l.claims.firstSequence ≤ l'.claims.firstSequence := by
    obtain hlt | ⟨heq, -⟩ := horder
    · exact le_of_lt hlt
    · exact le_of_eq heq
  -- The first record of the later one would lie in both.
  by_contra hinside
  have hcovers : l'.Covers l'.claims.firstSequence :=
    ⟨le_rfl, (h.catalogued.segments id' l' hl').range.2⟩
  exact hne (h.catalogued.apart attempt stream l'.claims.firstSequence id id' l l' hl hl'
    ⟨hselected.1.1.1, hselected.1.2⟩ ⟨hselected'.1.1.1, hselected'.1.2⟩
    ⟨hle, not_lt.mp hinside⟩ hcovers)

theorem Reachable.range_streamLog (h : Reachable sha w)
    (hx : x ∈ streamLog w.store project attempt stream) :
    1 ≤ x.firstSequence ∧ x.firstSequence ≤ x.lastSequence := by
  obtain ⟨id, l, hl, -, -, -, hx⟩ := mem_logSegments.mp hx
  rw [(logSegment_range hx).1, (logSegment_range hx).2.1]
  exact (h.catalogued.segments id l hl).range

/-- Every segment of the stream is read: its artifact and upload are there. -/
theorem Reachable.mem_streamLog (h : Reachable sha w) {id : Uuid}
    (hl : w.store.logSegments.lookup id = some l) (hof : l.Of attempt stream)
    (hmine : w.store.attemptIn project attempt = true) :
    ∃ x, logSegment w.store l = some x ∧ x ∈ streamLog w.store project attempt stream := by
  obtain ⟨a, u, ha, -, hu, -⟩ := h.cited id l hl
  have hrange := (h.catalogued.segments id l hl).range
  have hx : logSegment w.store l = some ⟨l.claims.artifactID, l.claims.stream,
      l.claims.firstSequence, l.claims.lastSequence, l.claims.gaps,
      ⟨u.key l.upload, a.objectVersion, u.claims.sizeBytes, u.claims.sha256⟩, l.createdAt⟩ := by
    unfold logSegment
    rw [ha, hu]
    rfl
  exact ⟨_, hx, mem_logSegments.mpr ⟨id, l, hl, hof, hmine, by omega, hx⟩⟩

theorem logSegment_later (h : w.store.files.Later w'.store.files)
    (hx : logSegment w.store l = some x) : logSegment w'.store l = some x := by
  simp only [logSegment, Option.bind_eq_bind, Option.bind_eq_some_iff] at hx ⊢
  obtain ⟨a, ha, u, hu, hx⟩ := hx
  exact ⟨a, h.artifacts _ _ ha, u, h.uploads _ _ hu, hx⟩

theorem Reachable.attemptIn_later (h : Reachable sha w) (hlater : World.Later sha w w')
    (hmine : w.store.attemptIn project attempt = true) :
    w'.store.attemptIn project attempt = true := by
  obtain ⟨a, ha, hjob⟩ := Store.attemptIn_iff.mp hmine
  obtain ⟨j, hj, hproject⟩ := Store.jobIn_iff.mp hjob
  obtain ⟨a', ha', hkept⟩ := (h.later_ledger hlater).attempts attempt a ha
  obtain ⟨j', hj', hkept'⟩ := h.later_job hlater hj
  refine Store.attemptIn_iff.mpr ⟨a', ha', Store.jobIn_iff.mpr ⟨j', ?_, ?_⟩⟩
  · rw [hkept.job]
    exact hj'
  · exact hkept'.project.trans hproject

/-- A filter that nothing passes again after the first failure keeps a prefix. -/
theorem filter_prefix {α : Type} {R : α → α → Prop} {q : α → Bool} {l : List α} (h : l.Pairwise R)
    (hq : ∀ x ∈ l, ∀ y ∈ l, R x y → q y = true → q x = true) : l.filter q <+: l := by
  induction l with
  | nil => exact List.nil_prefix
  | cons x l ih =>
    rw [List.pairwise_cons] at h
    cases hx : q x with
    | true =>
      rw [List.filter_cons_of_pos hx, List.prefix_cons_inj]
      exact ih h.2 fun y hy z hz => hq y (List.mem_cons_of_mem _ hy) z (List.mem_cons_of_mem _ hz)
    | false =>
      have hnone : l.filter q = [] := by
        rw [List.filter_eq_nil_iff]
        intro y hy hqy
        have hqx := hq x List.mem_cons_self y (List.mem_cons_of_mem _ hy) (h.1 y hy) hqy
        exact absurd (hx.symm.trans hqx) Bool.false_ne_true
      rw [List.filter_cons_of_neg (by rw [hx]; exact Bool.false_ne_true), hnone]
      exact List.nil_prefix

/-- **A stream grows at its end.** -/
theorem Reachable.streamLog_prefix (h : Reachable sha w) (hlater : World.Later sha w w')
    (hmine : w.store.attemptIn project attempt = true) (stream : Stream) :
    streamLog w.store project attempt stream <+: streamLog w'.store project attempt stream := by
  have hreached := h.later hlater
  have hfiles := hlater.files
  have hordered := h.pairwise_streamLog project attempt stream
  have hordered' := hreached.pairwise_streamLog project attempt stream
  -- What was there is what ends before the next record there was.
  have hmem : ∀ x, x ∈ streamLog w.store project attempt stream ↔
      x ∈ (streamLog w'.store project attempt stream).filter
        (fun x => decide (x.lastSequence < w.store.files.next attempt stream)) := by
    intro x
    rw [List.mem_filter, decide_eq_true_eq]
    constructor
    · intro hx
      obtain ⟨id, l, hl, hof, -, hafter, hx⟩ := mem_logSegments.mp hx
      refine ⟨mem_logSegments.mpr ⟨id, l, hfiles.logSegments id l hl, hof,
        h.attemptIn_later hlater hmine, hafter, logSegment_later hfiles hx⟩, ?_⟩
      rw [Files.lt_next, (logSegment_range hx).2.1]
      exact .inr ⟨id, l, hl, hof, le_rfl⟩
    · rintro ⟨hx, hlast⟩
      obtain ⟨id, l, hl, hof, -, hafter, hx⟩ := mem_logSegments.mp hx
      rw [(logSegment_range hx).2.1] at hlast
      obtain ⟨id', l', hl', hof', hcovers⟩ := h.catalogued.covered attempt stream _ hafter hlast
      have hrange := (hreached.catalogued.segments id l hl).range
      obtain rfl := hreached.catalogued.apart attempt stream l.claims.lastSequence id id' l l' hl
        (hfiles.logSegments id' l' hl') hof hof' ⟨hrange.2, le_rfl⟩ hcovers
      obtain rfl := Option.some.inj ((hfiles.logSegments id l' hl').symm.trans hl)
      obtain ⟨y, hy, hmem⟩ := h.mem_streamLog hl' hof' hmine
      obtain rfl := Option.some.inj ((logSegment_later hfiles hy).symm.trans hx)
      exact hmem
  have hne : ∀ {v : World}, Reachable sha v →
      (streamLog v.store project attempt stream).Nodup := fun hv =>
    (hv.pairwise_streamLog project attempt stream).imp_of_mem fun hx _ hlt heq => by
      have hrange := hv.range_streamLog hx
      subst heq
      omega
  have hsame : streamLog w.store project attempt stream =
      (streamLog w'.store project attempt stream).filter
        (fun x => decide (x.lastSequence < w.store.files.next attempt stream)) := by
    refine ((List.perm_ext_iff_of_nodup (hne h) ((hne hreached).filter _)).mpr hmem).eq_of_pairwise
      (fun x y hx hy hxy hyx => ?_) hordered (hordered'.filter _)
    have hrange := h.range_streamLog hx
    have hrange' := hreached.range_streamLog (List.mem_of_mem_filter hy)
    omega
  rw [hsame]
  refine filter_prefix hordered' fun x hx y hy hlt hq => ?_
  have hrange := hreached.range_streamLog hy
  rw [decide_eq_true_eq] at hq ⊢
  omega

/-- The stream of an attempt that has ended stays as it is. -/
theorem Reachable.streamLog_ended (h : Reachable sha w) (hlater : World.Later sha w w')
    (hmine : w.store.attemptIn project attempt = true) {a : AttemptRow}
    (ha : w.store.attempts.lookup attempt = some a) (hended : a.state.isActive = false)
    (stream : Stream) :
    streamLog w'.store project attempt stream = streamLog w.store project attempt stream := by
  obtain ⟨rest, hrest⟩ := h.streamLog_prefix hlater hmine stream
  have hreached := h.later hlater
  have hordered := hreached.pairwise_streamLog project attempt stream
  cases rest with
  | nil => rw [← hrest, List.append_nil]
  | cons x rest =>
    have hx : x ∈ streamLog w'.store project attempt stream := by
      rw [← hrest]
      exact List.mem_append_right _ List.mem_cons_self
    obtain ⟨id, l, hl, hof, -, -, hx'⟩ := mem_logSegments.mp hx
    obtain ⟨y, hy, hmem⟩ :=
      h.mem_streamLog (h.ended_segments hlater ha hended hl hof.attempt) hof hmine
    obtain rfl := Option.some.inj ((logSegment_later hlater.files hy).symm.trans hx')
    -- The segment would be there twice.
    rw [← hrest, List.pairwise_append] at hordered
    have hlt := hordered.2.2 y hmem y List.mem_cons_self
    have hrange := hreached.range_streamLog hx
    omega

/-- **The next page begins where the prefix ends.** -/
theorem Reachable.logSegments_rest (h : Reachable sha w) {shown rest : List LogSegment}
    (hsplit : shown ++ rest = streamLog w.store project attempt stream) :
    logSegments w.store project attempt stream
      ((shown.getLast?.map LogSegment.lastSequence).getD 0) = rest := by
  have hordered := h.pairwise_streamLog project attempt stream
  have hrange : ∀ x ∈ shown ++ rest, 1 ≤ x.firstSequence ∧ x.firstSequence ≤ x.lastSequence := by
    rw [hsplit]
    exact fun x hx => h.range_streamLog hx
  rw [← hsplit, List.pairwise_append] at hordered
  obtain ⟨hshown, -, hacross⟩ := hordered
  rw [logSegments_after, ← hsplit, List.filter_append]
  have hrest : ∀ x ∈ rest, (shown.getLast?.map LogSegment.lastSequence).getD 0
      < x.lastSequence := by
    intro x hx
    have hx' := hrange x (List.mem_append_right _ hx)
    cases hlast : shown.getLast? with
    | none =>
      show 0 < x.lastSequence
      omega
    | some y =>
      have hlt := hacross y (List.mem_of_getLast? hlast) x hx
      show y.lastSequence < x.lastSequence
      omega
  have hbefore : ∀ x ∈ shown, x.lastSequence
      ≤ (shown.getLast?.map LogSegment.lastSequence).getD 0 := by
    intro x hx
    obtain ⟨y, hlast⟩ : ∃ y, shown.getLast? = some y :=
      ⟨_, List.getLast?_eq_some_getLast (List.ne_nil_of_mem hx)⟩
    rw [hlast]
    show x.lastSequence ≤ y.lastSequence
    have hy := hrange y (List.mem_append_left _ (List.mem_of_getLast? hlast))
    rw [← List.dropLast_append_getLast? y hlast, List.mem_append, List.mem_singleton] at hx
    rw [← List.dropLast_append_getLast? y hlast, List.pairwise_append] at hshown
    obtain hx | rfl := hx
    · have hlt := hshown.2.2 x hx y (List.mem_singleton.mpr rfl)
      omega
    · exact le_rfl
  rw [List.filter_eq_nil_iff.mpr, List.filter_eq_self.mpr, List.nil_append]
  · exact fun x hx => decide_eq_true (hrest x hx)
  · exact fun x hx => by rw [decide_eq_true_eq]; exact not_lt.mpr (hbefore x hx)

end Streams

/-! ## The records of a segment -/

section Records

variable {storage : Storage} {attempt : Uuid}

/-- The records a range is made of: in order, inside it, and up to its end. -/
theorem rangeGaps_sound {last next n : ℕ} {gaps : List LogSequenceGap}
    (h : rangeGaps last next records = some (n, gaps)) :
    records.Pairwise (fun r r' => r.sequence < r'.sequence) ∧
      (∀ r ∈ records, next ≤ r.sequence ∧ r.sequence ≤ last) ∧
      n = (records.getLast?.map (fun r => r.sequence + 1)).getD next := by
  induction records generalizing next n gaps with
  | nil =>
    obtain ⟨rfl, rfl⟩ := Prod.mk.inj (Option.some.inj h)
    exact ⟨.nil, fun _ h => absurd h List.not_mem_nil, rfl⟩
  | cons r rest ih =>
    unfold rangeGaps at h
    by_cases hrange : r.sequence < next ∨ last < r.sequence
    · rw [if_pos hrange] at h
      exact absurd h (by simp)
    rw [if_neg hrange] at h
    obtain ⟨⟨n', gaps'⟩, hrest, heq⟩ := Option.map_eq_some_iff.mp h
    obtain ⟨hn, -⟩ := Prod.mk.inj heq
    obtain ⟨hsorted, hinside, hlast⟩ := ih hrest
    refine ⟨List.pairwise_cons.mpr ⟨fun r' hr' => ?_, hsorted⟩, List.forall_mem_cons.mpr ⟨by omega,
      fun r' hr' => ?_⟩, ?_⟩
    · exact (hinside r' hr').1
    · have := hinside r' hr'
      omega
    · rw [← hn, hlast, List.getLast?_cons]
      cases rest.getLast? <;> rfl

theorem fetchLogSegment_sound (h : fetchLogSegment storage attempt x = some records)
    (hrange : x.firstSequence ≤ x.lastSequence) :
    records.Pairwise (fun r r' => r.sequence < r'.sequence) ∧
      (∀ r ∈ records, x.firstSequence ≤ r.sequence ∧ r.sequence ≤ x.lastSequence) ∧
      records.getLast?.map LogRecord.sequence = some x.lastSequence := by
  simp only [fetchLogSegment, Option.bind_eq_bind, Option.bind_eq_some_iff,
    Option.ite_none_right_eq_some, Option.some.injEq] at h
  obtain ⟨decoded, -, ⟨-, -, -, hverify⟩, rfl⟩ := h
  obtain ⟨hsorted, hinside, hlast⟩ := rangeGaps_sound (of_decide_eq_true hverify)
  refine ⟨hsorted, hinside, ?_⟩
  cases hrecord : decoded.records.getLast? with
  | none =>
    rw [hrecord] at hlast
    have : x.lastSequence + 1 = x.firstSequence := hlast
    omega
  | some r =>
    rw [hrecord] at hlast
    have : x.lastSequence + 1 = r.sequence + 1 := hlast
    exact congrArg some (by omega)

/-- What is printed of a segment. -/
def recordsOf (storage : Storage) (attempt : Uuid) (x : LogSegment) : List LogRecord :=
  (fetchLogSegment storage attempt x).getD []

theorem mapM_fetchLogSegment {xs : List LogSegment} {fetched : List (List LogRecord)}
    (h : xs.mapM (fetchLogSegment storage attempt) = some fetched) :
    (∀ x ∈ xs, fetchLogSegment storage attempt x = some (recordsOf storage attempt x)) ∧
      fetched = xs.map (recordsOf storage attempt) := by
  induction xs generalizing fetched with
  | nil =>
    obtain rfl := Option.some.inj h
    exact ⟨fun _ h => absurd h List.not_mem_nil, rfl⟩
  | cons x xs ih =>
    rw [List.mapM_cons] at h
    simp only [Option.bind_eq_bind, Option.bind_eq_some_iff] at h
    obtain ⟨records, hx, rest, hrest, hfetched⟩ := h
    obtain rfl := Option.some.inj hfetched
    obtain ⟨hall, rfl⟩ := ih hrest
    have hrecords : recordsOf storage attempt x = records := by rw [recordsOf, hx]; rfl
    refine ⟨List.forall_mem_cons.mpr ⟨by rw [hx, hrecords], hall⟩, ?_⟩
    rw [List.map_cons, hrecords]

/-- Records that go on in order are all new. -/
theorem newRecords_eq {last : ℕ} (hsorted : records.Pairwise (fun r r' => r.sequence < r'.sequence))
    (hlast : ∀ r ∈ records, last < r.sequence) : newRecords last records = records := by
  induction records generalizing last with
  | nil => rfl
  | cons r rest ih =>
    rw [List.pairwise_cons] at hsorted
    rw [newRecords, if_neg (not_le.mpr (hlast r List.mem_cons_self)), ih hsorted.2 hsorted.1]

/-- **The records of segments that lie one after the other.** -/
theorem records_sound {xs : List LogSegment}
    (hordered : xs.Pairwise (fun x y => x.lastSequence < y.firstSequence))
    (hrange : ∀ x ∈ xs, x.firstSequence ≤ x.lastSequence)
    (hfetched : ∀ x ∈ xs, fetchLogSegment storage attempt x = some (recordsOf storage attempt x)) :
    (xs.flatMap (recordsOf storage attempt)).Pairwise (fun r r' => r.sequence < r'.sequence) ∧
      (∀ r ∈ xs.flatMap (recordsOf storage attempt), ∃ x ∈ xs,
        x.firstSequence ≤ r.sequence ∧ r.sequence ≤ x.lastSequence) ∧
      (xs.flatMap (recordsOf storage attempt)).getLast?.map LogRecord.sequence =
        xs.getLast?.map LogSegment.lastSequence := by
  have hsound := fun x hx => fetchLogSegment_sound (hfetched x hx) (hrange x hx)
  refine ⟨?_, fun r hr => ?_, ?_⟩
  · rw [List.pairwise_flatMap]
    refine ⟨fun x hx => (hsound x hx).1, hordered.imp_of_mem fun hx hy hlt r hr r' hr' => ?_⟩
    have hbound := (hsound _ hx).2.1 r hr
    have hbound' := (hsound _ hy).2.1 r' hr'
    omega
  · obtain ⟨x, hx, hr⟩ := List.mem_flatMap.mp hr
    exact ⟨x, hx, (hsound x hx).2.1 r hr⟩
  · cases hlast : xs.getLast? with
    | none =>
      rw [List.getLast?_eq_none_iff.mp hlast]
      rfl
    | some x =>
      have hx := (hsound x (List.mem_of_getLast? hlast)).2.2
      rw [← List.dropLast_append_getLast? x hlast, List.flatMap_append, List.flatMap_singleton,
        List.getLast?_append]
      obtain ⟨r, hr, hsequence⟩ := Option.map_eq_some_iff.mp hx
      rw [hr]
      exact congrArg some hsequence

end Records

/-! ## The output -/

/-- The attempt the last heading names. -/
def headingFrom : Option Uuid → List Line → Option Uuid
  | current, [] => current
  | _, .attempt id :: rest => headingFrom (some id) rest
  | current, .record _ _ :: rest => headingFrom current rest
  | current, .incomplete _ :: rest => headingFrom current rest

/-- The records of a stream printed under the headings of an attempt. -/
def printedFrom (attempt : Uuid) (stream : Stream) : Option Uuid → List Line → List LogRecord
  | _, [] => []
  | _, .attempt id :: rest => printedFrom attempt stream (some id) rest
  | current, .record stream' r :: rest =>
    if current = some attempt ∧ stream' = stream then r :: printedFrom attempt stream current rest
    else printedFrom attempt stream current rest
  | current, .incomplete _ :: rest => printedFrom attempt stream current rest

/-- **The records printed of a stream of an attempt**: those below its headings. -/
def printed (out : List Line) (attempt : Uuid) (stream : Stream) : List LogRecord :=
  printedFrom attempt stream none out

section Output

variable {attempt : Uuid} {stream : Stream} {current : Option Uuid} {out lines : List Line}

theorem headingFrom_append :
    headingFrom current (out ++ lines) = headingFrom (headingFrom current out) lines := by
  induction out generalizing current with
  | nil => rfl
  | cons line out ih => cases line <;> exact ih

theorem printedFrom_append : printedFrom attempt stream current (out ++ lines) =
    printedFrom attempt stream current out ++
      printedFrom attempt stream (headingFrom current out) lines := by
  induction out generalizing current with
  | nil => rfl
  | cons line out ih =>
    cases line with
    | attempt id => exact ih
    | incomplete gaps => exact ih
    | record stream' r =>
      show (if _ then _ else _) = (if _ then _ else _) ++ _
      split_ifs
      · exact congrArg (r :: ·) ih
      · exact ih

theorem headingFrom_records {stream' : Stream} :
    headingFrom current (records.map (.record stream')) = current := by
  induction records with
  | nil => rfl
  | cons r rest ih => exact ih

theorem printedFrom_records {stream' : Stream} :
    printedFrom attempt stream current (records.map (.record stream')) =
      if current = some attempt ∧ stream' = stream then records else [] := by
  induction records with
  | nil => split <;> rfl
  | cons r rest ih =>
    rw [List.map_cons, printedFrom, ih]
    split_ifs <;> rfl

theorem headingFrom_completion (c : LogCompletion) : headingFrom current c.lines = current := by
  unfold LogCompletion.lines
  split <;> rfl

theorem printedFrom_completion (c : LogCompletion) :
    printedFrom attempt stream current c.lines = [] := by
  unfold LogCompletion.lines
  split <;> rfl

/-- Nothing is printed of an attempt without a heading. -/
theorem printedFrom_unnamed (h : .attempt attempt ∉ out) (hcurrent : current ≠ some attempt) :
    printedFrom attempt stream current out = [] := by
  induction out generalizing current with
  | nil => rfl
  | cons line out ih =>
    rw [List.mem_cons, not_or] at h
    cases line with
    | attempt id => exact ih h.2 fun heq => h.1 (congrArg Line.attempt (Option.some.inj heq)).symm
    | incomplete gaps => exact ih h.2 hcurrent
    | record stream' r =>
      rw [printedFrom, if_neg fun hboth => hcurrent hboth.1]
      exact ih h.2 hcurrent

end Output

end Dispatch
