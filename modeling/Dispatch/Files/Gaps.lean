import Dispatch.Files.Catalog

/-!
# The gaps a completion claims

A segment is registered with the records that were dropped from it. A
completion lists the dropped records once more, and may not hide any: each gap
that is known from a segment is looked up among the gaps it claims. The look-up
goes through the claims once, from the first record of the gap on, and moves on
to the next claim where one ends.

That one pass is enough because of the order the claims are in. What
`normalizeCompletion` lets through is sorted by stream and first record, and it
compares neighbours only; in that order, claims of one stream that are apart
from their neighbours are apart from each other (`disjointGaps_apart`), so that
a claim that begins after the record looked for leaves it uncovered for good.

The code counts in 64 bits, where the record after a claim may wrap. It is
computed only after a claim that ends before the gap does.
-/

namespace Dispatch

open Txn

variable {sha : Uuid → ℕ} {w : World} {stream : Stream} {claims : List CompletionLogGap}

/-! ## In 64 bits -/

/-- `coversFrom` in 64 bits. -/
def coversFrom64 (stream : Stream) (last : ℤ) (next : ℤ) : List CompletionLogGap → Bool
  | [] => false
  | claim :: rest =>
    if claim.stream ≠ stream ∨ (claim.last : ℤ) < next then coversFrom64 stream last next rest
    else if next < claim.first then false
    else if last ≤ claim.last then true
    else coversFrom64 stream last (int64 (claim.last + 1)) rest

/-- **`completionCoversSegmentGap` in 64 bits**: the numbers of a registered gap
are unsigned, those of a claim are not. -/
def completionCoversSegmentGap64 (claims : List CompletionLogGap) (stream : Stream)
    (known : LogSequenceGap) : Bool :=
  coversFrom64 stream (int64 known.lastSequence) (int64 known.firstSequence) claims

/-- **What registration asks of a gap.** -/
def LogSequenceGap.InRange (known : LogSequenceGap) : Prop :=
  1 ≤ known.firstSequence ∧ known.firstSequence ≤ known.lastSequence ∧ known.lastSequence < 2 ^ 63

theorem coversFrom64_eq {last : ℕ} (hlast : last < 9223372036854775808) (next : ℕ) :
    coversFrom64 stream last next claims = coversFrom stream last next claims := by
  induction claims generalizing next with
  | nil => rfl
  | cons claim rest ih =>
    simp only [coversFrom64, coversFrom, Int.ofNat_lt, Int.ofNat_le, ih]
    split_ifs with hskip hlater hends
    · rfl
    · rfl
    · rfl
    · have hwrap : int64 ((claim.last : ℤ) + 1) = ((claim.last + 1 : ℕ) : ℤ) :=
        int64_of_lt (by omega) (by omega)
      rw [hwrap, ih]

theorem completionCoversSegmentGap64_eq {known : LogSequenceGap} (h : known.InRange) :
    completionCoversSegmentGap64 claims stream known
      = completionCoversSegmentGap claims stream known := by
  obtain ⟨-, hrange, hlast⟩ := h
  unfold completionCoversSegmentGap64 completionCoversSegmentGap
  rw [int64_of_lt (by omega) (by omega), int64_of_lt (by omega) (by omega)]
  exact coversFrom64_eq hlast _

/-! ## One pass -/

/-- The record is one of a claimed gap of the stream. -/
def CompletionLogGap.Covers (claim : CompletionLogGap) (stream : Stream) (n : ℕ) : Prop :=
  claim.stream = stream ∧ claim.first ≤ n ∧ n ≤ claim.last

/-- **Neighbours that are apart are all apart**, in the order of gaps. -/
theorem disjointGaps_apart (hsorted : claims.Pairwise (fun g h => gapOrder g h = true))
    (h : disjointGaps claims = true) :
    (∀ g ∈ claims, g.first ≤ g.last) ∧
      claims.Pairwise (fun g h => g.stream = h.stream → g.last < h.first) := by
  induction claims with
  | nil => simp
  | cons g rest ih =>
    cases rest with
    | nil =>
      simp only [disjointGaps, Bool.and_eq_true, decide_eq_true_eq] at h
      simp [h.2]
    | cons g' rest =>
      simp only [disjointGaps, Bool.and_eq_true, decide_eq_true_eq, Bool.not_eq_true',
        Bool.and_eq_false_iff, decide_eq_false_iff_not, not_le] at h
      obtain ⟨⟨⟨-, hrange⟩, hnext⟩, hrest⟩ := h
      obtain ⟨hfirst, hsorted⟩ := List.pairwise_cons.mp hsorted
      obtain ⟨hranges, hapart⟩ := ih hsorted hrest
      refine ⟨List.forall_mem_cons.mpr ⟨hrange, hranges⟩, List.pairwise_cons.mpr ⟨?_, hapart⟩⟩
      have hneighbour : g.stream = g'.stream → g.last < g'.first := fun heq =>
        hnext.resolve_left fun hne => hne heq
      intro k hk hstream
      obtain rfl | hk := List.mem_cons.mp hk
      · exact hneighbour hstream
      · -- The streams are in order, so that the neighbour is of the same one.
        have hbefore := hfirst g' List.mem_cons_self
        have hafter := (List.pairwise_cons.mp hsorted).1 k hk
        have hsame : g.stream = g'.stream := by
          unfold gapOrder at hbefore hafter
          rw [hstream] at hbefore ⊢
          cases hg' : g'.stream <;> cases hk' : k.stream <;> simp_all
        have hlast := (List.pairwise_cons.mp hapart).1 k hk (hsame.symm.trans hstream)
        have hwithin := hranges g' List.mem_cons_self
        have hgap := hneighbour hsame
        omega

/-- **The pass decides** whether every record from `next` on is covered. -/
theorem coversFrom_iff (hranges : ∀ g ∈ claims, g.first ≤ g.last)
    (hapart : claims.Pairwise (fun g h => g.stream = h.stream → g.last < h.first)) {last next : ℕ}
    (hnext : next ≤ last) :
    coversFrom stream last next claims = true ↔
      ∀ n, next ≤ n → n ≤ last → ∃ g ∈ claims, g.Covers stream n := by
  induction claims generalizing next with
  | nil =>
    refine iff_of_false (by simp [coversFrom]) fun h => ?_
    obtain ⟨g, hg, -⟩ := h next (le_refl _) hnext
    exact absurd hg List.not_mem_nil
  | cons claim rest ih =>
    obtain ⟨hrange, hranges⟩ := List.forall_mem_cons.mp hranges
    obtain ⟨hafter, hapart⟩ := List.pairwise_cons.mp hapart
    -- Where the claim covers nothing, the rest of the claims has to.
    have hrest : ∀ m, m ≤ last → (∀ n, m ≤ n → ¬ claim.Covers stream n) →
        (coversFrom stream last m rest = true ↔
          ∀ n, m ≤ n → n ≤ last → ∃ g ∈ claim :: rest, g.Covers stream n) := by
      intro m hm hnone
      rw [ih hranges hapart hm]
      refine forall_congr' fun n => forall_congr' fun hn => forall_congr' fun _ => ?_
      simp only [List.exists_mem_cons_iff, hnone n hn, false_or]
    unfold coversFrom
    split_ifs with hskip hlater hends
    · refine hrest next hnext fun n hn hcovers => ?_
      obtain hother | hbefore := hskip
      · exact hother hcovers.1
      · have hwithin := hcovers.2.2
        omega
    · -- The claims that follow begin even later.
      refine iff_of_false (by simp) fun h => ?_
      obtain ⟨g, hg, hstream, hfirst, -⟩ := h next (le_refl _) hnext
      obtain rfl | hg := List.mem_cons.mp hg
      · omega
      · simp only [not_or, not_not] at hskip
        have hlast := hafter g hg (hskip.1.trans hstream.symm)
        omega
    · simp only [not_or, not_not] at hskip
      refine iff_of_true rfl fun n hn hlast => ⟨claim, List.mem_cons_self, hskip.1, ?_, ?_⟩ <;>
        omega
    · simp only [not_or, not_not] at hskip
      rw [hrest (claim.last + 1) (by omega) fun n hn hcovers => by
        have hwithin := hcovers.2.2
        omega]
      refine ⟨fun h n hn hlast => ?_, fun h n hn hlast => h n (by omega) hlast⟩
      rcases Nat.lt_or_ge claim.last n with hbeyond | hwithin
      · exact h n hbeyond hlast
      · exact ⟨claim, List.mem_cons_self, hskip.1, by omega, hwithin⟩

/-! ## What is claimed and what is known -/

theorem normalizeCompletion_gaps {r : CompletionRequest} {p : CompletionPayload}
    (h : normalizeCompletion r = .ok p) :
    (∀ g ∈ p.gaps, g.first ≤ g.last) ∧
      p.gaps.Pairwise (fun g h => g.stream = h.stream → g.last < h.first) := by
  simp only [normalizeCompletion, bind_ok, require_ok, pure_ok] at h
  obtain ⟨_, -, _, -, _, -, _, -, _, -, _, hdisjoint, _, -, rfl⟩ := h
  have htotal : Std.Total (fun g h : CompletionLogGap => gapOrder g h = true) := by
    refine ⟨fun g h => ?_⟩
    unfold gapOrder
    cases g.stream <;> cases h.stream <;> simp [Nat.le_total]
  have htrans : IsTrans CompletionLogGap (fun g h => gapOrder g h = true) := by
    refine ⟨fun g h k hgh hhk => ?_⟩
    unfold gapOrder at hgh hhk ⊢
    cases hg : g.stream <;> cases hh : h.stream <;> cases hk : k.stream <;> simp_all <;> omega
  exact disjointGaps_apart (List.pairwise_insertionSort _ r.gaps) hdisjoint

/-- No record on file has a number beyond 64 bits. -/
def Files.Bounded (f : Files) : Prop :=
  ∀ id l, f.logSegments.lookup id = some l → l.claims.lastSequence < 2 ^ 63

theorem Files.Bounded.steps {op : Op} {authority : AttemptAuthority} {f f' : Files}
    (hf : f.Bounded) (h : Files.Steps op authority f f') : f'.Bounded := by
  induction h with
  | refl => exact hf
  | tail _ hstep ih =>
    cases hstep with
    | register segment row hfree h =>
      intro id l hl
      simp only [Table.lookup_insert_ite] at hl
      split_ifs at hl
      · exact Option.some.inj hl ▸ h.bounded
      · exact ih id l hl
    | _ => exact ih

theorem Reachable.bounded (h : Reachable sha w) : w.store.files.Bounded := by
  induction h with
  | start => exact fun _ _ hl => absurd hl.symm (Option.some_ne_none _)
  | step hw hstep ih =>
    obtain ⟨-, op, reply, hexec⟩ := hstep
    obtain hsame | ⟨worker, authority, -, -, hsteps⟩ := op.exec_files hexec
    · exact hsame ▸ ih
    · exact ih.steps hsteps

/-- **Every gap on file is in range.** -/
theorem Reachable.gaps_inRange (h : Reachable sha w) {id : Uuid} {l : LogSegmentRow}
    (hl : w.store.logSegments.lookup id = some l) {g : LogSequenceGap} (hg : g ∈ l.claims.gaps) :
    g.InRange := by
  obtain ⟨hfirst, hrange, hlast⟩ := (h.catalogued.segments id l hl).gaps.2 g hg
  have hpositive := (h.catalogued.segments id l hl).range.1
  exact ⟨hpositive.trans hfirst, hrange, lt_of_le_of_lt hlast (h.bounded id l hl)⟩

/-- **The look-up of a known gap is exact.** Whatever claims a completion was
normalised to, a gap as registration admits it is found, in 64 bits, exactly if
each of its records is one of a claimed gap of the stream. All gaps on file are
such gaps. -/
theorem gap_coverage_exact {r : CompletionRequest} {p : CompletionPayload}
    (hp : normalizeCompletion r = .ok p) :
    (∀ (stream : Stream) (known : LogSequenceGap), known.InRange →
      (completionCoversSegmentGap64 p.gaps stream known = true ↔
        ∀ n, known.firstSequence ≤ n → n ≤ known.lastSequence →
          ∃ g ∈ p.gaps, g.stream = stream ∧ g.first ≤ n ∧ n ≤ g.last) ∧
      completionCoversSegmentGap p.gaps stream known
        = completionCoversSegmentGap64 p.gaps stream known) ∧
    ∀ (sha : Uuid → ℕ) (w : World), Reachable sha w → ∀ id l,
      w.store.logSegments.lookup id = some l → ∀ g ∈ l.claims.gaps, g.InRange := by
  obtain ⟨hranges, hapart⟩ := normalizeCompletion_gaps hp
  refine ⟨fun stream known hknown => ?_, fun _ _ hw _ _ hl _ hg => hw.gaps_inRange hl hg⟩
  rw [completionCoversSegmentGap64_eq hknown]
  exact ⟨coversFrom_iff hranges hapart hknown.2.1, rfl⟩

/-- A lost attempt with two claims that touch, up to the last number there is. -/
def Sample.lossy : CompletionRequest :=
  { Sample.success with
    reason := some .runtimeUnavailable
    logsComplete := false
    gaps := [⟨.stdout, 5, 9223372036854775807⟩, ⟨.stderr, 3, 3⟩, ⟨.stdout, 2, 4⟩] }

/-- The two claims together cover a gap that neither does. -/
theorem sample_gap_coverage_exact : ∃ p, normalizeCompletion Sample.lossy = .ok p ∧
    completionCoversSegmentGap64 p.gaps .stdout ⟨3, 9223372036854775807⟩ = true ∧
    completionCoversSegmentGap64 p.gaps .stderr ⟨3, 4⟩ = false := by
  have hcheck : (normalizeCompletion Sample.lossy).toOption.any (fun p => decide (p.gaps =
      [⟨.stderr, 3, 3⟩, ⟨.stdout, 2, 4⟩, ⟨.stdout, 5, 9223372036854775807⟩])) = true := by
    decide +kernel
  simp only [Option.any_eq_true, decide_eq_true_eq] at hcheck
  obtain ⟨p, hp, hgaps⟩ := hcheck
  rw [toOption_eq_some] at hp
  have hexact := (gap_coverage_exact hp).1
  refine ⟨p, hp, (hexact .stdout ⟨3, _⟩ ⟨by decide, by decide, by decide⟩).1.mpr ?_,
    Bool.eq_false_iff.mpr fun hfound => ?_⟩
  · intro n hn hlast
    rw [hgaps]
    rcases Nat.lt_or_ge 4 n with hsecond | hfirst
    · exact ⟨⟨.stdout, 5, _⟩, by simp, rfl, hsecond, hlast⟩
    · exact ⟨⟨.stdout, 2, 4⟩, by simp, rfl, by dsimp only at hn ⊢; omega, hfirst⟩
  · obtain ⟨g, hg, hstream, hfirst, hlast⟩ := (hexact .stderr ⟨3, 4⟩
      ⟨by decide, by decide, by decide⟩).1.mp hfound 4 (by decide) (by decide)
    rw [hgaps] at hg
    simp only [List.mem_cons, List.not_mem_nil, or_false] at hg
    obtain rfl | rfl | rfl := hg
    · exact absurd hlast (by decide)
    · exact absurd hstream (by decide)
    · exact absurd hstream (by decide)

end Dispatch
