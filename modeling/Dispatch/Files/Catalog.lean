import Dispatch.Files.Steps
import Dispatch.Outcome.Phases

/-!
# The catalogue of log segments

The segments registered for a stream lie one after the other from record one
on: a registration must begin after the largest record registered, and the
attempt it is for is locked meanwhile. Each catalogues one verified log of its
own attempt.

A completion that claims complete logs is checked against the catalogue and the
uploads as they are when it is accepted. They stay so, because an attempt that
has ended makes no more entries.
-/

namespace Dispatch

open Txn

variable {f f' : Files} {attempt : Uuid} {l : LogSegmentRow} {authority : AttemptAuthority}
  {s : Store} {w : World}

variable {sha : Uuid → ℕ} {op : Op} {now : Time}

/-! ## Streams -/

/-- The segment is one of a stream of an attempt. -/
structure LogSegmentRow.Of (l : LogSegmentRow) (attempt : Uuid) (stream : Stream) : Prop where
  attempt : l.claims.authority.attemptID = attempt
  stream : l.claims.stream = stream

/-- The record is in the segment. -/
def LogSegmentRow.Covers (l : LogSegmentRow) (n : ℕ) : Prop :=
  l.claims.firstSequence ≤ n ∧ n ≤ l.claims.lastSequence

theorem le_foldr_max {l : List ℕ} {n : ℕ} : n ≤ l.foldr max 0 ↔ n = 0 ∨ ∃ x ∈ l, n ≤ x := by
  induction l with
  | nil => simp
  | cons x l ih =>
    rw [List.foldr_cons, le_max_iff, ih]
    simp only [List.mem_cons, exists_eq_or_imp]
    tauto

/-- **What is before the next record** is not after the last of some segment. -/
theorem Files.lt_next {stream : Stream} {n : ℕ} :
    n < f.next attempt stream ↔ n = 0 ∨ ∃ id l, f.logSegments.lookup id = some l ∧
      l.Of attempt stream ∧ n ≤ l.claims.lastSequence := by
  rw [Files.next, Nat.lt_add_one_iff, le_foldr_max]
  refine or_congr_right ⟨?_, ?_⟩
  · rintro ⟨x, hx, hn⟩
    obtain ⟨⟨id, l⟩, hl, rfl⟩ := List.mem_map.mp hx
    obtain ⟨hl, hof⟩ := (Table.mem_select ..).mp hl
    simp only [Bool.and_eq_true, decide_eq_true_eq] at hof
    exact ⟨id, l, hl, ⟨hof.1, hof.2⟩, hn⟩
  · rintro ⟨id, l, hl, hof, hn⟩
    refine ⟨l.claims.lastSequence, List.mem_map.mpr ⟨(id, l), ?_, rfl⟩, hn⟩
    exact (Table.mem_select ..).mpr ⟨hl, by simp [hof.attempt, hof.stream]⟩

/-- **The gaps of a segment** are increasing, apart and inside it. -/
theorem validGaps_sound {first last previous : ℕ} {gaps : List LogSequenceGap}
    (h : validGaps first last previous gaps = true) :
    gaps.Pairwise (fun g g' => g.lastSequence < g'.firstSequence) ∧
      ∀ g ∈ gaps, previous < g.firstSequence ∧ first ≤ g.firstSequence ∧
        g.firstSequence ≤ g.lastSequence ∧ g.lastSequence ≤ last := by
  induction gaps generalizing previous with
  | nil => simp
  | cons g gaps ih =>
    simp only [validGaps, Bool.and_eq_true, decide_eq_true_eq] at h
    obtain ⟨⟨⟨⟨hfirst, hlast⟩, hrange⟩, hprevious⟩, hrest⟩ := h
    obtain ⟨hsorted, hinside⟩ := ih hrest
    refine ⟨List.pairwise_cons.mpr ⟨fun g' hg' => (hinside g' hg').1, hsorted⟩, ?_⟩
    intro g' hg'
    obtain rfl | hg' := List.mem_cons.mp hg'
    · exact ⟨hprevious, hfirst, hrange, hlast⟩
    · obtain ⟨hafter, hinside⟩ := hinside g' hg'
      exact ⟨by omega, hinside⟩

/-! ## The catalogue -/

/-- **A segment on file**: its records, its gaps and the log it catalogues. -/
structure Files.Segment (f : Files) (l : LogSegmentRow) : Prop where
  range : 1 ≤ l.claims.firstSequence ∧ l.claims.firstSequence ≤ l.claims.lastSequence
  gaps : l.claims.gaps.Pairwise (fun g g' => g.lastSequence < g'.firstSequence) ∧
    ∀ g ∈ l.claims.gaps, l.claims.firstSequence ≤ g.firstSequence ∧
      g.firstSequence ≤ g.lastSequence ∧ g.lastSequence ≤ l.claims.lastSequence
  artifact : ∃ a u, f.artifacts.lookup l.claims.artifactID = some a ∧ a.upload = l.upload ∧
    f.uploads.lookup l.upload = some u ∧ u.claims.authority = l.claims.authority ∧
    u.claims.kind = .log ∧ u.claims.logicalName = l.claims.stream.logName

/-- **The catalogue**: every segment is in order, no log is catalogued twice,
and the segments of a stream cover each record from one up to the last exactly
once. -/
structure Files.Catalogued (f : Files) : Prop where
  segments : ∀ id l, f.logSegments.lookup id = some l → f.Segment l
  once : ∀ id id' l l', f.logSegments.lookup id = some l → f.logSegments.lookup id' = some l' →
    l.claims.artifactID = l'.claims.artifactID → id = id'
  covered : ∀ attempt stream n, 1 ≤ n → n < f.next attempt stream →
    ∃ id l, f.logSegments.lookup id = some l ∧ l.Of attempt stream ∧ l.Covers n
  apart : ∀ attempt stream n id id' l l', f.logSegments.lookup id = some l →
    f.logSegments.lookup id' = some l' → l.Of attempt stream → l'.Of attempt stream →
    l.Covers n → l'.Covers n → id = id'

theorem Files.Segment.later (h : f.Segment l) (hlater : f.Later f') : f'.Segment l where
  range := h.range
  gaps := h.gaps
  artifact := by
    obtain ⟨a, u, ha, hupload, hu, hrest⟩ := h.artifact
    exact ⟨a, u, hlater.artifacts _ _ ha, hupload, hlater.uploads _ _ hu, hrest⟩

theorem Files.Registers.segment (h : f.Registers authority l) : f.Segment l where
  range := ⟨h.valid.1, h.valid.2.1⟩
  gaps := by
    obtain ⟨hsorted, hinside⟩ := validGaps_sound h.valid.2.2
    exact ⟨hsorted, fun g hg => (hinside g hg).2⟩
  artifact := by
    obtain ⟨a, u, ha, hupload, hu, hmine, hrest⟩ := h.artifact
    exact ⟨a, u, ha, hupload, hu, hmine.trans h.mine.symm, hrest⟩

/-- A segment begins after everything registered for its stream. -/
theorem Files.Registers.after (h : f.Registers authority l) {stream : Stream}
    (hof : l.Of attempt stream) : l.claims.firstSequence = f.next attempt stream := by
  rw [← hof.attempt, ← hof.stream, h.mine]
  exact h.follows

/-- Entries in other tables leave the segments as they are. -/
theorem Files.Catalogued.same (hc : f.Catalogued) (hlater : f.Later f')
    (hsame : f'.logSegments = f.logSegments) : f'.Catalogued where
  segments id l hl := (hc.segments id l (hsame ▸ hl)).later hlater
  once := hsame ▸ hc.once
  covered := by
    unfold Files.next Files.segmentsOf
    rw [hsame]
    exact hc.covered
  apart := hsame ▸ hc.apart

/-- **A registration continues its stream.** -/
theorem Files.Catalogued.register (hc : f.Catalogued) {segment : Uuid}
    (hfree : f.logSegments.lookup segment = none) (h : f.Registers authority l) :
    { f with logSegments := AList.insert segment l f.logSegments }.Catalogued := by
  have hlater : f.Later { f with logSegments := AList.insert segment l f.logSegments } :=
    { Files.Later.refl f with logSegments := .insert l hfree }
  have hcases : ∀ id l', AList.lookup id (AList.insert segment l f.logSegments) = some l' →
      id = segment ∧ l' = l ∨ f.logSegments.lookup id = some l' := by
    intro id l' hl'
    rw [Table.lookup_insert_ite] at hl'
    split_ifs at hl' with hid
    · exact .inl ⟨hid, (Option.some.inj hl').symm⟩
    · exact .inr hl'
  -- What is registered ends before the new segment begins.
  have hbefore : ∀ attempt stream n id l', f.logSegments.lookup id = some l' →
      l'.Of attempt stream → l.Of attempt stream → l'.Covers n → ¬ l.Covers n := by
    intro attempt stream n id l' hl' hof' hof hcovers' hcovers
    have hlt : n < f.next attempt stream :=
      Files.lt_next.mpr (.inr ⟨id, l', hl', hof', hcovers'.2⟩)
    have hfirst := h.after hof
    exact absurd hcovers.1 (by omega)
  refine ⟨fun id l' hl' => ?_, fun id id' l₁ l₂ hl₁ hl₂ hartifact => ?_, ?_, ?_⟩
  · obtain ⟨-, rfl⟩ | hl' := hcases id l' hl'
    · exact h.segment.later hlater
    · exact (hc.segments id l' hl').later hlater
  · obtain ⟨rfl, rfl⟩ | hrow₁ := hcases id l₁ hl₁ <;>
      obtain ⟨rfl, rfl⟩ | hrow₂ := hcases id' l₂ hl₂
    · rfl
    · exact absurd hartifact.symm (h.unclaimed id' l₂ hrow₂)
    · exact absurd hartifact (h.unclaimed id l₁ hrow₁)
    · exact hc.once id id' l₁ l₂ hrow₁ hrow₂ hartifact
  · intro attempt stream n hn hlt
    have hold : n < f.next attempt stream → ∃ id l', AList.lookup id (AList.insert segment l
        f.logSegments) = some l' ∧ l'.Of attempt stream ∧ l'.Covers n := by
      intro hlt
      obtain ⟨id, l', hl', hof, hcovers⟩ := hc.covered attempt stream n hn hlt
      exact ⟨id, l', hlater.logSegments id l' hl', hof, hcovers⟩
    obtain rfl | ⟨id, l', hl', hof, hlast⟩ := Files.lt_next.mp hlt
    · omega
    · obtain ⟨rfl, rfl⟩ | hl' := hcases id l' hl'
      · by_cases hfirst : l'.claims.firstSequence ≤ n
        · exact ⟨id, l', hl', hof, hfirst, hlast⟩
        · exact hold (by rw [← h.after hof]; omega)
      · exact hold (Files.lt_next.mpr (.inr ⟨id, l', hl', hof, hlast⟩))
  · intro attempt stream n id id' l₁ l₂ hl₁ hl₂ hof₁ hof₂ hcovers₁ hcovers₂
    obtain ⟨rfl, rfl⟩ | hrow₁ := hcases id l₁ hl₁ <;>
      obtain ⟨rfl, rfl⟩ | hrow₂ := hcases id' l₂ hl₂
    · rfl
    · exact absurd hcovers₁ (hbefore attempt stream n id' l₂ hrow₂ hof₂ hof₁ hcovers₂)
    · exact absurd hcovers₂ (hbefore attempt stream n id l₁ hrow₁ hof₁ hof₂ hcovers₁)
    · exact hc.apart attempt stream n id id' l₁ l₂ hrow₁ hrow₂ hof₁ hof₂ hcovers₁ hcovers₂

theorem Files.Catalogued.steps (hc : f.Catalogued) (h : Files.Steps op authority f f') :
    f'.Catalogued := by
  induction h with
  | refl => exact hc
  | tail _ hstep ih =>
    have hlater := hstep.later
    cases hstep with
    | register id l hfree h => exact ih.register hfree h
    | _ => exact ih.same hlater rfl

theorem Reachable.catalogued (h : Reachable sha w) : w.store.files.Catalogued := by
  induction h with
  | start =>
    refine ⟨fun _ _ h => (nomatch h), fun _ _ _ _ h => (nomatch h),
      fun attempt stream n hn hlt => ?_, fun _ _ _ _ _ _ _ h => (nomatch h)⟩
    obtain rfl | ⟨id, l, hl, -⟩ := Files.lt_next.mp hlt
    · omega
    · exact (nomatch hl)
  | step hw hstep ih =>
    obtain ⟨-, op, reply, hexec⟩ := hstep
    obtain hsame | ⟨worker, authority, -, -, hsteps⟩ := op.exec_files hexec
    · exact hsame ▸ ih
    · exact ih.steps hsteps

/-! ## After the end -/

/-- What is granted is granted to an active attempt. -/
theorem Granted.active {worker : Uuid} (h : Granted s now worker authority) :
    ∃ a, s.attempts.lookup authority.attemptID = some a ∧ a.state.isActive = true := by
  obtain ⟨a, j, ha, -, haccepted⟩ := h.gate
  obtain ⟨l, hl, -, hactive, -⟩ := leaseDecision_eq_accepted.mp haccepted
  obtain rfl := Option.some.inj hl
  exact ⟨a, ha, hactive⟩

/-- **An attempt that has ended makes no entries.** -/
theorem Op.exec_files_ended {s' : Store} {reply : Reply}
    (h : op.exec sha s now = .ok (s', reply)) {a : AttemptRow}
    (ha : s.attempts.lookup attempt = some a) (hended : a.state.isActive = false) :
    s.files.Later s'.files ∧
    (∀ id u, s'.uploads.lookup id = some u → u.claims.authority.attemptID = attempt →
      s.uploads.lookup id = some u) ∧
    ∀ id l, s'.logSegments.lookup id = some l → l.claims.authority.attemptID = attempt →
      s.logSegments.lookup id = some l := by
  obtain hsame | ⟨worker, authority, -, hgranted, hsteps⟩ := op.exec_files h
  · refine ⟨hsame ▸ .refl _, fun id u hu _ => ?_, fun id l hl _ => ?_⟩
    · exact (congrArg (fun f => AList.lookup id (Files.uploads f)) hsame).symm.trans hu
    · exact (congrArg (fun f => AList.lookup id (Files.logSegments f)) hsame).symm.trans hl
  · have hother : ∀ b : AttemptAuthority, b = authority → b.attemptID ≠ attempt := by
      rintro _ rfl rfl
      obtain ⟨a', ha', hactive⟩ := hgranted.active
      obtain rfl := Option.mem_unique ha ha'
      exact absurd (hactive.symm.trans hended) (by simp)
    refine ⟨hsteps.later, fun id u hu hattempt => ?_, fun id l hl hattempt => ?_⟩
    · exact (hsteps.found.1 id u hu).resolve_right fun hmine => hother _ hmine hattempt
    · exact (hsteps.found.2 id l hl).resolve_right fun hmine => hother _ hmine hattempt

/-- The catalogue of an attempt that has ended stays as it is. -/
theorem Reachable.ended_segments {w' : World} (h : Reachable sha w)
    (hlater : World.Later sha w w') {a : AttemptRow}
    (ha : w.store.attempts.lookup attempt = some a) (hended : a.state.isActive = false) {id : Uuid}
    (hl : w'.store.logSegments.lookup id = some l)
    (hattempt : l.claims.authority.attemptID = attempt) : w.store.logSegments.lookup id = some l
    := by
  induction hlater with
  | refl => exact hl
  | tail hrun hstep ih =>
    obtain ⟨-, op, reply, hexec⟩ := hstep
    obtain ⟨a', ha', hlast⟩ := (h.later_ledger hrun).attempts attempt a ha
    have hended' : a'.state.isActive = false := by rw [hlast.ended hended, hended]
    exact ih ((Op.exec_files_ended hexec ha' hended').2.2 id l hl hattempt)

/-! ## Complete logs -/

/-- **The logs of an attempt are complete**: nothing was dropped from what is
catalogued, and every log that was declared is verified and catalogued. -/
structure Files.LogsComplete (f : Files) (attempt : Uuid) : Prop where
  whole : ∀ id l, f.logSegments.lookup id = some l → l.claims.authority.attemptID = attempt →
    l.claims.gaps = []
  catalogued : ∀ upload u, f.uploads.lookup upload = some u →
    u.claims.authority.attemptID = attempt → u.claims.kind = .log →
    ∃ artifact a id l, f.artifacts.lookup artifact = some a ∧ a.upload = upload ∧
      f.logSegments.lookup id = some l ∧ l.claims.artifactID = artifact

theorem mem_attemptSegments {id : Uuid} (hl : s.logSegments.lookup id = some l)
    (hattempt : l.claims.authority.attemptID = attempt) : l ∈ attemptSegments s attempt := by
  have hstream : ∀ stream, l.claims.stream = stream →
      l ∈ (streamSegments s attempt stream).map Prod.snd := by
    intro stream hstream
    refine List.mem_map.mpr ⟨(id, l), (Table.mem_select ..).mpr ⟨hl, ?_⟩, rfl⟩
    simp [hattempt, hstream]
  rw [attemptSegments, List.mem_append, List.mem_insertionSort, List.mem_insertionSort]
  cases hcase : l.claims.stream with
  | stderr => exact .inl (hstream _ hcase)
  | stdout => exact .inr (hstream _ hcase)

/-- **What a claim of complete logs is checked against.** -/
theorem completionManifest_logsComplete {r : CompletionRequest} {p : CompletionPayload} {j : JobRow}
    {state : AttemptState} {completed : Time} {m : ResultManifest}
    (h : completionManifest s r p j state completed = .ok m)
    (hnormal : normalizeCompletion r = .ok p) (hcomplete : r.logsComplete = true) :
    s.files.LogsComplete r.authority.attemptID := by
  have hgaps : p.gaps = [] := by
    simp only [normalizeCompletion, bind_ok, require_ok, pure_ok] at hnormal
    obtain ⟨_, -, _, -, _, -, _, -, _, hgaps, _, -, _, -, rfl⟩ := hnormal
    simp only [hgaps hcomplete, List.insertionSort_nil]
  simp only [completionManifest, bind_ok, require_ok] at h
  obtain ⟨outputs, -, _, -, _, -, logs, hlogs, _, hpending, -⟩ := h
  refine ⟨fun id l hl hattempt => ?_, fun upload u hu hattempt hkind => ?_⟩
  · obtain ⟨x, -, hx⟩ := exists_mem_of_mapM_eq_ok hlogs (mem_attemptSegments hl hattempt)
    simp only [completionSegment, bind_ok, require_ok] at hx
    obtain ⟨_, -, _, -, _, hcovered, -⟩ := hx
    refine List.eq_nil_iff_forall_not_mem.mpr fun g hg => ?_
    have hfalse := hcovered g hg
    rw [hgaps] at hfalse
    exact absurd hfalse (by simp [completionCoversSegmentGap, coversFrom])
  · have hdone := hpending hcomplete
    simp only [logsPending, List.any_eq_false, Bool.and_eq_true, decide_eq_true_eq,
      not_and] at hdone
    have hmem : (upload, u) ∈ attemptUploads s r.authority.attemptID :=
      (Table.mem_select ..).mpr ⟨hu, decide_eq_true hattempt⟩
    have hthis := hdone (upload, u) hmem hkind
    split at hthis
    · exact absurd rfl hthis
    · rename_i artifact a hartifact
      obtain ⟨ha, hupload⟩ := (Table.mem_select ..).mp
        (List.mem_of_mem_head? (Option.mem_def.mpr hartifact))
      simp only [Bool.not_eq_true', Bool.not_eq_false, List.any_eq_true, decide_eq_true_eq] at hthis
      obtain ⟨⟨id, l⟩, hl, hsame⟩ := hthis
      exact ⟨artifact, a, id, l, ha, of_decide_eq_true hupload, AList.mem_lookup_iff.mpr hl, hsame⟩

theorem normalizeCompletion_logsComplete {r : CompletionRequest} {p : CompletionPayload}
    (h : normalizeCompletion r = .ok p) : p.logsComplete = r.logsComplete := by
  simp only [normalizeCompletion, bind_ok, pure_ok] at h
  obtain ⟨-, -, -, -, -, -, -, -, -, -, -, -, _, -, rfl⟩ := h
  rfl

/-- The completions of a transaction, each with what its manifest was made of. -/
theorem Op.exec_completions {s' : Store} {reply : Reply}
    (h : op.exec sha s now = .ok (s', reply)) {c : CompletionRow}
    (hc : s'.completions.lookup attempt = some c) :
    s.completions.lookup attempt = some c ∨ s'.files = s.files ∧
      (c.payloadDigest.logsComplete = true → s.files.LogsComplete attempt) := by
  by_cases hop : ∃ completed identity r, op = .complete completed identity r
  · obtain ⟨completed, identity, r, rfl⟩ := hop
    have hfiles : s'.files = s.files := by
      refine (Op.exec_writes h).files ?_
      simp only [Op.footprint]
      decide
    simp only [Op.exec, bind_ok, pure_pair_ok] at h
    obtain ⟨⟨t, result⟩, hcomplete, rfl, -⟩ := h
    obtain ⟨p, a, j, m, hcommit, -⟩ | ⟨rfl, -⟩ | ⟨rfl, -⟩ := completeAttempt_cases hcomplete
    · have hrow : t.toLedger.completions.lookup attempt = some c := hc
      simp only [hcommit.toLedger, Ledger.complete, Table.lookup_insert_ite] at hrow
      split_ifs at hrow with hattempt
      · obtain rfl := Option.some.inj hrow
        refine .inr ⟨hfiles,
          fun hlogs => hattempt ▸ completionManifest_logsComplete hcommit.manifest
          hcommit.payload ?_⟩
        exact (normalizeCompletion_logsComplete hcommit.payload).symm.trans hlogs
      · exact .inl hrow
    · exact .inl hc
    · exact .inl hc
  · refine .inl ?_
    have hsame : s'.completions = s.completions := by
      refine op.exec_writes h .completions ?_
      cases op with
      | complete completed identity r => exact absurd ⟨completed, identity, r, rfl⟩ hop
      | _ => simp only [Op.footprint]; decide
    exact hsame ▸ hc

/-- **What was complete when it was accepted stays complete.** -/
theorem Reachable.logsComplete (h : Reachable sha w) {c : CompletionRow}
    (hc : w.store.completions.lookup attempt = some c)
    (hlogs : c.payloadDigest.logsComplete = true) : w.store.files.LogsComplete attempt := by
  induction h with
  | start => exact (nomatch hc)
  | step hw hstep ih =>
    obtain ⟨-, op, reply, hexec⟩ := hstep
    obtain hold | ⟨hfiles, hchecked⟩ := Op.exec_completions hexec hc
    · obtain ⟨a, ha, hended, -⟩ := hw.ledger.phased.completed attempt c hold
      obtain ⟨hlater, huploads, hsegments⟩ := Op.exec_files_ended hexec ha hended
      obtain ⟨hwhole, hcatalogued⟩ := ih hold
      refine ⟨fun id l hl hattempt => hwhole id l (hsegments id l hl hattempt) hattempt,
        fun upload u hu hattempt hkind => ?_⟩
      obtain ⟨artifact, row, id, l, hrow, hupload, hl, hsame⟩ :=
        hcatalogued upload u (huploads upload u hu hattempt) hattempt hkind
      exact ⟨artifact, row, id, l, hlater.artifacts _ _ hrow, hupload, hlater.logSegments _ _ hl,
        hsame⟩
    · exact hfiles ▸ hchecked hlogs

/-- **The catalogue of every attempt.** In every reachable world:

- the segments of a stream cover each record from one to the last exactly once,
  each with its gaps in order inside it and with one verified log of its own
  attempt that no other segment has;
- later in the run every segment is still there, and no segment was added for
  an attempt that had ended, as one that was completed has;
- where an accepted completion claims complete logs, no segment has a gap and
  every log that was declared is verified and catalogued. -/
theorem log_catalog {w : World} (h : Reachable sha w) :
    w.store.files.Catalogued ∧
    (∀ w', World.Later sha w w' →
      w.store.logSegments.Extends w'.store.logSegments ∧
      ∀ attempt a, w.store.attempts.lookup attempt = some a → a.state.isActive = false →
        ∀ id l, w'.store.logSegments.lookup id = some l →
          l.claims.authority.attemptID = attempt → w.store.logSegments.lookup id = some l) ∧
    (∀ attempt c, w.store.completions.lookup attempt = some c →
      (∃ a, w.store.attempts.lookup attempt = some a ∧ a.state.isActive = false) ∧
      (c.payloadDigest.logsComplete = true → w.store.files.LogsComplete attempt)) := by
  refine ⟨h.catalogued, fun w' hlater => ⟨hlater.files.logSegments, ?_⟩, fun attempt c hc => ?_⟩
  · exact fun attempt a ha hended id l hl => h.ended_segments hlater ha hended hl
  · obtain ⟨a, ha, hended, -⟩ := h.ledger.phased.completed attempt c hc
    exact ⟨⟨a, ha, hended⟩, h.logsComplete hc⟩

/-- Attempt 1 has a log of its standard output verified and catalogued as its
first ten records, of which one was dropped. -/
def Sample.logged : List (Time × Op) :=
  [(second, .phase Sample.seen Sample.identity
      ⟨1, ⟨⟨1, 1, 1, 1, 1⟩, .starting, "", none⟩⟩),
    (second, .createUpload Sample.seen Sample.identity
      ⟨1, ⟨⟨1, 1, 1, 1, 1⟩, .log, "stdout", 10, Sample.container, 1, 0⟩⟩ 1 1),
    (second, .finalizeUpload Sample.seen Sample.identity
      ⟨1, ⟨⟨1, 1, 1, 1, 1⟩, 1, ⟨objectKey 1 1 1 1, "v", 10, Sample.container⟩⟩⟩ true 1 1),
    (second, .registerLog Sample.seen Sample.identity
      ⟨1, ⟨⟨1, 1, 1, 1, 1⟩, 1, .stdout, 1, 10, [⟨4, 4⟩]⟩⟩ 1)]

/-- A segment is on file, and the catalogue is in order. -/
theorem sample_catalog : ∃ (w : World) (l : LogSegmentRow),
    w.store.logSegments.lookup 1 = some l ∧ l.claims.gaps = [⟨4, 4⟩] ∧
    w.store.files.Catalogued := by
  obtain ⟨w, hw, hp⟩ := Sample.reaches Sample.assigned_reachable Sample.logged (fun w =>
    (w.store.logSegments.lookup 1).any (fun l : LogSegmentRow =>
      decide (l.claims.gaps = [⟨4, 4⟩]))) (by decide +kernel)
  simp only [Option.any_eq_true, decide_eq_true_eq] at hp
  obtain ⟨l, hl, hgaps⟩ := hp
  exact ⟨w, l, hl, hgaps, (log_catalog hw).1⟩

end Dispatch
