import Dispatch.Client.Streams

/-!
# What a followed log shows

What has been printed of a stream is always a prefix of it, and the cursor is
where the prefix ends. A pass over an attempt that had ended when it was listed
reads each stream to its end: nothing is added to it any more.

This makes the last attempt that was listed complete. It does not help an
attempt that another one replaces between two listings, and it does not help an
attempt that the last listing came too early for: the command asks for the state
of the job after it, and returns on the answer.
-/

namespace Dispatch

open Txn

variable {number : ℕ} {ended : Bool} {latest : AttemptRecord} {left : List Stream}

variable {sha : Uuid → ℕ}

/-! ## Runs of the command -/

/-- Every segment of the stream is before the cursor. -/
def Follow.Drained (f : Follow) (s : Store) (attempt : Uuid) (stream : Stream) : Prop :=
  ∀ id l, s.logSegments.lookup id = some l → l.Of attempt stream →
    l.claims.lastSequence ≤ (f.cursors stream).getD 0

/-- **A command follows a job.** The control plane goes on between the requests
and between the statements of one request. A `guarded` run meets two conditions.
When a listing finds a newer attempt, the one followed so far has been read to its
end. And when the command returns on the state of the job, the job has no attempt
newer than those listed. -/
inductive FollowRun (sha : Uuid → ℕ) (c : Command) (storage : Storage) (guarded : Bool) :
    World → Follow → Prop
  | start {w : World} (hw : Reachable sha w) : FollowRun sha c storage guarded w .start
  | server {w w' : World} {f : Follow} (h : FollowRun sha c storage guarded w f)
      (hrunning : f.stage ≠ .returned) (hstep : World.Step sha w w') :
      FollowRun sha c storage guarded w' f
  | list {w w' : World} {f : Follow} (h : FollowRun sha c storage guarded w f)
      (hstage : f.stage = .list) (hlater : World.Later sha w w')
      (hguard : guarded = true → ∀ attempt, f.current = some attempt →
        (f.list c w.store w'.store).current ≠ some attempt →
        ∀ stream ∈ c.streams, f.Drained w'.store attempt stream) :
      FollowRun sha c storage guarded w' (f.list c w.store w'.store)
  | poll {w w₁ w₂ : World} {f : Follow} (h : FollowRun sha c storage guarded w f)
      {latest : AttemptRecord} {left : List Stream} {completion : Option LogCompletion}
      (hstage : f.stage = .poll latest left completion) (hlater₁ : World.Later sha w w₁)
      (hlater₂ : World.Later sha w₁ w₂) :
      FollowRun sha c storage guarded w₂ (f.poll c storage w.store w₁.store w₂.store)
  | job {w : World} {f : Follow} (h : FollowRun sha c storage guarded w f)
      {latest : Option AttemptRecord} (hstage : f.stage = .job latest)
      (hguard : guarded = true → (f.getJob c w.store).stage = .returned →
        ∀ id a, w.store.attempts.lookup id = some a → a.job = c.job →
          ∃ listed ∈ latest, a.number ≤ listed.number) :
      FollowRun sha c storage guarded w (f.getJob c w.store)

/-! ## What a run keeps -/

section Runs

variable {c : Command} {storage : Storage} {guarded : Bool} {w w' : World} {f : Follow}

/-- What is printed of a stream is a prefix of it that ends at the cursor. -/
def Shows (c : Command) (storage : Storage) (w : World) (f : Follow) (attempt : Uuid)
    (stream : Stream) : Prop :=
  ∃ shown, shown <+: streamLog w.store c.project attempt stream ∧
    (∀ x ∈ shown, fetchLogSegment storage attempt x = some (recordsOf storage attempt x)) ∧
    printed f.out attempt stream = shown.flatMap (recordsOf storage attempt) ∧
    f.cursors stream = shown.getLast?.map LogSegment.lastSequence ∧
    f.lastSequence stream = (shown.getLast?.map LogSegment.lastSequence).getD 0

/-- **All of a stream is printed.** -/
def ShowsAll (c : Command) (storage : Storage) (w : World) (out : List Line) (attempt : Uuid)
    (stream : Stream) : Prop :=
  (∀ x ∈ streamLog w.store c.project attempt stream,
    fetchLogSegment storage attempt x = some (recordsOf storage attempt x)) ∧
  printed out attempt stream =
    (streamLog w.store c.project attempt stream).flatMap (recordsOf storage attempt)

/-- An attempt of the job that the command has listed. -/
structure Listed (c : Command) (w : World) (attempt : Uuid) (number : ℕ) (ended : Bool) : Prop where
  own : w.store.attemptIn c.project attempt = true
  row : ∃ a, w.store.attempts.lookup attempt = some a ∧ a.job = c.job ∧ a.number = number ∧
    (ended = true → a.state.isActive = false)

theorem Listed.later (h : Reachable sha w) (hlater : World.Later sha w w') {attempt : Uuid}
    (hl : Listed c w attempt number ended) :
    Listed c w' attempt number ended where
  own := h.attemptIn_later hlater hl.own
  row := by
    obtain ⟨a, ha, hjob, hnumber, hended⟩ := hl.row
    obtain ⟨a', ha', hkept⟩ := (h.later_ledger hlater).attempts attempt a ha
    refine ⟨a', ha', hkept.job.trans hjob, hkept.number.trans hnumber, fun he => ?_⟩
    rw [hkept.ended (hended he)]
    exact hended he

/-- A number is used once. -/
theorem Listed.same (h : Reachable sha w) {attempt attempt' : Uuid} {ended' : Bool}
    (hl : Listed c w attempt number ended) (hl' : Listed c w attempt' number ended') :
    attempt = attempt' := by
  obtain ⟨a, ha, hjob, hnumber, -⟩ := hl.row
  obtain ⟨a', ha', hjob', hnumber', -⟩ := hl'.row
  exact h.ledger_sound.numbered.once attempt attempt' a a' ha ha' (hjob.trans hjob'.symm)
    (hnumber.trans hnumber'.symm)

/-- An attempt that is not the newest has ended. -/
theorem Listed.superseded (h : Reachable sha w) {attempt attempt' : Uuid} {number' : ℕ}
    {ended' : Bool} (hl : Listed c w attempt number ended)
    (hl' : Listed c w attempt' number' ended') (hlt : number < number') :
    Listed c w attempt number true where
  own := hl.own
  row := by
    obtain ⟨a, ha, hjob, hnumber, -⟩ := hl.row
    obtain ⟨a', ha', hjob', hnumber', -⟩ := hl'.row
    refine ⟨a, ha, hjob, hnumber, fun _ => ?_⟩
    by_contra hactive
    rw [Bool.not_eq_false] at hactive
    -- An active attempt has the last number.
    have hown := h.sound.owned
    have hg := congrArg (Option.map AttemptRow.grant) ha
    obtain ⟨t, ht, hcurrent⟩ := hown.live attempt a.grant hg hactive
    obtain ⟨g, -, hg', -, -, hlast, -⟩ := hown.owner a.job t attempt ht hcurrent
    obtain rfl := Option.mem_unique hg hg'
    obtain ⟨t', ht', hle⟩ :=
      hown.numbered attempt' a'.grant (congrArg (Option.map AttemptRow.grant) ha')
    have hsame : a'.grant.task = a.job := hjob'.trans hjob.symm
    rw [hsame] at ht'
    obtain rfl := Option.mem_unique ht ht'
    have hlast : a.number = t.counter := hlast
    have hle : a'.number ≤ t.counter := hle
    omega

theorem Shows.later (h : Reachable sha w) (hlater : World.Later sha w w') {attempt : Uuid}
    {stream : Stream} (hmine : w.store.attemptIn c.project attempt = true)
    (hs : Shows c storage w f attempt stream) : Shows c storage w' f attempt stream := by
  obtain ⟨shown, hinit, hrest⟩ := hs
  exact ⟨shown, hinit.trans (h.streamLog_prefix hlater hmine stream), hrest⟩

theorem ShowsAll.later (h : Reachable sha w) (hlater : World.Later sha w w') {attempt : Uuid}
    {stream : Stream} (hl : Listed c w attempt number true) {out : List Line}
    (hs : ShowsAll c storage w out attempt stream) : ShowsAll c storage w' out attempt stream := by
  obtain ⟨a, ha, -, -, hended⟩ := hl.row
  unfold ShowsAll
  rw [h.streamLog_ended hlater hl.own ha (hended rfl) stream]
  exact hs

theorem Follow.Drained.later (h : Reachable sha w) (hlater : World.Later sha w w')
    {attempt : Uuid} {stream : Stream} (hl : Listed c w attempt number true)
    (hd : f.Drained w.store attempt stream) : f.Drained w'.store attempt stream := by
  obtain ⟨a, ha, -, -, hended⟩ := hl.row
  exact fun id l hrow hof => hd id l (h.ended_segments hlater ha (hended rfl) hrow hof.attempt) hof

/-- A prefix that ends at a cursor nothing is after is all of the stream. -/
theorem Shows.all (h : Reachable sha w) {attempt : Uuid} {stream : Stream}
    (hs : Shows c storage w f attempt stream) (hd : f.Drained w.store attempt stream) :
    ShowsAll c storage w f.out attempt stream := by
  obtain ⟨shown, ⟨rest, hsplit⟩, hfetched, hprinted, hcursor, -⟩ := hs
  have hrest := h.logSegments_rest hsplit
  rw [← hcursor] at hrest
  cases rest with
  | nil =>
    rw [List.append_nil] at hsplit
    unfold ShowsAll
    rw [← hsplit]
    exact ⟨hfetched, hprinted⟩
  | cons x rest =>
    have hx : x ∈ logSegments w.store c.project attempt stream ((f.cursors stream).getD 0) := by
      rw [hrest]
      exact List.mem_cons_self
    obtain ⟨id, l, hl, hof, -, hafter, -⟩ := mem_logSegments.mp hx
    exact absurd hafter (not_lt.mpr (hd id l hl hof))

/-- **What holds throughout a run.** -/
structure Following (sha : Uuid → ℕ) (c : Command) (storage : Storage) (guarded : Bool)
    (w : World) (f : Follow) : Prop where
  reached : Reachable sha w
  heading : headingFrom none f.out = f.current
  /-- The attempts named so far, the current one being the newest. -/
  named : ∀ attempt, .attempt attempt ∈ f.out → ∃ number, Listed c w attempt number false ∧
    (f.current = some attempt ∨ ∃ current number', f.current = some current ∧
      Listed c w current number' false ∧ number < number')
  shows : ∀ attempt, f.current = some attempt → .attempt attempt ∈ f.out ∧
    ∀ stream, Shows c storage w f attempt stream
  past : guarded = true → ∀ attempt, .attempt attempt ∈ f.out → f.current ≠ some attempt →
    ∀ stream ∈ c.streams, ShowsAll c storage w f.out attempt stream

theorem Following.start (h : Reachable sha w) : Following sha c storage guarded w .start where
  reached := h
  heading := rfl
  named _ h := absurd h List.not_mem_nil
  shows _ h := absurd h (by simp [Follow.start])
  past _ _ h := absurd h List.not_mem_nil

theorem Following.later (h : Following sha c storage guarded w f)
    (hlater : World.Later sha w w') : Following sha c storage guarded w' f where
  reached := h.reached.later hlater
  heading := h.heading
  named attempt hnamed := by
    obtain ⟨number, hlisted, hcurrent⟩ := h.named attempt hnamed
    refine ⟨number, hlisted.later h.reached hlater, hcurrent.imp id ?_⟩
    rintro ⟨current, number', hcurrent, hlisted', hlt⟩
    exact ⟨current, number', hcurrent, hlisted'.later h.reached hlater, hlt⟩
  shows attempt hcurrent := by
    obtain ⟨hnamed, hshows⟩ := h.shows attempt hcurrent
    obtain ⟨number, hlisted, -⟩ := h.named attempt hnamed
    exact ⟨hnamed, fun stream => (hshows stream).later h.reached hlater hlisted.own⟩
  past hguarded attempt hnamed hpast stream hstream := by
    obtain ⟨number, hlisted, hcurrent | ⟨current, number', -, hlisted', hlt⟩⟩ :=
      h.named attempt hnamed
    · exact absurd hcurrent hpast
    · exact (h.past hguarded attempt hnamed hpast stream hstream).later h.reached hlater
        (hlisted.superseded h.reached hlisted' hlt)

/-- What is no record and no heading does not matter. -/
theorem Following.congr {f' : Follow} (h : Following sha c storage guarded w f)
    (hcurrent : f'.current = f.current) (hcursors : f'.cursors = f.cursors)
    (hlast : f'.lastSequence = f.lastSequence)
    (hheading : headingFrom none f'.out = headingFrom none f.out)
    (hnamed : ∀ attempt, Line.attempt attempt ∈ f'.out ↔ Line.attempt attempt ∈ f.out)
    (hprinted : printed f'.out = printed f.out) : Following sha c storage guarded w f' where
  reached := h.reached
  heading := by rw [hheading, hcurrent, h.heading]
  named attempt hname := by
    rw [hcurrent]
    exact h.named attempt ((hnamed attempt).mp hname)
  shows attempt hname := by
    obtain ⟨hout, hshows⟩ := h.shows attempt (hcurrent ▸ hname)
    refine ⟨(hnamed attempt).mpr hout, fun stream => ?_⟩
    unfold Shows
    rw [hprinted, hcursors, hlast]
    exact hshows stream
  past hguarded attempt hname hpast stream hstream := by
    unfold ShowsAll
    rw [hprinted]
    exact h.past hguarded attempt ((hnamed attempt).mp hname) (hcurrent ▸ hpast) stream hstream

theorem Following.stage (h : Following sha c storage guarded w f) (stage : FollowStage) :
    Following sha c storage guarded w { f with stage := stage } :=
  h.congr rfl rfl rfl rfl (fun _ => Iff.rfl) rfl

theorem advance_eq (latest : AttemptRecord) (left : List Stream)
    (completion : Option LogCompletion) : ∃ stage reported lines,
      f.advance c latest left completion =
        { f with stage := stage, reportedCompletion := reported, out := f.out ++ lines } ∧
      (lines = [] ∨ ∃ found : LogCompletion, lines = found.lines) ∧
      stage = match left with
        | [] => if c.follow then .job (some latest) else .returned
        | _ :: _ => .poll latest left completion := by
  unfold Follow.advance
  cases left with
  | cons stream left => exact ⟨_, _, [], by rw [List.append_nil], .inl rfl, rfl⟩
  | nil =>
    cases completion with
    | none => exact ⟨_, _, [], by rw [List.append_nil], .inl rfl, rfl⟩
    | some found =>
      by_cases hreported : f.reportedCompletion = true
      · exact ⟨_, _, [], by rw [List.append_nil]; exact if_pos hreported, .inl rfl, rfl⟩
      · exact ⟨_, _, found.lines, if_neg hreported, .inr ⟨found, rfl⟩, rfl⟩

theorem Following.advance (h : Following sha c storage guarded w f) (latest : AttemptRecord)
    (left : List Stream) (completion : Option LogCompletion) :
    Following sha c storage guarded w (f.advance c latest left completion) := by
  obtain ⟨stage, reported, lines, hadvance, rfl | ⟨found, rfl⟩, -⟩ :=
    advance_eq (f := f) (c := c) latest left completion
  · rw [hadvance, List.append_nil]
    exact h.congr rfl rfl rfl rfl (fun _ => Iff.rfl) rfl
  · rw [hadvance]
    refine h.congr rfl rfl rfl ?_ (fun attempt => ?_) ?_
    · rw [headingFrom_append, headingFrom_completion]
    · show _ ∈ f.out ++ found.lines ↔ _
      unfold LogCompletion.lines
      split <;> simp
    · funext attempt stream
      show printedFrom _ _ _ (f.out ++ found.lines) = _
      rw [printedFrom_append, printedFrom_completion, List.append_nil]
      rfl

/-- **The attempts of a listing**: those of the job, up to the newest. -/
theorem clientAttempts_sound {s₁ : Store} {attempts : List AttemptRecord}
    (h : clientAttempts s₁ w.store c.project c.job = some attempts) :
    (∀ x ∈ attempts, Listed c w x.id x.number x.state.terminal) ∧
      (∀ attempt number ended, Listed c w attempt number ended →
        ∃ last ∈ attempts.getLast?, number ≤ last.number) := by
  simp only [clientAttempts, Option.bind_eq_bind, Option.bind_eq_some_iff,
    Option.ite_none_right_eq_some] at h
  obtain ⟨listed, hlisted, ⟨-, hnumbers⟩, h⟩ := h
  obtain rfl := Option.some.inj h
  have hok := toOption_eq_some.mp hlisted
  simp only [listAttempts, bind_ok, require_ok, pure_ok] at hok
  obtain ⟨-, -, -, -, hrows⟩ := hok
  refine ⟨fun x hx => ?_, fun attempt number ended hl => ?_⟩
  · rw [← hrows] at hx
    obtain ⟨⟨id, a⟩, ha, rfl⟩ := List.mem_map.mp hx
    obtain ⟨ha, hselected⟩ := Table.mem_ordered.mp ha
    simp only [Bool.and_eq_true, decide_eq_true_eq] at hselected
    refine ⟨Store.attemptIn_iff.mpr ⟨a, ha, hselected.2⟩, a, ha, hselected.1, rfl, fun hended => ?_⟩
    exact (Bool.not_eq_true' _).mp hended
  · obtain ⟨a, ha, hjob, rfl, -⟩ := hl.row
    obtain ⟨a', ha', hmine⟩ := Store.attemptIn_iff.mp hl.own
    obtain rfl := Option.mem_unique ha ha'
    have hmem : (attempt, a) ∈ w.store.attempts.ordered
        (fun _ a => decide (a.job = c.job) && w.store.jobIn c.project a.job)
        (fun x => x.2.number) (fun x => x.1) := by
      refine Table.mem_ordered.mpr ⟨ha, ?_⟩
      simp only [Bool.and_eq_true, decide_eq_true_eq]
      exact ⟨hjob, hmine⟩
    obtain ⟨x, hx, hnumber⟩ : ∃ x ∈ listed, x.number = a.number := by
      rw [← hrows]
      exact ⟨_, List.mem_map_of_mem hmem, rfl⟩
    -- The numbers are the places in the list.
    obtain ⟨i, hi, rfl⟩ := List.mem_iff_getElem.mp hx
    have hplace := (hnumbers (listed[i], i) (by
      rw [List.mem_zipIdx_iff_getElem?]
      exact List.getElem?_eq_getElem hi)).1
    have hne : listed ≠ [] := List.ne_nil_of_length_pos (by omega)
    refine ⟨listed.getLast hne, List.getLast?_eq_some_getLast hne, ?_⟩
    have hlast := (hnumbers (listed.getLast hne, listed.length - 1) (by
      rw [List.mem_zipIdx_iff_getElem?, ← List.getLast?_eq_getElem?]
      exact List.getLast?_eq_some_getLast hne)).1
    have hplace : listed[i].number = i + 1 := hplace
    have hlast : (listed.getLast hne).number = listed.length - 1 + 1 := hlast
    omega

/-- An attempt that is newer than those followed so far has no heading yet. -/
theorem Following.fresh (h : Following sha c storage guarded w f) {attempt : Uuid}
    (hl : Listed c w attempt number ended)
    (hnewest : ∀ attempt number' ended, Listed c w attempt number' ended → number' ≤ number)
    (hother : f.current ≠ some attempt) : .attempt attempt ∉ f.out := by
  intro hnamed
  obtain ⟨number', hl', hcurrent | ⟨current, number'', -, hl'', hlt⟩⟩ := h.named attempt hnamed
  · exact hother hcurrent
  · obtain ⟨a, ha, -, rfl, -⟩ := hl.row
    obtain ⟨a', ha', -, rfl, -⟩ := hl'.row
    obtain rfl := Option.mem_unique ha ha'
    exact absurd (hnewest current number'' false hl'') (not_le.mpr hlt)

/-- **Another attempt is selected.** -/
theorem Following.select (h : Following sha c storage guarded w f) {attempt : Uuid}
    (hl : Listed c w attempt number ended)
    (hnewest : ∀ attempt number' ended, Listed c w attempt number' ended → number' ≤ number)
    (hguard : guarded = true → ∀ followed, f.current = some followed → followed ≠ attempt →
      ∀ stream ∈ c.streams, f.Drained w.store followed stream) :
    Following sha c storage guarded w (f.select attempt) := by
  by_cases hother : f.current = some attempt
  · rw [Follow.select, if_pos hother]
    exact h
  rw [Follow.select, if_neg hother]
  have hfresh := h.fresh hl hnewest hother
  have hl₀ : Listed c w attempt number false := by
    obtain ⟨a, ha, hjob, hnumber, -⟩ := hl.row
    exact ⟨hl.own, a, ha, hjob, hnumber, fun hfalse => absurd hfalse (by simp)⟩
  have hprinted : ∀ attempt' stream,
      printed (f.out ++ [.attempt attempt]) attempt' stream = printed f.out attempt' stream := by
    intro attempt' stream
    show printedFrom _ _ _ (_ ++ _) = _
    rw [printedFrom_append]
    exact List.append_nil _
  refine ⟨h.reached, ?_, fun attempt' hnamed => ?_, fun attempt' hcurrent => ?_,
    fun hguarded attempt' hnamed hpast stream hstream => ?_⟩
  · rw [headingFrom_append]
    rfl
  · obtain hnamed | hnamed := List.mem_append.mp hnamed
    · obtain ⟨number', hl', -⟩ := h.named attempt' hnamed
      refine ⟨number', hl', .inr ⟨attempt, number, rfl, hl₀, ?_⟩⟩
      refine lt_of_le_of_ne (hnewest attempt' number' false hl') fun heq => ?_
      subst heq
      exact hfresh (hl'.same h.reached hl₀ ▸ hnamed)
    · obtain rfl : attempt' = attempt := by
        have := List.mem_singleton.mp hnamed
        exact Line.attempt.inj this
      exact ⟨number, hl₀, .inl rfl⟩
  · obtain rfl : attempt = attempt' := Option.some.inj hcurrent
    refine ⟨List.mem_append_right _ List.mem_cons_self, fun stream => ?_⟩
    refine ⟨[], List.nil_prefix, fun _ hx => absurd hx List.not_mem_nil, ?_, rfl, rfl⟩
    exact (hprinted _ _).trans (printedFrom_unnamed hfresh (by simp))
  · have hnamed : .attempt attempt' ∈ f.out := by
      obtain hnamed | hnamed := List.mem_append.mp hnamed
      · exact hnamed
      · exact absurd (congrArg some (Line.attempt.inj (List.mem_singleton.mp hnamed)).symm) hpast
    show ShowsAll c storage w (f.out ++ [.attempt attempt]) attempt' stream
    unfold ShowsAll
    rw [hprinted]
    by_cases hfollowed : f.current = some attempt'
    · have hne : attempt' ≠ attempt := fun heq => hpast (congrArg some heq.symm)
      exact ((h.shows attempt' hfollowed).2 stream).all h.reached
        (hguard hguarded attempt' hfollowed hne stream hstream)
    · exact h.past hguarded attempt' hnamed hfollowed stream hstream

/-- A pass over the attempt that was listed last: what is not left of it has been
read to its end, if the attempt had ended when it was listed. -/
structure Pass (c : Command) (w : World) (f : Follow) (latest : AttemptRecord)
    (left : List Stream) : Prop where
  current : f.current = some latest.id
  listed : Listed c w latest.id latest.number latest.state.terminal
  drained : latest.state.terminal = true → ∀ stream ∈ c.streams, stream ∉ left →
    f.Drained w.store latest.id stream

/-- **What is known when the command returns.** -/
structure Ended (c : Command) (storage : Storage) (guarded : Bool) (w : World)
    (f : Follow) : Prop where
  current : ∀ attempt, f.current = some attempt → ∀ stream ∈ c.streams,
    ShowsAll c storage w f.out attempt stream
  newest : guarded = true → ∀ id a, w.store.attempts.lookup id = some a → a.job = c.job →
    (∀ id' a', w.store.attempts.lookup id' = some a' → a'.job = c.job → a'.number ≤ a.number) →
    f.current = some id

/-- What is known at each stage. -/
def Staged (c : Command) (storage : Storage) (guarded : Bool) (w : World) (f : Follow) : Prop :=
  match f.stage with
  | .poll latest left _ => Pass c w f latest left
  | .job (some latest) => Pass c w f latest []
  | .job none => f.current = none
  | .returned => c.follow = true → Ended c storage guarded w f
  | .list => True
  | .failed => True

theorem Pass.later (hp : Pass c w f latest left) (h : Reachable sha w)
    (hlater : World.Later sha w w') : Pass c w' f latest left where
  current := hp.current
  listed := hp.listed.later h hlater
  drained hended stream hstream hdone := by
    have hlisted := hp.listed
    rw [hended] at hlisted
    exact (hp.drained hended stream hstream hdone).later h hlater hlisted

theorem Staged.later (hs : Staged c storage guarded w f) (hrunning : f.stage ≠ .returned)
    (h : Reachable sha w) (hlater : World.Later sha w w') : Staged c storage guarded w' f := by
  unfold Staged at hs ⊢
  split at hs
  · exact hs.later h hlater
  · exact hs.later h hlater
  · exact hs
  · exact absurd ‹_› hrunning
  · trivial
  · trivial

theorem list_cases (s₁ s₂ : Store) : f.list c s₁ s₂ = f.fail ∨
    ∃ attempts, clientAttempts s₁ s₂ c.project c.job = some attempts ∧
      (attempts.getLast? = none ∧ f.list c s₁ s₂ = { f with stage := .job none } ∨
        ∃ latest, attempts.getLast? = some latest ∧
          f.list c s₁ s₂ = { f.select latest.id with stage := .poll latest c.streams none }) := by
  unfold Follow.list
  cases clientAttempts s₁ s₂ c.project c.job with
  | none => exact .inl rfl
  | some attempts =>
    cases hlast : attempts.getLast? with
    | some latest => exact .inr ⟨attempts, rfl, .inr ⟨latest, hlast, by simp only [hlast]⟩⟩
    | none =>
      by_cases hfollow : c.follow = true
      · exact .inr ⟨attempts, rfl, .inl ⟨hlast, by simp only [hlast, if_pos hfollow]⟩⟩
      · exact .inl (by simp only [hlast, if_neg hfollow])

theorem select_current (attempt : Uuid) : (f.select attempt).current = some attempt := by
  unfold Follow.select
  split
  · assumption
  · rfl

/-- **The listing.** -/
theorem Following.list (h : Following sha c storage guarded w f)
    (hlater : World.Later sha w w')
    (hguard : guarded = true → ∀ attempt, f.current = some attempt →
      (f.list c w.store w'.store).current ≠ some attempt →
      ∀ stream ∈ c.streams, f.Drained w'.store attempt stream) :
    Following sha c storage guarded w' (f.list c w.store w'.store) ∧
      Staged c storage guarded w' (f.list c w.store w'.store) := by
  have h := h.later hlater
  obtain hfail | ⟨attempts, hlisted, hnone | ⟨latest, hlast, hlist⟩⟩ :=
    list_cases (f := f) (c := c) w.store w'.store
  · rw [hfail]
    exact ⟨h.stage _, trivial⟩
  · rw [hnone.2]
    refine ⟨h.stage _, Option.eq_none_iff_forall_ne_some.mpr fun attempt hcurrent => ?_⟩
    obtain ⟨number, hl, -⟩ := h.named attempt (h.shows attempt hcurrent).1
    obtain ⟨last, hlast, -⟩ := (clientAttempts_sound hlisted).2 attempt number false hl
    exact absurd (hnone.1.symm.trans hlast) (by simp)
  · rw [hlist] at hguard ⊢
    obtain ⟨hsound, hnewest⟩ := clientAttempts_sound hlisted
    have hl := hsound latest (List.mem_of_getLast? hlast)
    refine ⟨(h.select hl (fun attempt number ended hl' => ?_)
      fun hguarded followed hfollowed hne => ?_).stage _, select_current _, hl,
      fun _ stream hstream hdone => absurd hstream hdone⟩
    · obtain ⟨last, hlast', hle⟩ := hnewest attempt number ended hl'
      obtain rfl := Option.mem_unique hlast hlast'
      exact hle
    · refine hguard hguarded followed hfollowed fun heq => ?_
      exact hne (Option.some.inj ((select_current _).symm.trans heq)).symm

theorem poll_cases (c : Command) (storage : Storage) {completion : Option LogCompletion}
    {attempt : Uuid} (hstage : f.stage = .poll latest left completion)
    (hcurrent : f.current = some attempt) (s₁ s₂ s₃ : Store) :
    f.poll c storage s₁ s₂ s₃ = f ∨ f.poll c storage s₁ s₂ s₃ = f.fail ∨
      ∃ stream left' page fetched, left = stream :: left' ∧
        clientLogs storage s₁ s₂ s₃ c.project attempt stream (f.cursors stream) = some page ∧
        page.segments.mapM (fetchLogSegment storage attempt) = some fetched ∧
        (page.hasMore = true ∧
            f.poll c storage s₁ s₂ s₃ = f.print stream page.nextCursor fetched.flatten ∨
          page.hasMore = false ∧ f.poll c storage s₁ s₂ s₃ =
            (f.print stream page.nextCursor fetched.flatten).advance c latest left'
              (page.completion.or completion)) := by
  unfold Follow.poll
  rw [hstage, hcurrent]
  cases left with
  | nil => exact .inl rfl
  | cons stream left =>
    refine .inr ?_
    cases hpage : clientLogs storage s₁ s₂ s₃ c.project attempt stream (f.cursors stream) with
    | none => exact .inl (by simp only [hpage])
    | some page =>
      cases hfetched : page.segments.mapM (fetchLogSegment storage attempt) with
      | none => exact .inl (by simp only [hpage, hfetched])
      | some fetched =>
        simp only [hpage, hfetched]
        by_cases hmore : page.hasMore = true
        · rw [if_pos hmore]
          by_cases hstuck : page.nextCursor = f.cursors stream
          · exact .inl (if_pos hstuck)
          · exact .inr ⟨stream, left, page, fetched, rfl, hpage, hfetched,
              .inl ⟨hmore, if_neg hstuck⟩⟩
        · rw [if_neg hmore]
          exact .inr ⟨stream, left, page, fetched, rfl, hpage, hfetched,
            .inr ⟨Bool.not_eq_true _ ▸ hmore, rfl⟩⟩

/-- **A page is what comes next in the stream**, up to its length. -/
theorem clientLogs_rest {s₁ s₂ : Store} {attempt : Uuid} {stream : Stream} {page : LogPage}
    (h : Reachable sha w) {shown rest : List LogSegment}
    (hsplit : shown ++ rest = streamLog w.store c.project attempt stream)
    (hcursor : f.cursors stream = shown.getLast?.map LogSegment.lastSequence)
    (hpage : clientLogs storage s₁ s₂ w.store c.project attempt stream (f.cursors stream)
      = some page) : page.segments = rest.take defaultLogPage ∧
      page.hasMore = decide (defaultLogPage < rest.length) ∧
      page.nextCursor = (shown ++ page.segments).getLast?.map LogSegment.lastSequence := by
  simp only [clientLogs, Option.bind_eq_bind, Option.bind_eq_some_iff,
    Option.ite_none_right_eq_some] at hpage
  obtain ⟨found, hfound, -, hpage⟩ := hpage
  obtain rfl := Option.some.inj hpage
  have hok := toOption_eq_some.mp hfound
  simp only [listLogSegments, bind_ok, require_ok, pure_ok] at hok
  obtain ⟨-, -, -, -, rfl⟩ := hok
  have hrest := h.logSegments_rest hsplit
  rw [← hcursor] at hrest
  refine ⟨?_, ?_, ?_⟩
  · show ((logSegments _ _ _ _ _).take _).take _ = _
    rw [hrest, List.take_take, min_eq_left (Nat.le_succ _)]
  · show decide (_ < ((logSegments _ _ _ _ _).take _).length) = _
    rw [hrest, List.length_take]
    exact decide_eq_decide.mpr (by omega)
  · show Option.or (Option.map _ (List.getLast? _)) _ = Option.map _ (List.getLast? (_ ++ _))
    rw [List.getLast?_append, Option.map_or, hcursor]

section Printing

variable {attempt : Uuid} {stream : Stream} {shown more : List LogSegment} {cursor : Option ℕ}

theorem printed_print (stream : Stream) (cursor : Option ℕ)
    (hheading : headingFrom none f.out = some attempt) (records : List LogRecord)
    (attempt' : Uuid) (stream' : Stream) :
    printed (f.print stream cursor records).out attempt' stream' = printed f.out attempt' stream' ++
      if attempt = attempt' ∧ stream = stream' then newRecords (f.lastSequence stream) records
      else [] := by
  show printedFrom _ _ _ (f.out ++ _) = _
  rw [printedFrom_append, hheading, printedFrom_records]
  simp only [Option.some.injEq]
  rfl

/-- **All records of the segments that come next are new.** -/
theorem newRecords_next (h : Reachable sha w)
    (hinit : shown ++ more <+: streamLog w.store c.project attempt stream)
    (hfetched : ∀ x ∈ more, fetchLogSegment storage attempt x = some (recordsOf storage attempt x))
    (hlast : f.lastSequence stream = (shown.getLast?.map LogSegment.lastSequence).getD 0) :
    newRecords (f.lastSequence stream) (more.flatMap (recordsOf storage attempt)) =
        more.flatMap (recordsOf storage attempt) ∧
      ((more.flatMap (recordsOf storage attempt)).getLast?.map LogRecord.sequence).getD
          (f.lastSequence stream) =
        ((shown ++ more).getLast?.map LogSegment.lastSequence).getD 0 := by
  have hordered := (h.pairwise_streamLog c.project attempt stream).sublist hinit.sublist
  have hrange : ∀ x ∈ shown ++ more, 1 ≤ x.firstSequence ∧ x.firstSequence ≤ x.lastSequence :=
    fun x hx => h.range_streamLog (hinit.subset hx)
  obtain ⟨-, hmore, hacross⟩ := List.pairwise_append.mp hordered
  obtain ⟨hsorted, hinside, hend⟩ := records_sound hmore
    (fun x hx => (hrange x (List.mem_append_right _ hx)).2) hfetched
  refine ⟨newRecords_eq hsorted fun r hr => ?_, ?_⟩
  · obtain ⟨x, hx, hfirst, -⟩ := hinside r hr
    rw [hlast]
    cases hshown : shown.getLast? with
    | none => exact lt_of_lt_of_le (hrange x (List.mem_append_right _ hx)).1 hfirst
    | some y => exact lt_of_lt_of_le (hacross y (List.mem_of_getLast? hshown) x hx) hfirst
  · rw [hend, hlast, List.getLast?_append]
    cases more.getLast? with
    | none => rfl
    | some x => rfl

/-- **A page is printed.** -/
theorem Following.print (h : Following sha c storage guarded w f)
    (hcurrent : f.current = some attempt)
    (hinit : shown ++ more <+: streamLog w.store c.project attempt stream)
    (hfetched : ∀ x ∈ shown ++ more,
      fetchLogSegment storage attempt x = some (recordsOf storage attempt x))
    (hprinted : printed f.out attempt stream = shown.flatMap (recordsOf storage attempt))
    (hlast : f.lastSequence stream = (shown.getLast?.map LogSegment.lastSequence).getD 0)
    (hcursor : cursor = (shown ++ more).getLast?.map LogSegment.lastSequence) :
    Following sha c storage guarded w
      (f.print stream cursor (more.flatMap (recordsOf storage attempt))) := by
  obtain ⟨hnew, hend⟩ := newRecords_next h.reached hinit
    (fun x hx => hfetched x (List.mem_append_right _ hx)) hlast
  have hprint := printed_print stream cursor (h.heading.trans hcurrent)
    (more.flatMap (recordsOf storage attempt))
  rw [hnew] at hprint
  have hnamed : ∀ attempt', Line.attempt attempt' ∈
      (f.print stream cursor (more.flatMap (recordsOf storage attempt))).out ↔
        Line.attempt attempt' ∈ f.out := by
    intro attempt'
    show _ ∈ f.out ++ List.map _ _ ↔ _
    simp
  refine ⟨h.reached, ?_, fun attempt' hname => h.named attempt' ((hnamed attempt').mp hname),
    fun attempt' hcurrent' => ?_, fun hguarded attempt' hname hpast stream' hstream' => ?_⟩
  · show headingFrom none (f.out ++ List.map _ _) = _
    rw [headingFrom_append, headingFrom_records]
    exact h.heading
  · obtain rfl : attempt = attempt' := Option.mem_unique hcurrent hcurrent'
    obtain ⟨hname, hshows⟩ := h.shows attempt hcurrent
    refine ⟨(hnamed attempt).mpr hname, fun stream' => ?_⟩
    by_cases hstream : stream = stream'
    · subst hstream
      refine ⟨shown ++ more, hinit, hfetched, ?_, ?_, ?_⟩
      · rw [hprint, if_pos ⟨rfl, rfl⟩, hprinted, List.flatMap_append]
      · exact (Function.update_self ..).trans hcursor
      · refine (Function.update_self ..).trans ?_
        rw [hnew]
        exact hend
    · obtain ⟨shown', hinit', hfetched', hprinted', hcursor', hlast'⟩ := hshows stream'
      refine ⟨shown', hinit', hfetched', ?_, ?_, ?_⟩
      · rw [hprint, if_neg fun hboth => hstream hboth.2, List.append_nil, hprinted']
      · exact (Function.update_of_ne (Ne.symm hstream) ..).trans hcursor'
      · exact (Function.update_of_ne (Ne.symm hstream) ..).trans hlast'
  · have hother : attempt ≠ attempt' := fun heq => hpast (hcurrent.trans (congrArg some heq))
    obtain ⟨hall, hprinted'⟩ :=
      h.past hguarded attempt' ((hnamed attempt').mp hname) hpast stream' hstream'
    refine ⟨hall, ?_⟩
    rw [hprint, if_neg fun hboth => hother hboth.1, List.append_nil, hprinted']

/-- A cursor at the end of the stream. -/
theorem drained_of_end (h : Reachable sha w) (hmine : w.store.attemptIn c.project attempt = true)
    (hcursor : f.cursors stream = (streamLog w.store c.project attempt stream).getLast?.map
      LogSegment.lastSequence) : f.Drained w.store attempt stream := by
  intro id l hl hof
  by_contra hafter
  obtain ⟨x, hx, -⟩ := h.mem_streamLog hl hof hmine
  have hrest := h.logSegments_rest
    (List.append_nil (streamLog w.store c.project attempt stream))
  have hmem := mem_logSegments.mpr ⟨id, l, hl, hof, hmine, not_le.mp hafter, hx⟩
  rw [hcursor, hrest] at hmem
  exact absurd hmem List.not_mem_nil

end Printing

theorem Pass.congr {f' : Follow} (hp : Pass c w f latest left) (hcurrent : f'.current = f.current)
    (hcursors : f'.cursors = f.cursors) : Pass c w f' latest left where
  current := hcurrent.trans hp.current
  listed := hp.listed
  drained := by
    unfold Follow.Drained
    rw [hcursors]
    exact hp.drained

/-- **One page of a stream.** -/
theorem Following.poll {w₁ w₂ : World} (h : Following sha c storage guarded w f)
    (hs : Staged c storage guarded w f) {completion : Option LogCompletion}
    (hstage : f.stage = .poll latest left completion) (hlater₁ : World.Later sha w w₁)
    (hlater₂ : World.Later sha w₁ w₂) :
    Following sha c storage guarded w₂ (f.poll c storage w.store w₁.store w₂.store) ∧
      Staged c storage guarded w₂ (f.poll c storage w.store w₁.store w₂.store) := by
  have hlater := hlater₁.trans hlater₂
  have hs₂ := hs.later (by rw [hstage]; simp) h.reached hlater
  have hpass : Pass c w₂ f latest left := by
    unfold Staged at hs₂
    rw [hstage] at hs₂
    exact hs₂
  replace h := h.later hlater
  obtain heq | heq | ⟨stream, left', page, fetched, rfl, hpage, hfetched, hresult⟩ :=
    poll_cases c storage hstage hpass.current w.store w₁.store w₂.store
  · rw [heq]
    exact ⟨h, hs₂⟩
  · rw [heq]
    exact ⟨h.stage _, trivial⟩
  obtain ⟨shown, ⟨rest, hsplit⟩, hall, hprinted, hcursor, hlast⟩ :=
    (h.shows latest.id hpass.current).2 stream
  obtain ⟨hsegments, hmore, hnext⟩ := clientLogs_rest h.reached hsplit hcursor hpage
  obtain ⟨hpageall, rfl⟩ := mapM_fetchLogSegment hfetched
  have hinit : shown ++ page.segments <+: streamLog w₂.store c.project latest.id stream := by
    rw [hsegments, ← hsplit]
    exact (List.prefix_append_right_inj shown).mpr (List.take_prefix _ _)
  have hprint := h.print hpass.current hinit
    (fun x hx => (List.mem_append.mp hx).elim (hall x) (hpageall x)) hprinted hlast hnext
  rw [← List.flatMap_def] at hresult
  have hdrained : ∀ stream', stream ≠ stream' → f.Drained w₂.store latest.id stream' →
      (f.print stream page.nextCursor
        (page.segments.flatMap (recordsOf storage latest.id))).Drained w₂.store latest.id
        stream' := by
    intro stream' hne hd id l hl hof
    show _ ≤ (Function.update f.cursors stream _ stream').getD 0
    rw [Function.update_of_ne (Ne.symm hne)]
    exact hd id l hl hof
  obtain ⟨-, heq⟩ | ⟨hdone, heq⟩ := hresult
  · rw [heq]
    refine ⟨hprint, ?_⟩
    unfold Staged
    rw [show (f.print stream page.nextCursor _).stage = _ from hstage]
    refine ⟨hpass.current, hpass.listed, fun hended stream' hstream' hleft => ?_⟩
    have hne : stream ≠ stream' := fun heq => hleft (heq ▸ List.mem_cons_self)
    exact hdrained stream' hne (hpass.drained hended stream' hstream' hleft)
  · rw [heq]
    refine ⟨hprint.advance _ _ _, ?_⟩
    -- The page was the last one of the stream.
    rw [hmore, decide_eq_false_iff_not, not_lt] at hdone
    rw [List.take_of_length_le hdone] at hsegments
    rw [hsegments, hsplit] at hnext
    have hpass' : Pass c w₂ (f.print stream page.nextCursor
        (page.segments.flatMap (recordsOf storage latest.id))) latest left' := by
      refine ⟨hpass.current, hpass.listed, fun hended stream' hstream' hleft => ?_⟩
      by_cases hne : stream = stream'
      · subst hne
        exact drained_of_end h.reached hpass.listed.own ((Function.update_self ..).trans hnext)
      · refine hdrained stream' hne (hpass.drained hended stream' hstream' ?_)
        rw [List.mem_cons, not_or]
        exact ⟨Ne.symm hne, hleft⟩
    obtain ⟨stage, reported, lines, hadvance, -, hstage'⟩ := advance_eq (c := c)
      (f := f.print stream page.nextCursor (page.segments.flatMap (recordsOf storage latest.id)))
      latest left' (page.completion.or completion)
    rw [hadvance]
    unfold Staged
    cases left' with
    | cons stream' left' =>
      rw [hstage']
      exact hpass'.congr rfl rfl
    | nil =>
      by_cases hfollow : c.follow = true
      · rw [hstage']
        simp only [if_pos hfollow]
        exact hpass'.congr rfl rfl
      · rw [hstage']
        simp only [if_neg hfollow]
        exact fun hfollow' => absurd hfollow' hfollow

theorem getJob_cases {latest : Option AttemptRecord} (hstage : f.stage = .job latest) (s : Store) :
    f.getJob c s = f.fail ∨ f.getJob c s = { f with stage := .list } ∨
      latest.all (fun a => a.state.terminal) = true ∧
      f.getJob c s = { f with stage := .returned } := by
  unfold Follow.getJob
  rw [hstage]
  cases hjob : Dispatch.getJob s c.project c.job with
  | error e => exact .inl rfl
  | ok record =>
    simp only []
    by_cases hdone : (record.state.isTerminal && latest.all (fun a => a.state.terminal)) = true
    · rw [if_pos hdone]
      exact .inr (.inr ⟨(Bool.and_eq_true _ _ ▸ hdone).2, rfl⟩)
    · rw [if_neg hdone]
      exact .inr (.inl rfl)

/-- **The state of the job.** -/
theorem Following.job (h : Following sha c storage guarded w f)
    (hs : Staged c storage guarded w f) {latest : Option AttemptRecord}
    (hstage : f.stage = .job latest)
    (hguard : guarded = true → (f.getJob c w.store).stage = .returned →
      ∀ id a, w.store.attempts.lookup id = some a → a.job = c.job →
        ∃ listed ∈ latest, a.number ≤ listed.number) :
    Following sha c storage guarded w (f.getJob c w.store) ∧
      Staged c storage guarded w (f.getJob c w.store) := by
  obtain heq | heq | ⟨hended, heq⟩ := getJob_cases (c := c) hstage w.store
  · rw [heq]
    exact ⟨h.stage _, trivial⟩
  · rw [heq]
    exact ⟨h.stage _, trivial⟩
  rw [heq] at hguard ⊢
  refine ⟨h.stage _, fun _ => ?_⟩
  unfold Staged at hs
  rw [hstage] at hs
  cases latest with
  | none =>
    have hnone : f.current = none := hs
    refine ⟨fun attempt hcurrent => absurd (hnone.symm.trans hcurrent) (by simp), ?_⟩
    intro hguarded id a ha hjob
    obtain ⟨listed, hlisted, -⟩ := hguard hguarded rfl id a ha hjob
    exact absurd hlisted (by simp)
  | some latest =>
    have hpass : Pass c w f latest [] := hs
    have hterminal : latest.state.terminal = true := hended
    refine ⟨fun attempt hcurrent stream hstream => ?_, fun hguarded id a ha hjob hnewest => ?_⟩
    · obtain rfl := Option.mem_unique hpass.current hcurrent
      exact ((h.shows latest.id hpass.current).2 stream).all h.reached
        (hpass.drained hterminal stream hstream List.not_mem_nil)
    · obtain ⟨listed, hlisted, hle⟩ := hguard hguarded rfl id a ha hjob
      obtain rfl : latest = listed := Option.some.inj hlisted
      obtain ⟨a', ha', hjob', hnumber', -⟩ := hpass.listed.row
      have hle' := hnewest latest.id a' ha' hjob'
      have hsame := h.reached.ledger_sound.numbered.once latest.id id a' a ha' ha
        (hjob'.trans hjob.symm) (by omega)
      exact hpass.current.trans (congrArg some hsame)

/-- **Along every run.** -/
theorem FollowRun.following (h : FollowRun sha c storage guarded w f) :
    Following sha c storage guarded w f ∧ Staged c storage guarded w f := by
  induction h with
  | start hw => exact ⟨.start hw, trivial⟩
  | server _ hrunning hstep ih =>
    have hlater := Relation.ReflTransGen.single hstep
    exact ⟨ih.1.later hlater, ih.2.later hrunning ih.1.reached hlater⟩
  | list _ _ hlater hguard ih => exact ih.1.list hlater hguard
  | poll _ hstage hlater₁ hlater₂ ih => exact ih.1.poll ih.2 hstage hlater₁ hlater₂
  | job _ hstage hguard ih => exact ih.1.job ih.2 hstage hguard

/-- **A stream is printed completely**: each record of every segment registered
for it once, in the order of their numbers, and nothing else. -/
structure Complete (c : Command) (storage : Storage) (w : World) (out : List Line) (attempt : Uuid)
    (stream : Stream) : Prop where
  segments : ∀ id l, w.store.logSegments.lookup id = some l → l.Of attempt stream →
    ∃ x ∈ streamLog w.store c.project attempt stream, logSegment w.store l = some x ∧
      fetchLogSegment storage attempt x = some (recordsOf storage attempt x)
  printed : printed out attempt stream =
    (streamLog w.store c.project attempt stream).flatMap (recordsOf storage attempt)
  ordered : (Dispatch.printed out attempt stream).Pairwise (fun r r' => r.sequence < r'.sequence)

theorem ShowsAll.complete (h : Reachable sha w) {attempt : Uuid} {stream : Stream}
    {out : List Line} (hmine : w.store.attemptIn c.project attempt = true)
    (hs : ShowsAll c storage w out attempt stream) : Complete c storage w out attempt stream where
  segments id l hl hof := by
    obtain ⟨x, hx, hmem⟩ := h.mem_streamLog hl hof hmine
    exact ⟨x, hmem, hx, hs.1 x hmem⟩
  printed := hs.2
  ordered := by
    rw [hs.2]
    exact (records_sound (h.pairwise_streamLog c.project attempt stream)
      (fun x hx => (h.range_streamLog hx).2) hs.1).1

/-- **What the command has shown when it returns.** The attempt it followed last
is printed completely. In a guarded run so is every attempt it showed, and the
last attempt of the job is one of them. -/
theorem followed_logs (h : FollowRun sha c storage guarded w f) (hfollow : c.follow = true)
    (hreturned : f.stage = .returned) :
    (∀ attempt, f.current = some attempt → ∀ stream ∈ c.streams,
      Complete c storage w f.out attempt stream) ∧
    (guarded = true →
      (∀ attempt, .attempt attempt ∈ f.out → ∀ stream ∈ c.streams,
        Complete c storage w f.out attempt stream) ∧
      ∀ id a, w.store.attempts.lookup id = some a → a.job = c.job →
        (∀ id' a', w.store.attempts.lookup id' = some a' → a'.job = c.job → a'.number ≤ a.number) →
        .attempt id ∈ f.out ∧ ∀ stream ∈ c.streams, Complete c storage w f.out id stream) := by
  obtain ⟨hf, hs⟩ := h.following
  unfold Staged at hs
  rw [hreturned] at hs
  have hended := hs hfollow
  have hcurrent : ∀ attempt, f.current = some attempt → ∀ stream ∈ c.streams,
      Complete c storage w f.out attempt stream := by
    intro attempt hcurrent stream hstream
    obtain ⟨number, hl, -⟩ := hf.named attempt (hf.shows attempt hcurrent).1
    exact (hended.current attempt hcurrent stream hstream).complete hf.reached hl.own
  refine ⟨hcurrent, fun hguarded => ⟨fun attempt hnamed stream hstream => ?_,
    fun id a ha hjob hnewest => ?_⟩⟩
  · by_cases hfollowed : f.current = some attempt
    · exact hcurrent attempt hfollowed stream hstream
    · obtain ⟨number, hl, -⟩ := hf.named attempt hnamed
      exact (hf.past hguarded attempt hnamed hfollowed stream hstream).complete hf.reached hl.own
  · have hlast := hended.newest hguarded id a ha hjob hnewest
    exact ⟨(hf.shows id hlast).1, hcurrent id hlast⟩

/-! ## Runs that can be evaluated -/

/-- The next request of the command, answered from one store. -/
def Follow.turn (c : Command) (storage : Storage) (s : Store) (f : Follow) : Follow :=
  match f.stage with
  | .list => f.list c s s
  | .poll _ _ _ => f.poll c storage s s s
  | .job _ => f.getJob c s
  | .returned => f
  | .failed => f

/-- The command neither leaves an attempt nor can miss one with this request. -/
def Follow.guards (c : Command) (s : Store) (f : Follow) : Bool :=
  match f.stage with
  | .list => f.current.isNone
  | .job latest => s.attempts.entries.all (fun e =>
      decide (e.2.job ≠ c.job) || latest.any (fun listed => decide (e.2.number ≤ listed.number)))
  | _ => true

theorem FollowRun.turn (h : FollowRun sha c storage guarded w f)
    (hguards : guarded = true → f.guards c w.store = true) :
    FollowRun sha c storage guarded w (f.turn c storage w.store) := by
  unfold Follow.guards at hguards
  unfold Follow.turn
  cases hstage : f.stage with
  | list =>
    rw [hstage] at hguards
    refine h.list hstage .refl fun hguarded attempt hcurrent => ?_
    exact absurd (Option.isNone_iff_eq_none.mp (hguards hguarded) ▸ hcurrent) (by simp)
  | poll latest left completion => exact h.poll hstage .refl .refl
  | job latest =>
    rw [hstage] at hguards
    refine h.job hstage fun hguarded _ id a ha hjob => ?_
    have hall := List.all_eq_true.mp (hguards hguarded) ⟨id, a⟩ (AList.mem_lookup_iff.mp ha)
    simp only [Bool.or_eq_true, decide_eq_true_eq, Option.any_eq_true] at hall
    exact hall.resolve_left fun hne => hne hjob
  | returned => exact h
  | failed => exact h

theorem FollowRun.turns (h : FollowRun sha c storage guarded w f) (n : ℕ)
    (hguards : guarded = true → ∀ i < n, ((Follow.turn c storage w.store)^[i] f).guards c w.store
      = true) : FollowRun sha c storage guarded w ((Follow.turn c storage w.store)^[n] f) := by
  induction n with
  | zero => exact h
  | succ n ih =>
    rw [Function.iterate_succ_apply']
    exact (ih fun hguarded i hi => hguards hguarded i (by omega)).turn
      fun hguarded => hguards hguarded n (by omega)

theorem FollowRun.run (h : FollowRun sha c storage guarded w f) (hrunning : f.stage ≠ .returned)
    (hlater : World.Later sha w w') : FollowRun sha c storage guarded w' f := by
  induction hlater with
  | refl => exact h
  | tail _ hstep ih => exact ih.server hrunning hstep

end Runs

/-- The records 1 to 10 without 4, wherever one looks. -/
def Sample.storage : Storage where
  grants _ := true
  object _ := some ⟨1, .stdout, [1, 2, 3, 5, 6, 7, 8, 9, 10].map (fun n => ⟨n, []⟩)⟩

/-- Both streams of job 1 are followed. -/
def Sample.follow : Command := ⟨1, 1, [.stdout, .stderr], true⟩

/-- Attempt 1 is lost after its log is catalogued, and attempt 2 is assigned and
to be cancelled. -/
def Sample.relieved : List (Time × Op) :=
  Sample.logged ++ [(40 * second, .reap Sample.seen (40 * second))] ++
    Sample.seated 2 (41 * second) ++
    [(41 * second, .acquire (41 * second) (41 * second) Sample.identity ⟨2, 2⟩ ⟨false⟩ 2),
      (41 * second, .cancel 1 1)]

/-- The last attempt is lost, and the job is over. -/
def Sample.ends (w : World) : Except StoreError World :=
  w.run Sample.sha [(80 * second, .reap w.store (80 * second))]

/-- The log of attempt 1 is catalogued, and nothing of it is printed. -/
def Sample.unprinted (s : Store) (f : Follow) : Bool :=
  decide (f.stage = .returned) && decide (printed f.out 1 .stdout = []) &&
    decide (((streamLog s 1 1 .stdout).flatMap (recordsOf Sample.storage 1)).length = 9)

/-- A run of the control plane, `n` requests of the command, another run until the
job is over, and `m` more requests. -/
theorem Sample.followed {start : World} (hstart : Reachable Sample.sha start)
    (first ops : List (Time × Op)) (n m : ℕ) (p : World → Follow → Bool)
    (h : (start.run Sample.sha first).toOption.any (fun w₀ =>
      let f := (Follow.turn Sample.follow Sample.storage w₀.store)^[n] .start
      decide (f.stage ≠ .returned) && (w₀.run Sample.sha ops).toOption.any (fun w =>
        (Sample.ends w).toOption.any (fun w' =>
          p w' ((Follow.turn Sample.follow Sample.storage w'.store)^[m] f)))) = true) :
    ∃ w f, FollowRun Sample.sha Sample.follow Sample.storage false w f ∧ p w f = true := by
  simp only [Bool.and_eq_true, decide_eq_true_eq, Option.any_eq_true, toOption_eq_some] at h
  obtain ⟨w₀, hfirst, hrunning, w, hrun, w', hend, hp⟩ := h
  have hlater := (World.run_steps hrun).trans (World.run_steps hend)
  have hasked : FollowRun Sample.sha Sample.follow Sample.storage false w₀
      ((Follow.turn Sample.follow Sample.storage w₀.store)^[n] .start) :=
    (FollowRun.start (hstart.run hfirst)).turns n fun hfalse => absurd hfalse Bool.false_ne_true
  exact ⟨w', _, (hasked.run hrunning hlater).turns m fun hfalse =>
    absurd hfalse Bool.false_ne_true, hp⟩

/-- **Two ways to miss a log.** In the first run the command shows attempt 1,
whose log comes in after the command has read its streams; the next listing
finds attempt 2, and the command goes over to it. In the second run the command
lists the attempts before there are any, and asks for the state of the job when
it is over. -/
theorem followed_logs_missed :
    (∃ w f, FollowRun Sample.sha Sample.follow Sample.storage false w f ∧
      Sample.unprinted w.store f = true ∧ .attempt 1 ∈ f.out) ∧
    ∃ w f, FollowRun Sample.sha Sample.follow Sample.storage false w f ∧
      Sample.unprinted w.store f = true ∧ w.store.attempts.keys = [1] ∧ f.out = [] := by
  constructor
  · obtain ⟨w, f, hrun, hp⟩ := Sample.followed Sample.assigned_reachable [] Sample.relieved 4 4
      (fun w f => Sample.unprinted w.store f && decide (.attempt 1 ∈ f.out)) (by decide +kernel)
    simp only [Bool.and_eq_true, decide_eq_true_eq] at hp
    exact ⟨w, f, hrun, hp.1, hp.2⟩
  · obtain ⟨w, f, hrun, hp⟩ := Sample.followed Sample.world_reachable (Sample.assigned.take 3)
      (Sample.assigned.drop 3 ++ Sample.logged ++ [(2 * second, .cancel 1 1)]) 1 1
      (fun w f => Sample.unprinted w.store f && decide (w.store.attempts.keys = [1]) &&
        decide (f.out = [])) (by decide +kernel)
    simp only [Bool.and_eq_true, decide_eq_true_eq] at hp
    exact ⟨w, f, hrun, hp.1.1, hp.1.2, hp.2⟩

/-- A command that begins when the job is over prints the log of its attempt. -/
theorem sample_followed_logs : ∃ w f, FollowRun Sample.sha Sample.follow Sample.storage true w f ∧
    Sample.follow.follow = true ∧ f.stage = .returned ∧ (printed f.out 1 .stdout).length = 9 ∧
    Complete Sample.follow Sample.storage w f.out 1 .stdout := by
  have hrun : (Sample.assignedWorld.run Sample.sha
      (Sample.logged ++ [(2 * second, .cancel 1 1)])).toOption.any (fun w =>
        (Sample.ends w).toOption.any (fun w' =>
          let f := fun i => (Follow.turn Sample.follow Sample.storage w'.store)^[i] .start
          (List.range 4).all (fun i => (f i).guards Sample.follow w'.store) &&
            decide ((f 4).stage = .returned) && decide ((printed (f 4).out 1 .stdout).length = 9) &&
            decide (.attempt 1 ∈ (f 4).out))) = true := by decide +kernel
  simp only [Option.any_eq_true, toOption_eq_some, Bool.and_eq_true, decide_eq_true_eq,
    List.all_eq_true, List.mem_range] at hrun
  obtain ⟨w, hrun, w', hend, ⟨⟨hguards, hreturned⟩, hlength⟩, hnamed⟩ := hrun
  have hreached := (Sample.assigned_reachable.run hrun).run hend
  have hfollow : FollowRun Sample.sha Sample.follow Sample.storage true w'
      ((Follow.turn Sample.follow Sample.storage w'.store)^[4] .start) :=
    (FollowRun.start hreached).turns 4 fun _ => hguards
  exact ⟨w', _, hfollow, rfl, hreturned, hlength,
    ((followed_logs hfollow rfl hreturned).2 rfl).1 1 hnamed .stdout List.mem_cons_self⟩

end Dispatch
