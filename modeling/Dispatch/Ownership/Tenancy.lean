import Dispatch.Files.Catalog
import Dispatch.Store.Reads

/-!
# A project reads its own rows only

Two states that agree on the rows of a project give the same answers to
everything the project may ask. What hangs on a job is a row of the job's
project: its attempts, events, blockers and completions, and through an attempt
its uploads, artifacts and log segments.

Every statement but one names the project. The segments of a log are joined with
their artifacts and uploads by identifier alone; there the foreign keys of
`log_segments` take the place of the project, since they name the attempt on
both sides.
-/

namespace Dispatch

open Txn

variable {id job : Uuid} {s₂ s₃ s₂' : Store}

/-! ## The rows of a project -/

/-- The sweep is one of the project. -/
def Store.sweepIn (s : Store) (project sweep : Uuid) : Bool :=
  match s.sweeps.lookup sweep with
  | some row => decide (row.project = project)
  | none => false

/-- The upload is by an attempt of the project. -/
def Store.uploadIn (s : Store) (project upload : Uuid) : Bool :=
  match s.uploads.lookup upload with
  | some u => s.attemptIn project u.claims.authority.attemptID
  | none => false

/-- **The states agree on all rows of a project.** -/
structure Store.Agree (project : Uuid) (s s' : Store) : Prop where
  jobs : s.jobs.SameOn (fun _ j => j.project = project) s'.jobs
  sweeps : s.sweeps.SameOn (fun _ row => row.project = project) s'.sweeps
  attempts : s.attempts.SameOn (fun _ a => s.jobIn project a.job = true) s'.attempts
  events : s.events.SameOn (fun k _ => s.jobIn project k.1 = true) s'.events
  blockers : s.blockers.SameOn (fun k _ => s.jobIn project k.1 = true) s'.blockers
  completions : s.completions.SameOn (fun attempt c => s.jobIn project c.job = true ∨
    s.attemptIn project attempt = true) s'.completions
  uploads : s.uploads.SameOn (fun _ u => s.attemptIn project u.claims.authority.attemptID = true)
    s'.uploads
  artifacts : s.artifacts.SameOn (fun _ a => s.uploadIn project a.upload = true) s'.artifacts
  logSegments : s.logSegments.SameOn (fun _ l =>
    s.attemptIn project l.claims.authority.attemptID = true) s'.logSegments

/-- **The foreign keys of `log_segments`**: the artifact of a segment is that of
its upload, and the upload is one of the segment's attempt. -/
def Store.Cited (s : Store) : Prop :=
  ∀ id l, s.logSegments.lookup id = some l → ∃ a u,
    s.artifacts.lookup l.claims.artifactID = some a ∧ a.upload = l.upload ∧
    s.uploads.lookup l.upload = some u ∧
    u.claims.authority.attemptID = l.claims.authority.attemptID

theorem Reachable.cited {sha : Uuid → ℕ} {w : World} (h : Reachable sha w) : w.store.Cited := by
  intro id l hl
  obtain ⟨a, u, ha, hupload, hu, hmine, -⟩ := (h.catalogued.segments id l hl).artifact
  exact ⟨a, u, ha, hupload, hu, congrArg AttemptAuthority.attemptID hmine⟩

section

variable {project : Uuid} {s s' : Store}

theorem Store.jobIn_iff :
    s.jobIn project id = true ↔ ∃ j, s.jobs.lookup id = some j ∧ j.project = project := by
  unfold Store.jobIn
  cases s.jobs.lookup id with
  | none => simp
  | some j => simp

theorem Store.sweepIn_iff :
    s.sweepIn project id = true ↔ ∃ row, s.sweeps.lookup id = some row ∧ row.project = project := by
  unfold Store.sweepIn
  cases s.sweeps.lookup id with
  | none => simp
  | some row => simp

theorem Store.attemptIn_iff : s.attemptIn project id = true ↔
    ∃ a, s.attempts.lookup id = some a ∧ s.jobIn project a.job = true := by
  unfold Store.attemptIn
  cases s.attempts.lookup id with
  | none => simp
  | some a => simp

theorem Store.uploadIn_iff : s.uploadIn project id = true ↔
    ∃ u, s.uploads.lookup id = some u ∧ s.attemptIn project u.claims.authority.attemptID = true
    := by
  unfold Store.uploadIn
  cases s.uploads.lookup id with
  | none => simp
  | some u => simp

namespace Store.Agree

/-- Which jobs are the project's is itself read off its rows. -/
theorem jobIn (h : s.Agree project s') : s'.jobIn project = s.jobIn project := by
  funext id
  rw [Bool.eq_iff_iff, jobIn_iff, jobIn_iff]
  exact exists_congr fun j => and_congr_left fun hj => h.jobs id j hj

theorem attemptIn (h : s.Agree project s') : s'.attemptIn project = s.attemptIn project := by
  funext id
  rw [Bool.eq_iff_iff, attemptIn_iff, attemptIn_iff, h.jobIn]
  exact exists_congr fun a => and_congr_left fun ha => h.attempts id a ha

end Store.Agree

/-! ## Jobs -/

theorem getJobDiagnostics_foreign (h : s.jobIn project id = false) (now : Time) :
    getJobDiagnostics s now project id = .error .notFound := by
  unfold getJobDiagnostics getJob
  unfold Store.jobIn at h
  cases hj : s.jobs.lookup id with
  | none => rfl
  | some j =>
    rw [hj] at h
    have hproject : ¬ j.project = project := of_decide_eq_false h
    rw [orThrow_some, ok_bind, require, if_neg hproject]
    rfl

theorem getQueueBlockers_foreign (h : s.jobIn project id = false) :
    getQueueBlockers s project id = .error .notFound := by
  unfold getQueueBlockers
  rw [h]
  rfl

theorem acceptedCompletion_eq_some {j : JobRow} {c : CompletionRow} :
    acceptedCompletion s job j = some c ↔ ∃ attempt, j.acceptedAttempt = some attempt ∧
      s.completions.lookup attempt = some c ∧ c.job = job ∧ c.state = .succeeded := by
  unfold acceptedCompletion
  simp only [Option.bind_eq_bind, Option.bind_eq_some_iff, Option.ite_none_right_eq_some,
    Option.some.injEq]
  constructor
  · rintro ⟨attempt, ha, c', hc', ⟨hjob, hstate⟩, rfl⟩
    exact ⟨attempt, ha, hc', hjob, hstate⟩
  · rintro ⟨attempt, ha, hc, hjob, hstate⟩
    exact ⟨attempt, ha, c, hc, ⟨hjob, hstate⟩, rfl⟩

theorem record_acceptedManifest (s : Store) (id : Uuid) (j : JobRow) (replayed : Bool) :
    (j.record s id replayed).acceptedManifest =
      (acceptedCompletion s id j).map CompletionRow.manifest := by
  show j.acceptedAttempt.bind _ = _
  unfold acceptedCompletion
  cases j.acceptedAttempt with
  | none => rfl
  | some attempt =>
    show (s.completions.lookup attempt).bind _
      = Option.map _ ((s.completions.lookup attempt).bind _)
    cases s.completions.lookup attempt with
    | none => rfl
    | some c =>
      show (if _ then _ else _) = Option.map _ (if _ then _ else _)
      split <;> rfl

namespace Store.Agree

theorem lookup_job (h : s.Agree project s') {j : JobRow} (hj : s.jobs.lookup id = some j)
    (hproject : j.project = project) : s'.jobs.lookup id = some j :=
  (h.jobs id j hproject).mpr hj

theorem queueBlockerHistory (h : s.Agree project s') (hj : s.jobIn project job = true) :
    queueBlockerHistory s' job = queueBlockerHistory s job := by
  unfold Dispatch.queueBlockerHistory
  rw [h.blockers.ordered_eq]
  · intro k r hk
    rw [of_decide_eq_true hk]
    exact hj
  · intro k r k' r' hk hk' _ hslot
    exact Prod.ext ((of_decide_eq_true hk).trans (of_decide_eq_true hk').symm) hslot

theorem acceptedCompletion (h : s.Agree project s') (hj : s.jobIn project job = true) (j : JobRow) :
    acceptedCompletion s' job j = acceptedCompletion s job j := by
  refine Option.ext fun c => ?_
  rw [acceptedCompletion_eq_some, acceptedCompletion_eq_some]
  refine exists_congr fun attempt => and_congr_right fun _ => and_congr_left fun hc => ?_
  exact h.completions attempt c (.inl (hc.1 ▸ hj))

theorem record (h : s.Agree project s') (hj : s.jobIn project id = true) (j : JobRow)
    (replayed : Bool) : j.record s' id replayed = j.record s id replayed := by
  have hmanifest : (j.record s' id replayed).acceptedManifest =
      (j.record s id replayed).acceptedManifest := by
    rw [record_acceptedManifest, record_acceptedManifest, h.acceptedCompletion hj]
  exact congrArg (fun m => { j.record s id replayed with acceptedManifest := m }) hmanifest

theorem getJobDiagnostics (h : s.Agree project s') (now : Time) (id : Uuid) :
    getJobDiagnostics s' now project id = getJobDiagnostics s now project id := by
  cases hj : s.jobIn project id with
  | false => rw [getJobDiagnostics_foreign hj, getJobDiagnostics_foreign (h.jobIn ▸ hj)]
  | true =>
    obtain ⟨j, hlookup, hproject⟩ := jobIn_iff.mp hj
    unfold Dispatch.getJobDiagnostics getJob
    rw [hlookup, h.lookup_job hlookup hproject, h.queueBlockerHistory hj]
    simp only [orThrow_some, ok_bind, h.record hj]

theorem getQueueBlockers (h : s.Agree project s') (job : Uuid) :
    getQueueBlockers s' project job = getQueueBlockers s project job := by
  cases hj : s.jobIn project job with
  | false => rw [getQueueBlockers_foreign hj, getQueueBlockers_foreign (h.jobIn ▸ hj)]
  | true =>
    unfold Dispatch.getQueueBlockers
    rw [h.jobIn, h.queueBlockerHistory hj]

theorem listJobs (h : s.Agree project s') (size : JobSummary → ℕ) (filter : JobListFilter)
    (after : Option JobListPosition) (limit : ℕ) :
    listJobs size s' project filter after limit = listJobs size s project filter after limit := by
  have hrows : listedJobs s' project filter after = listedJobs s project filter after := by
    refine h.jobs.ordered_eq ?_ fun k r k' r' _ _ _ hid => hid
    intro id j hj
    simp only [Bool.and_eq_true, decide_eq_true_eq] at hj
    exact hj.1.1.1
  unfold Dispatch.listJobs
  rw [hrows]

end Store.Agree

/-! ## Attempts and events -/

theorem listAttempts_foreign (h : s.jobIn project job = false) :
    listAttempts s s₂ project job =
      require (canonicalUUID project ∧ canonicalUUID job) .invalid >>= fun _ => .error .notFound
    := by
  unfold listAttempts
  rw [h]
  rfl

theorem listJobEvents_foreign (h : s.jobIn project job = false) (size : JobEvent → ℕ)
    (after limit : ℕ) : listJobEvents size s project job after limit =
      require (canonicalUUID project ∧ canonicalUUID job ∧ 1 ≤ limit ∧ limit ≤ 100) .invalid >>=
        fun _ => .error .notFound := by
  unfold listJobEvents
  rw [h]
  rfl

namespace Store.Agree

theorem listAttempts (h : s.Agree project s') (h₂ : s₂.Agree project s₂') (job : Uuid) :
    listAttempts s' s₂' project job = listAttempts s s₂ project job := by
  unfold Dispatch.listAttempts
  rw [h.jobIn, h₂.jobIn, h₂.attempts.ordered_eq]
  · intro id a ha
    rw [Bool.and_eq_true] at ha
    exact ha.2
  · exact fun _ _ _ _ _ _ _ hid => hid

theorem listJobEvents (h : s.Agree project s') (size : JobEvent → ℕ) (job : Uuid)
    (after limit : ℕ) :
    listJobEvents size s' project job after limit
    = listJobEvents size s project job after limit := by
  unfold Dispatch.listJobEvents
  rw [h.jobIn, h.events.ordered_eq]
  · intro k e hk
    rw [Bool.and_eq_true, Bool.and_eq_true] at hk
    exact hk.1.2
  · exact fun _ _ _ _ _ _ hsequence hjob => Prod.ext hjob hsequence

end Store.Agree

/-! ## Sweeps -/

theorem getSweep_foreign {sweep : Uuid} (h : s.sweepIn project sweep = false)
    (size : SweepChild → ℕ) (after : ℤ) (limit : ℕ) : getSweep size s project sweep after limit =
      require (canonicalUUID project ∧ canonicalUUID sweep ∧ -1 ≤ after ∧ after < maxSweepJobs ∧
        1 ≤ limit ∧ limit ≤ maxSweepPageSize) .invalid >>= fun _ => .error .notFound := by
  unfold getSweep
  unfold Store.sweepIn at h
  cases hrow : s.sweeps.lookup sweep with
  | none => rfl
  | some row =>
    rw [hrow] at h
    have hproject : ¬ row.project = project := of_decide_eq_false h
    rw [orThrow_some, ok_bind, require.eq_def (row.project = project), if_neg hproject]
    rfl

theorem jobIn_of_mem_childrenOf {sweep : Uuid} {x : Uuid × JobRow}
    (hx : x ∈ childrenOf s project sweep) : s.jobIn project x.1 = true := by
  obtain ⟨hlookup, hchild⟩ := Table.mem_ordered.mp hx
  rw [Bool.and_eq_true, decide_eq_true_eq] at hchild
  exact Store.jobIn_iff.mpr ⟨x.2, hlookup, hchild.1⟩

namespace Store.Agree

theorem childrenOf (h : s.Agree project s') (sweep : Uuid) :
    childrenOf s' project sweep = childrenOf s project sweep := by
  refine h.jobs.ordered_eq ?_ fun _ _ _ _ _ _ _ hid => hid
  intro id j hj
  rw [Bool.and_eq_true, decide_eq_true_eq] at hj
  exact hj.1

theorem sweepChild (h : s.Agree project s') (row : SweepRow) {x : Uuid × JobRow}
    (hx : s.jobIn project x.1 = true) : sweepChild s' row x = sweepChild s row x := by
  unfold Dispatch.sweepChild
  rw [h.acceptedCompletion hx]

theorem getSweep (h : s.Agree project s') (size : SweepChild → ℕ) (sweep : Uuid) (after : ℤ)
    (limit : ℕ) :
    getSweep size s' project sweep after limit = getSweep size s project sweep after limit := by
  cases hsweep : s.sweepIn project sweep with
  | false =>
    have hsweep' : s'.sweepIn project sweep = false := by
      rw [← Bool.not_eq_true, sweepIn_iff] at hsweep ⊢
      rintro ⟨row, hrow, hproject⟩
      exact hsweep ⟨row, (h.sweeps sweep row hproject).mp hrow, hproject⟩
    rw [getSweep_foreign hsweep, getSweep_foreign hsweep']
  | true =>
    obtain ⟨row, hrow, hproject⟩ := sweepIn_iff.mp hsweep
    have hrows (p : Uuid × JobRow → Bool) :
        (((Dispatch.childrenOf s project sweep).filter p).take (limit + 1)).map
        (Dispatch.sweepChild s' row) =
        (((Dispatch.childrenOf s project sweep).filter p).take (limit + 1)).map
        (Dispatch.sweepChild s row) :=
      List.map_congr_left fun x hx => h.sweepChild row
        (jobIn_of_mem_childrenOf (List.mem_of_mem_filter (List.mem_of_mem_take hx)))
    unfold Dispatch.getSweep
    rw [hrow, (h.sweeps sweep row hproject).mpr hrow, h.childrenOf]
    simp only [orThrow_some, ok_bind, hrows]

end Store.Agree

/-! ## Logs -/

theorem listLogSegments_foreign {attempt : Uuid} (h : s.attemptIn project attempt = false)
    (stream : Stream) (after limit : ℕ) :
    listLogSegments s s₂ s₃ project attempt stream after limit =
      require (canonicalUUID project ∧ canonicalUUID attempt ∧ after < 2 ^ 63 ∧ 1 ≤ limit ∧
        limit ≤ maxLogPageSize) .invalid >>= fun _ => .error .notFound := by
  unfold listLogSegments
  rw [h]
  rfl

namespace Store.Agree

theorem logCompletion (h : s.Agree project s') (attempt : Uuid) :
    logCompletion s' project attempt = logCompletion s project attempt := by
  unfold Dispatch.logCompletion
  rw [h.attemptIn]
  split_ifs with hattempt
  · rw [h.completions.lookup_eq fun _ => .inr hattempt]
  · rfl

/-- The join without the project: the foreign keys lead from a segment of the
project to rows of the project. -/
theorem logSegment (h : s.Agree project s') (hcited : s.Cited) {l : LogSegmentRow}
    (hl : s.logSegments.lookup id = some l)
    (hmine : s.attemptIn project l.claims.authority.attemptID = true) :
    logSegment s' l = logSegment s l := by
  obtain ⟨a, u, ha, hupload, hu, hattempt⟩ := hcited id l hl
  rw [← hattempt] at hmine
  have hu' : s'.uploads.lookup l.upload = some u := (h.uploads l.upload u hmine).mpr hu
  have ha' : s'.artifacts.lookup l.claims.artifactID = some a := by
    refine (h.artifacts l.claims.artifactID a ?_).mpr ha
    show s.uploadIn project a.upload = true
    rw [hupload]
    exact uploadIn_iff.mpr ⟨u, hu, hmine⟩
  unfold Dispatch.logSegment
  rw [ha, ha', hu, hu']

theorem streamSegments (h : s.Agree project s') (hcited : s.Cited) (attempt : Uuid)
    (stream : Stream) (after : ℕ) : Dispatch.logSegments s' project attempt stream after =
      Dispatch.logSegments s project attempt stream after := by
  have hmine : ∀ (_ : Uuid) (l : LogSegmentRow), (decide (l.claims.authority.attemptID = attempt) &&
      s.attemptIn project l.claims.authority.attemptID && decide (l.claims.stream = stream) &&
      decide (after < l.claims.lastSequence)) = true →
      s.attemptIn project l.claims.authority.attemptID = true := by
    intro id l hl
    rw [Bool.and_eq_true, Bool.and_eq_true, Bool.and_eq_true] at hl
    exact hl.1.1.2
  unfold Dispatch.logSegments
  rw [h.attemptIn, h.logSegments.ordered_eq hmine fun _ _ _ _ _ _ _ hid => hid]
  refine List.filterMap_congr fun x hx => ?_
  obtain ⟨hl, hselected⟩ := Table.mem_ordered.mp hx
  exact h.logSegment hcited hl (hmine x.1 x.2 hselected)

theorem listLogSegments {s₃' : Store} (h : s.Agree project s') (h₂ : s₂.Agree project s₂')
    (h₃ : s₃.Agree project s₃') (hcited : s₃.Cited) (attempt : Uuid) (stream : Stream)
    (after limit : ℕ) :
    listLogSegments s' s₂' s₃' project attempt stream after limit =
      listLogSegments s s₂ s₃ project attempt stream after limit := by
  unfold Dispatch.listLogSegments
  rw [h.attemptIn, h₂.logCompletion, h₃.streamSegments hcited]

end Store.Agree

/-! ## The rows of one project alone -/

/-- **The state without the rows of any other project.** -/
def Store.only (s : Store) (project : Uuid) : Store :=
  { s with
    jobs := s.jobs.restrict (fun _ j => decide (j.project = project))
    sweeps := s.sweeps.restrict (fun _ row => decide (row.project = project))
    attempts := s.attempts.restrict (fun _ a => s.jobIn project a.job)
    events := s.events.restrict (fun k _ => s.jobIn project k.1)
    blockers := s.blockers.restrict (fun k _ => s.jobIn project k.1)
    completions := s.completions.restrict (fun attempt c =>
      s.jobIn project c.job || s.attemptIn project attempt)
    uploads := s.uploads.restrict (fun _ u => s.attemptIn project u.claims.authority.attemptID)
    artifacts := s.artifacts.restrict (fun _ a => s.uploadIn project a.upload)
    logSegments := s.logSegments.restrict (fun _ l =>
      s.attemptIn project l.claims.authority.attemptID) }

theorem Store.agree_only (s : Store) (project : Uuid) : s.Agree project (s.only project) where
  jobs := .restrict fun _ _ h => decide_eq_true h
  sweeps := .restrict fun _ _ h => decide_eq_true h
  attempts := .restrict fun _ _ h => h
  events := .restrict fun _ _ h => h
  blockers := .restrict fun _ _ h => h
  completions := .restrict fun _ _ h => (Bool.or_eq_true _ _).mpr h
  uploads := .restrict fun _ _ h => h
  artifacts := .restrict fun _ _ h => h
  logSegments := .restrict fun _ _ h => h

theorem Store.only_jobs (s : Store) (project id : Uuid) :
    ((s.only project).jobs.lookup id).isSome = s.jobIn project id := by
  rw [Bool.eq_iff_iff, Option.isSome_iff_exists, jobIn_iff]
  refine exists_congr fun j => Table.lookup_restrict.trans ?_
  rw [decide_eq_true_eq]

theorem Store.only_sweeps (s : Store) (project id : Uuid) :
    ((s.only project).sweeps.lookup id).isSome = s.sweepIn project id := by
  rw [Bool.eq_iff_iff, Option.isSome_iff_exists, sweepIn_iff]
  refine exists_congr fun row => Table.lookup_restrict.trans ?_
  rw [decide_eq_true_eq]

theorem Store.only_attempts (s : Store) (project id : Uuid) :
    ((s.only project).attempts.lookup id).isSome = s.attemptIn project id := by
  rw [Bool.eq_iff_iff, Option.isSome_iff_exists, attemptIn_iff]
  exact exists_congr fun a => Table.lookup_restrict

end

/-! ## The reads -/

/-- What a project may ask for. -/
inductive Read where
  | job (id : Uuid)
  | jobs (filter : JobListFilter) (after : Option JobListPosition) (limit : ℕ)
  | attempts (job : Uuid)
  | events (job : Uuid) (after limit : ℕ)
  | blockers (job : Uuid)
  | sweep (id : Uuid) (after : ℤ) (limit : ℕ)
  | logs (attempt : Uuid) (stream : Stream) (after limit : ℕ)

/-- What a read is answered. -/
inductive ReadAnswer where
  | job (record : JobRecord) (queue : QueueDiagnostics)
  | jobs (page : JobListPage)
  | attempts (records : List AttemptRecord)
  | events (page : JobEventPage)
  | blockers (observations : List QueueBlocker)
  | sweep (page : SweepPage)
  | logs (page : LogSegmentPage)
  deriving DecidableEq

/-- The lengths of encoded rows. -/
structure Encoded where
  job : JobSummary → ℕ
  event : JobEvent → ℕ
  child : SweepChild → ℕ

/-- What a read authorized for a project answers; its statements see `s₁`, `s₂`
and `s₃` in turn. -/
def Read.answer (size : Encoded) (now : Time) (project : Uuid) (s₁ s₂ s₃ : Store) :
    Read → Except StoreError ReadAnswer
  | .job id => (getJobDiagnostics s₁ now project id).map (fun x => .job x.1 x.2)
  | .jobs filter after limit => (listJobs size.job s₁ project filter after limit).map .jobs
  | .attempts id => (listAttempts s₁ s₂ project id).map .attempts
  | .events id after limit => (listJobEvents size.event s₁ project id after limit).map .events
  | .blockers id => (getQueueBlockers s₁ project id).map .blockers
  | .sweep id after limit => (getSweep size.child s₁ project id after limit).map .sweep
  | .logs attempt stream after limit =>
    (listLogSegments s₁ s₂ s₃ project attempt stream after limit).map .logs

theorem Read.answer_agree {size : Encoded} {now : Time} {project : Uuid} {s₁ s₁' s₃' : Store}
    (hcited : s₃.Cited) (h₁ : s₁.Agree project s₁') (h₂ : s₂.Agree project s₂')
    (h₃ : s₃.Agree project s₃') (r : Read) :
    r.answer size now project s₁' s₂' s₃' = r.answer size now project s₁ s₂ s₃ := by
  cases r with
  | job id => rw [answer, answer, h₁.getJobDiagnostics]
  | jobs filter after limit => rw [answer, answer, h₁.listJobs]
  | attempts job => rw [answer, answer, h₁.listAttempts h₂]
  | events job after limit => rw [answer, answer, h₁.listJobEvents]
  | blockers job => rw [answer, answer, h₁.getQueueBlockers]
  | sweep id after limit => rw [answer, answer, h₁.getSweep]
  | logs attempt stream after limit => rw [answer, answer, h₁.listLogSegments h₂ h₃ hcited]

/-- **Reads are isolated by project.** Whatever a project asks for, the answer
is the same in all states that agree on the project's rows; in particular it is
the answer in the state where nothing of another project exists. An identifier
of another project is answered like one that does not exist. -/
theorem project_isolation (size : Encoded) (now : Time) (project : Uuid) {s₁ s₂ s₃ : Store}
    (hcited : s₃.Cited) :
    (∀ s₁' s₂' s₃', s₁.Agree project s₁' → s₂.Agree project s₂' → s₃.Agree project s₃' →
      ∀ r : Read, r.answer size now project s₁' s₂' s₃' = r.answer size now project s₁ s₂ s₃) ∧
    ((∀ (s : Store) id, ((s.only project).jobs.lookup id).isSome = s.jobIn project id ∧
        ((s.only project).sweeps.lookup id).isSome = s.sweepIn project id ∧
        ((s.only project).attempts.lookup id).isSome = s.attemptIn project id) ∧
      ∀ r : Read, r.answer size now project (s₁.only project) (s₂.only project) (s₃.only project) =
        r.answer size now project s₁ s₂ s₃) ∧
    (∀ id id', canonicalUUID id = canonicalUUID id' →
      (s₁.jobIn project id = false → s₁.jobIn project id' = false →
        (Read.job id).answer size now project s₁ s₂ s₃
        = (Read.job id').answer size now project s₁ s₂ s₃ ∧
        (Read.attempts id).answer size now project s₁ s₂ s₃ =
          (Read.attempts id').answer size now project s₁ s₂ s₃ ∧
        (Read.blockers id).answer size now project s₁ s₂ s₃ =
          (Read.blockers id').answer size now project s₁ s₂ s₃ ∧
        ∀ after limit, (Read.events id after limit).answer size now project s₁ s₂ s₃ =
          (Read.events id' after limit).answer size now project s₁ s₂ s₃) ∧
      (s₁.sweepIn project id = false → s₁.sweepIn project id' = false → ∀ after limit,
        (Read.sweep id after limit).answer size now project s₁ s₂ s₃ =
          (Read.sweep id' after limit).answer size now project s₁ s₂ s₃) ∧
      (s₁.attemptIn project id = false → s₁.attemptIn project id' = false → ∀ stream after limit,
        (Read.logs id stream after limit).answer size now project s₁ s₂ s₃ =
          (Read.logs id' stream after limit).answer size now project s₁ s₂ s₃)) := by
  refine ⟨fun s₁' s₂' s₃' h₁ h₂ h₃ r => r.answer_agree hcited h₁ h₂ h₃,
    ⟨fun s id => ?_, fun r => ?_⟩, ?_⟩
  · exact ⟨s.only_jobs project id, s.only_sweeps project id, s.only_attempts project id⟩
  · exact r.answer_agree hcited (s₁.agree_only project) (s₂.agree_only project)
      (s₃.agree_only project)
  intro id id' hid
  simp only [Read.answer]
  refine ⟨fun h h' => ⟨?_, ?_, ?_, fun after limit => ?_⟩, fun h h' after limit => ?_,
    fun h h' stream after limit => ?_⟩
  · rw [getJobDiagnostics_foreign h, getJobDiagnostics_foreign h']
  · rw [listAttempts_foreign h, listAttempts_foreign h', hid]
  · rw [getQueueBlockers_foreign h, getQueueBlockers_foreign h']
  · rw [listJobEvents_foreign h, listJobEvents_foreign h', hid]
  · rw [getSweep_foreign h, getSweep_foreign h', hid]
  · rw [listLogSegments_foreign h, listLogSegments_foreign h', hid]

/-- Project 1 reads its log, which is the same without the other projects; to
project 2 its job is as absent as job 9, which nobody submitted. -/
theorem sample_project_isolation : ∃ (w : World) (page : LogSegmentPage), w.store.Cited ∧
    page.segments.length = 1 ∧
    (Read.logs 1 .stdout 0 10).answer ⟨fun _ => 0, fun _ => 0, fun _ => 0⟩ 0 1 (w.store.only 1)
      (w.store.only 1) (w.store.only 1) = .ok (.logs page) ∧
    w.store.jobIn 1 1 = true ∧
    (Read.job 1).answer ⟨fun _ => 0, fun _ => 0, fun _ => 0⟩ 0 2 w.store w.store w.store =
      (Read.job 9).answer ⟨fun _ => 0, fun _ => 0, fun _ => 0⟩ 0 2 w.store w.store w.store := by
  obtain ⟨w, hw, hp⟩ := Sample.reaches Sample.assigned_reachable Sample.logged (fun w =>
    w.store.jobIn 1 1 && !w.store.jobIn 2 1 && !w.store.jobIn 2 9 &&
      (listLogSegments w.store w.store w.store 1 1 .stdout 0 10).toOption.any
        (fun page : LogSegmentPage => decide (page.segments.length = 1))) (by decide +kernel)
  simp only [Bool.and_eq_true, Bool.not_eq_true', Option.any_eq_true, toOption_eq_some,
    decide_eq_true_eq] at hp
  obtain ⟨⟨⟨hmine, hforeign⟩, habsent⟩, page, hpage, hlength⟩ := hp
  refine ⟨w, page, hw.cited, hlength, ?_, hmine, ?_⟩
  · rw [(project_isolation _ 0 1 hw.cited).2.1.2, Read.answer, hpage]
    rfl
  · exact (((project_isolation _ 0 2 hw.cited).2.2 1 9 rfl).1 hforeign habsent).1

end Dispatch
