import Dispatch.Ownership.View
import Dispatch.Store.Entries

/-!
# The transactions ownership does not notice

Uploads and artifacts, phases, heartbeats and the acts of operators attach
evidence to an attempt or change what the scheduler looks at. None of them
changes who owns what: their changes are framed. Those of uploads and artifacts
are no more than `Filings`, entries in tables that nothing is decided by.
-/

namespace Dispatch

open Txn

variable {s s' seen : Store} {now : Time} {id : WorkerIdentity} {upload worker : Uuid}
  {r : FinalizeUploadRequest}

/-! ## Filings -/

/-- What workers have filed with the store, and the references to it. -/
def Store.catalogue (s : Store) : Table Uuid CompletionRow × Table Uuid UploadRow ×
    Table Uuid ArtifactRow × Table Uuid LogSegmentRow × Table (Uuid × Uuid) PublishedArtifact :=
  (s.completions, s.uploads, s.artifacts, s.logSegments, s.completionArtifacts)

/-- What the scheduler plans with, and what it has answered and accepted. -/
def Store.plans (s : Store) : Table Uuid ProjectRow × Table Uuid SweepRow ×
    Table (Uuid × Uuid × Uuid) WorkerRequestRow × Table (Uuid × ℕ) JobInputRow ×
    Table Uuid DatasetRow × Table (Uuid × ℕ) BlockerRow ×
    Table (Uuid × Uuid) RegistrationClaims :=
  (s.projects, s.sweeps, s.workerRequests, s.jobInputs, s.datasets, s.blockers, s.registrations)

/-- **One entry in the files of an attempt**: a note in a table nobody decides
by, an event that moves no job, a declared upload or a verified artifact. -/
inductive Filing : Store → Store → Prop where
  | note {s s' : Store} (hledger : s'.ledger = s.ledger) (hevents : s'.events = s.events)
      (hcatalogue : s'.catalogue = s.catalogue) (hplans : s'.plans = s.plans) : Filing s s'
  | event {s s' : Store} {now : Time} {job : Uuid} {attempt : Option Uuid} {body : EventBody}
      (h : s.appendEvent now job attempt body = .ok s')
      (hquiet : ∀ state, body.next state = some state) : Filing s s'
  | upload {s : Store} {upload : Uuid} {row : UploadRow} (hfree : s.uploads.lookup upload = none) :
      Filing s { s with uploads := AList.insert upload row s.uploads }
  | artifact {s : Store} {artifact : Uuid} {row : ArtifactRow}
      (hfree : s.artifacts.lookup artifact = none) :
      Filing s { s with artifacts := AList.insert artifact row s.artifacts }

/-- Some entries, one after the other. -/
abbrev Filings : Store → Store → Prop :=
  Relation.ReflTransGen Filing

/-- Ownership does not notice an entry. -/
theorem Filing.framed (h : Filing s s') : Framed s s' := by
  cases h with
  | note hledger _ hcatalogue _ =>
    simp only [Store.catalogue, Prod.mk.injEq] at hcatalogue
    exact .of_tables hledger (Prod.ext hcatalogue.1 hcatalogue.2.2.2.1)
  | event h _ => exact .appendEvent h
  | upload _ => exact .of_tables rfl rfl
  | artifact _ => exact .of_tables rfl rfl

/-- **Ownership does not notice the filing.** -/
theorem Filings.framed (h : Filings s s') : Framed s s' := by
  induction h with
  | refl => exact .refl s
  | tail _ hentry ih => exact ih.trans hentry.framed

/-- **The entries of a request are filings**, the segments of a log apart. -/
theorem Entries.filings {ts : List TableName} {op : Op} {authority : AttemptAuthority}
    (h : Entries ts op authority s s') (hts : TableName.logSegments ∉ ts) :
    Filings s s' := by
  induction h with
  | refl => exact .refl
  | @tail t t' _ hentry ih =>
    refine ih.tail ?_
    cases hentry with
    | event h hquiet _ => exact .event h hquiet
    | file h hs hwrites =>
      generalize t'.files = f at h hs
      subst hs
      cases h with
      | declare upload u hfree _ => exact .upload hfree
      | verify artifact row u _ _ hfree => exact .artifact hfree
      | register segment l hfree =>
        have hsame : AList.insert segment l t.logSegments = t.logSegments :=
          hwrites .logSegments hts
        have hfound := congrArg (AList.lookup segment) hsame
        rw [AList.lookup_insert] at hfound
        exact absurd (hfound.trans hfree) (by simp)
      | _ => exact .note rfl rfl rfl rfl

/-- **A request that makes entries files them**, if it registers no log. -/
theorem Op.exec_filings {sha : Uuid → ℕ} {op : Op} {reply : Reply}
    {authority : AttemptAuthority} (h : op.exec sha s now = .ok (s', reply))
    (hfiler : op.filer = some (worker, authority)) (hlog : TableName.logSegments ∉ op.footprint) :
    Filings s s' := by
  obtain rfl | ⟨-, hentries⟩ := op.exec_entries h hfiler
  · exact .refl
  · exact hentries.filings hlog

/-! ## Phases, heartbeats and operators -/

/-- The phases a report may name are active. -/
theorem validPhaseEvidence_isActive {c : PhaseClaims} (h : validPhaseEvidence c = true) :
    c.phase.isActive = true := by
  unfold validPhaseEvidence at h
  cases hphase : c.phase <;> simp_all [AttemptState.isActive]

/-- A change of an attempt that keeps its grant. -/
theorem Framed.modify_attempt {attempt : Uuid} {f : AttemptRow → AttemptRow}
    (hf : ∀ a, s.attempts.lookup attempt = some a → (f a).grant = a.grant) :
    Framed s { s with attempts := s.attempts.modify attempt f } := by
  refine ⟨fun _ => rfl, fun a' => ?_, fun _ => rfl, fun _ => rfl, fun _ => rfl, rfl, fun _ => rfl⟩
  rw [Table.lookup_modify]
  split_ifs with ha
  · subst ha
    cases hrow : s.attempts.lookup a' with
    | none => rfl
    | some row => exact congrArg some (hf row hrow)
  · rfl

theorem reportPhase_framed {r : PhaseReport} {result : MutationResult}
    (h : reportPhase s seen now id r = .ok (s', result)) :
    Framed s s' := by
  obtain ⟨rfl, -⟩ | ⟨a, j, deadline, haccepted, -, ⟨-, rfl⟩ | ⟨-, hlogged⟩⟩ := reportPhase_cases h
  · exact .refl s'
  · exact .of_tables rfl rfl
  · -- An accepted report goes from one active state to another.
    obtain ⟨l, hl, -, hactive, -⟩ := leaseDecision_eq_accepted.mp haccepted.accepted
    obtain rfl := Option.some.inj hl
    have hentered : ∀ row, s.attempts.lookup r.claims.authority.attemptID = some row →
        (row.enterPhase r.claims deadline).grant = row.grant := by
      intro row hrow
      obtain rfl := Option.mem_unique haccepted.attempt hrow
      have hstate : a.state.isActive = true := hactive
      simp only [AttemptRow.enterPhase, AttemptRow.grant, hstate,
        validPhaseEvidence_isActive haccepted.evidence]
    have hmodified := Framed.modify_attempt hentered
    exact (Framed.appendEvent hlogged).after (hmodified.trans (.of_tables rfl rfl))

/-- What a heartbeat releases was quarantined. -/
theorem mem_releasedAttempts {id : Uuid} {inventory : List ExecutionRecord} {c : HeartbeatClaims}
    {replay : Bool}
    (h : id ∈ releasedAttempts (heartbeatAttempts s worker inventory) c replay now) :
    ∃ r, s.reservations.lookup id = some r ∧ r.state = .quarantined := by
  unfold releasedAttempts at h
  split_ifs at h
  · obtain ⟨a, ha, rfl⟩ := List.mem_map.mp h
    obtain ⟨hmem, hreleasable⟩ := List.mem_filter.mp ha
    obtain ⟨⟨id', row⟩, -, hrow⟩ := List.mem_filterMap.mp hmem
    obtain ⟨hread, -⟩ := Option.filter_eq_some_iff.mp hrow
    simp only [heartbeatAttempt, Option.bind_eq_bind, Option.bind_eq_some_iff,
      Option.pure_def, Option.some.injEq] at hread
    obtain ⟨j, -, r, hr, ss, -, rfl⟩ := hread
    simp only [releasable, Bool.and_eq_true, decide_eq_true_eq] at hreleasable
    exact ⟨r, hr, hreleasable.1.1.1⟩
  · exact absurd h List.not_mem_nil

theorem release_framed {released : List Uuid}
    (h : ∀ id ∈ released, ∃ r, s.reservations.lookup id = some r ∧ r.state = .quarantined) :
    Framed s (s.release released) := by
  refine ⟨fun _ => rfl, fun a => ?_, fun a => ?_, fun _ => rfl, fun _ => rfl, rfl, fun _ => rfl⟩
  · simp only [Store.release, Table.lookup_update, Option.map_map]
    refine congrArg (Option.map · _) (funext fun row => ?_)
    simp only [Function.comp]
    split_ifs <;> rfl
  · simp only [Store.release, Table.lookup_update]
    cases hrow : s.reservations.lookup a with
    | none => rfl
    | some row =>
      simp only [Option.map_some, Option.some.injEq]
      split_ifs with ha
      · obtain ⟨r, hr, hstate⟩ := h a ha
        obtain rfl := Option.mem_unique hrow hr
        simp only [ReservationRow.claim, hstate]
        rfl
      · rfl

/-- A change of workers that keeps who runs them. -/
theorem Framed.modify_worker (s : Store) (worker : Uuid) {f : WorkerRow → WorkerRow}
    (hf : ∀ w, (f w).currentSession = w.currentSession) :
    Framed s { s with workers := s.workers.modify worker f } := by
  refine ⟨fun _ => rfl, fun _ => rfl, fun _ => rfl, fun w => ?_, fun _ => rfl, rfl,
    fun _ => rfl⟩
  simp only [Store.seat, Table.lookup_modify]
  split_ifs with hw
  · cases s.workers.lookup w with
    | none => rfl
    | some row => exact hf row
  · rfl

/-- A change of a session that keeps its worker and its fence. -/
theorem Framed.modify_session (s : Store) (session : Uuid) {f : SessionRow → SessionRow}
    (hf : ∀ r, ((f r).worker, (f r).fencedAt) = (r.worker, r.fencedAt)) :
    Framed s { s with sessions := s.sessions.modify session f } := by
  refine ⟨fun _ => rfl, fun _ => rfl, fun _ => rfl, fun _ => rfl, fun id => ?_, rfl,
    fun _ => rfl⟩
  simp only [Table.lookup_modify]
  split_ifs
  · rw [Option.map_map]
    exact congrArg (Option.map · _) (funext hf)
  · rfl

theorem recordHeartbeat_framed {report : HeartbeatReport} {result : HeartbeatResult}
    (h : recordHeartbeat s now id report = .ok (s', result)) : Framed s s' := by
  obtain ⟨w, ss, hash, -, -, -, -, ⟨rfl, -⟩ | ⟨-, rfl⟩⟩ := recordHeartbeat_cases h
  · exact .refl s'
  · set released := report.released s now id.workerID
    have hreleased : Framed s (s.release released) :=
      release_framed (fun _ => mem_releasedAttempts)
    have hreported : Framed (s.release released) { s.release released with
        sessions :=
          (s.release released).sessions.modify report.claims.sessionID (fun ss => { ss with
          heartbeatSequence := report.claims.sequence
          heartbeatRequest := some report.requestID
          heartbeatHash := some hash }) } :=
      .modify_session _ report.claims.sessionID (fun _ => rfl)
    exact hreleased.trans (hreported.trans (.modify_worker _ id.workerID (by intro w; rfl)))

theorem requestWorkerDrain_framed {project : Uuid}
    (h : requestWorkerDrain s project worker = .ok s') : Framed s s' := by
  simp only [requestWorkerDrain, bind_ok] at h
  obtain ⟨-, -, -, -, w, -, -, -, h⟩ := h
  split_ifs at h
  · obtain rfl := pure_ok.mp h
    exact .refl s
  · obtain rfl := pure_ok.mp h
    exact .modify_worker s worker (fun _ => rfl)

theorem approveSessionTakeover_framed {fromSession toSession : Uuid}
    (h : approveSessionTakeover s worker fromSession toSession = .ok s') : Framed s s' := by
  simp only [approveSessionTakeover, bind_ok] at h
  obtain ⟨-, -, h⟩ := h
  split at h
  · simp only [bind_ok, pure_ok] at h
    obtain ⟨-, -, rfl⟩ := h
    exact .refl s
  · rename_i hnone
    simp only [bind_ok, pure_ok] at h
    obtain ⟨w, -, -, -, -, -, -, -, rfl⟩ := h
    refine ⟨fun _ => rfl, fun _ => rfl, fun _ => rfl, fun _ => rfl, fun _ => rfl, rfl,
      fun k => ?_⟩
    rw [Table.lookup_insert_ite]
    split_ifs with hk
    · rw [hk, hnone]
      rfl
    · rfl

/-- A dataset is read by the scheduler only. -/
theorem registerDataset_framed {id : Uuid} {row : DatasetRow}
    (h : registerDataset s id row = .ok s') : Framed s s' := by
  obtain ⟨-, -, rfl⟩ := registerDataset_eq_ok h
  exact .of_tables rfl rfl

/-- A provisioned host has no session. -/
theorem provision_framed {row : WorkerRow} {workers : Table Uuid WorkerRow}
    (h : s.workers.insertNew worker { row with currentSession := none } = some workers) :
    Framed s { s with workers := workers } := by
  obtain ⟨hfree, rfl⟩ := Table.insertNew_eq_some h
  refine ⟨fun _ => rfl, fun _ => rfl, fun _ => rfl, fun w => ?_, fun _ => rfl, rfl,
    fun _ => rfl⟩
  simp only [Store.seat, Table.lookup_insert_ite]
  split_ifs with hw
  · rw [hw, hfree]
    rfl
  · rfl

end Dispatch
