import Dispatch.Scheduling.Release

/-!
# A host with an unproven stop gets no new work

When the reaper fences an attempt, its container may still run. The reservation
stays in quarantine, and only a later session can prove it gone
(`Dispatch.Scheduling.Release`). So for as long as the session of the attempt
runs its worker, every one of its reports finds capacity it cannot release, and
none of them leaves the worker reconciled: `Ledger.Marked` says that the
capacity is there, `Ledger.Barred` that the worker shows it. The first lasts by
itself; the second is what the reaper writes, and what the next report of a
marked session makes of the first. A barred session is assigned nothing.

A completion that says its container did not stop marks the session in the same
way, but leaves the worker as it is until its next report.
-/

namespace Dispatch

open Txn

variable {sha : Uuid → ℕ} {op : Op} {now : Time}

variable {l l' : Ledger} {session : Uuid} {identity : WorkerIdentity} {w : World} {a : AttemptRow}
  {s' : Store} {result : HeartbeatResult} {ss : SessionRow}

/-! ## Marked and barred sessions -/

/-- **A session with an unproven stop**: as long as it runs a worker, capacity
of one of its own attempts is in quarantine. -/
structure Ledger.Marked (l : Ledger) (session : Uuid) : Prop where
  known : l.sessions.lookup session ≠ none
  unproven : ∀ worker, l.seat worker = some session → ∃ id a r, l.attempts.lookup id = some a ∧
    a.session = session ∧ l.reservations.lookup id = some r ∧ r.state = .quarantined

/-- **A session that gets no work**: its worker shows the unproven stop. -/
structure Ledger.Barred (l : Ledger) (session : Uuid) : Prop extends l.Marked session where
  unready : ∀ worker w, l.workers.lookup worker = some w → w.currentSession = some session →
    w.reconciliationComplete = false

/-- Quarantined capacity stays until a report of another session finds it
releasable. -/
theorem Ledger.Step.quarantined (h : Ledger.Step sha op now l l') {id : Uuid}
    {r : ReservationRow} (hr : l.reservations.lookup id = some r) (hq : r.state = .quarantined) :
    (∃ r', l'.reservations.lookup id = some r' ∧ r'.state = .quarantined) ∨
      ∃ worker session, l.Releasable worker session id := by
  cases h with
  | admits l' h =>
    rw [show l'.reservations = l.reservations from congrArg (fun x => x.2.2.1) h.rest]
    exact .inl ⟨r, hr, hq⟩
  | assign worker session request attempt job j w hop hfree h =>
    exact .inl ⟨r, Table.Extends.insert _ h.newReservation id r hr, hq⟩
  | complete completed identity request p j a res m hop hholds h =>
    have hne : id ≠ request.authority.attemptID := by
      rintro rfl
      obtain rfl := Option.mem_unique hr hholds.reserved
      exact absurd (hq.symm.trans hholds.held) (by simp)
    refine .inl ⟨r, ?_, hq⟩
    simp only [Ledger.complete, Ledger.close, Table.lookup_modify, if_neg hne, hr]
  | fence job attempt j a res hholds =>
    have hne : id ≠ attempt := by
      rintro rfl
      obtain rfl := Option.mem_unique hr hholds.reserved
      exact absurd (hq.symm.trans hholds.held) (by simp)
    refine .inl ⟨r, ?_, hq⟩
    simp only [Ledger.close, Table.lookup_modify, if_neg hne, hr]
  | report identity report hash w released reconciled hop h =>
    by_cases hid : id ∈ released
    · exact .inr ⟨_, _, h.proven id hid⟩
    · refine .inl ⟨r, ?_, hq⟩
      simp only [Ledger.report, Table.lookup_update, hr, Option.map_some, if_neg hid]
  | _ => exact .inl ⟨r, hr, hq⟩

/-- A session that runs a worker keeps the capacity of its own attempts in
quarantine. -/
theorem Ledger.Marked.step (hm : l.Marked session) (hs : l.Sound)
    (h : Ledger.Step sha op now l l') : l'.Marked session := by
  obtain ⟨ss, hss⟩ := Option.ne_none_iff_exists'.mp hm.known
  obtain ⟨ss', hss', -⟩ := h.later.sessions session ss hss
  refine ⟨by simp [hss'], fun worker hseat => ?_⟩
  -- The seat is an old one: a new session is not one that is known.
  have hbefore : l.seat worker = some session := by
    obtain ⟨host, w, hash, sessions, generation, takeovers, hvacant, -, rfl⟩ | ⟨hsame, -⟩ :=
      h.seat_cases
    · simp only [Ledger.seat, Ledger.install, Table.lookup_modify] at hseat ⊢
      split_ifs at hseat with hworker
      · rw [hworker, hvacant.host] at hseat
        obtain rfl : hash.sessionID = session := Option.some.inj hseat
        exact absurd hvacant.fresh hm.known
      · exact hseat
    · exact (hsame worker).symm.trans hseat
  obtain ⟨id, a, r, ha, hsession, hr, hq⟩ := hm.unproven worker hbefore
  obtain ⟨a', ha', hlater⟩ := h.later.attempts id a ha
  obtain ⟨r', hr', hq'⟩ | ⟨host, other, hreleasable⟩ := h.quarantined hr hq
  · exact ⟨id, a', r', ha', hlater.session.trans hsession, hr', hq'⟩
  · -- Releasable capacity belongs to a fenced session, and this one runs the worker.
    exfalso
    obtain ⟨b, own, hb, -, -, -, hown, hfenced⟩ := hreleasable.ended
    obtain rfl := Option.mem_unique ha hb
    obtain ⟨tt, htt, -, hunfenced⟩ := hs.succession.seated worker session hbefore
    obtain rfl := Option.some.inj ((hsession ▸ hown).symm.trans htt)
    exact hfenced hunfenced

/-- **A report of a marked session does not reconcile its worker.** -/
theorem Ledger.Marked.report {report : HeartbeatReport}
    {w : WorkerRow} {released : List Uuid} {reconciled : Bool}
    (hm : l.Marked report.claims.sessionID) (hs : l.Sound)
    (h : l.Reports identity report w released reconciled) : reconciled = false := by
  have hseat : l.seat identity.workerID = some report.claims.sessionID := by
    rw [Ledger.seat, h.host, Option.bind_some, h.seated]
  obtain ⟨id, a, r, ha, hsession, hr, hq⟩ := hm.unproven identity.workerID hseat
  obtain ⟨ss, hss, hworker⟩ := hs.keyed.session id a ha
  obtain ⟨tt, htt, hplace, -⟩ := hs.succession.seated _ _ hseat
  obtain rfl := Option.some.inj ((hsession ▸ hss).symm.trans htt)
  obtain ⟨j, hj⟩ := Option.ne_none_iff_exists'.mp (hs.keyed.job id a ha)
  by_contra hreconciled
  have hid := h.clean (Bool.eq_true_of_not_eq_false hreconciled) id a j r ss ha
    (hworker.symm.trans hplace) hj hr hss hq
  obtain ⟨b, own, hb, -, -, hother, -⟩ := (h.proven id hid).ended
  obtain rfl := Option.mem_unique ha hb
  exact hother hsession

theorem Ledger.Barred.step (hb : l.Barred session) (hs : l.Sound)
    (h : Ledger.Step sha op now l l') : l'.Barred session := by
  refine ⟨hb.toMarked.step hs h, fun worker w' hw' hcurrent => ?_⟩
  have hkept : ∀ (x : Uuid) (f : WorkerRow → WorkerRow),
      (l.workers.modify x f).lookup worker = some w' →
      (∀ w, (f w).currentSession = w.currentSession) →
      (∀ w, l.workers.lookup x = some w → w.currentSession = some session →
        (f w).reconciliationComplete = false) → w'.reconciliationComplete = false := by
    intro x f hw hf hfalse
    rw [Table.lookup_modify] at hw
    split_ifs at hw with hx
    · obtain ⟨w, hold, rfl⟩ := Option.map_eq_some_iff.mp hw
      exact hfalse w (hx ▸ hold) (hf w ▸ hcurrent)
    · exact hb.unready worker w' hw hcurrent
  cases h with
  | admits l' h =>
    rw [show l'.workers = l.workers from congrArg (fun x => x.2.2.2.1) h.rest] at hw'
    exact hb.unready worker w' hw' hcurrent
  | retire x => exact hkept x _ hw' (fun _ => rfl) (fun _ _ _ => rfl)
  | seat x w hash sessions generation takeovers h =>
    simp only [Ledger.install, Table.lookup_modify] at hw'
    split_ifs at hw' with hx
    · rw [hx, h.host] at hw'
      obtain rfl := Option.some.inj hw'
      rfl
    · exact hb.unready worker w' hw' hcurrent
  | report identity report hash w released reconciled hop h =>
    refine hkept identity.workerID _ hw' (fun _ => rfl) (fun w₀ hw₀ hseat => ?_)
    obtain rfl := Option.mem_unique h.host hw₀
    obtain rfl := Option.mem_unique h.seated hseat
    exact hb.toMarked.report hs h
  | drain x => exact hkept x _ hw' (fun _ => rfl) (fun w => hb.unready x w)
  | provision x row hfree =>
    rw [Table.lookup_insert_ite] at hw'
    split_ifs at hw'
    · obtain rfl := Option.some.inj hw'
      exact absurd hcurrent (by simp)
    · exact hb.unready worker w' hw' hcurrent
  | _ => exact hb.unready worker w' hw' hcurrent

/-- **The reaper bars the session** of the attempt it fences. -/
theorem Ledger.Holds.barred {job attempt : Uuid} {j : JobRow}
    {r : ReservationRow} (hholds : l.Holds job attempt j a r) (hs : l.Sound)
    (own : JobRow → JobRow) {ended : AttemptRow → AttemptRow}
    (hended : (ended a).session = a.session) :
    ((l.close job attempt j own ended .quarantined).retire a.worker).Barred a.session := by
  obtain ⟨ss, hss, hplace⟩ := hs.keyed.session attempt a hholds.granted
  have hknown : l.sessions.lookup a.session ≠ none := by simp [hss]
  refine ⟨⟨hknown, fun _ _ => ⟨attempt, ended a, { r with state := .quarantined }, ?_, hended, ?_,
    rfl⟩⟩, fun worker w hw hcurrent => ?_⟩
  · simp only [Ledger.retire, Ledger.close, Table.lookup_modify, if_true, hholds.granted,
      Option.map_some]
  · simp only [Ledger.retire, Ledger.close, Table.lookup_modify, if_true, hholds.reserved,
      Option.map_some]
  · simp only [Ledger.retire, Ledger.close, Table.lookup_modify] at hw
    split_ifs at hw with hworker
    · obtain ⟨w₀, -, rfl⟩ := Option.map_eq_some_iff.mp hw
      rfl
    · -- The session of the attempt runs no other worker.
      have hseat : l.seat worker = some a.session := by
        rw [Ledger.seat, hw, Option.bind_some, hcurrent]
      obtain ⟨tt, htt, hplaced, -⟩ := hs.succession.seated worker a.session hseat
      obtain rfl := Option.mem_unique hss htt
      exact absurd (hplaced.symm.trans hplace) hworker

/-- **A completion without a stop marks the session** of its attempt. -/
theorem Ledger.Holds.marked {completed : Time} {r : CompletionRequest}
    {p : CompletionPayload} {j : JobRow} {res : ReservationRow}
    {out : CompletionOutcome} {m : ResultManifest}
    (hholds : l.Holds r.authority.jobID r.authority.attemptID j a res) (hs : l.Sound)
    (hstopped : r.stopped = false) : (l.complete completed r p j out m).Marked a.session := by
  obtain ⟨ss, hss, -⟩ := hs.keyed.session r.authority.attemptID a hholds.granted
  have hknown : l.sessions.lookup a.session ≠ none := by simp [hss]
  refine ⟨hknown, fun _ _ => ⟨r.authority.attemptID, a.complete r p out.state completed,
    { res with state := .quarantined }, ?_, rfl, ?_, rfl⟩⟩
  · simp only [Ledger.complete, Ledger.close, Table.lookup_modify, if_true, hholds.granted,
      Option.map_some]
  · simp only [Ledger.complete, Ledger.close, Table.lookup_modify, if_true, hholds.reserved,
      Option.map_some, hstopped, Bool.false_eq_true, if_false]

/-! ## Runs -/

/-- **No new work for a session** from a moment of a run on: whatever commits
later, no new attempt is the session's. -/
def World.Shuns (sha : Uuid → ℕ) (w : World) (session : Uuid) : Prop :=
  ∀ w' w'' id a, World.Later sha w w' → w'.Step sha w'' →
    w'.store.attempts.lookup id = none → w''.store.attempts.lookup id = some a →
    a.session ≠ session

theorem Reachable.shuns (h : Reachable sha w)
    (hb : w.store.toLedger.Barred session) : w.Shuns sha session := by
  rintro w' w'' id a hlater ⟨hle, op, reply, hexec⟩ hnone ha hsession
  have hbarred : w'.store.toLedger.Barred session :=
    h.keeps hlater (fun l => l.Barred session)
    (fun _ _ _ _ hl hb hstep => hb.step hl.sound hstep) hb
  obtain ⟨observed, queueNow, identity, request, policy, job, j, host, p, -, -, hassigns, rfl, -⟩ :=
    (h.later hlater).exec_assigned hle hexec hnone ha
  have hunready := hbarred.unready identity.workerID host.row hassigns.host
    (hsession ▸ hassigns.seated)
  exact absurd (hunready.symm.trans hassigns.ready.2) (by simp)

theorem reap_barred (hw : Reachable sha w) {seen : Store} {observed : Time}
    {x : Bool × Bool}
    (h : reapOneExpiredAttempt sha w.store seen observed now = .ok (s', x)) {id : Uuid}
    {a' : AttemptRow} (ha : w.store.attempts.lookup id = some a) (hactive : a.state.isActive = true)
    (ha' : s'.attempts.lookup id = some a') (hended : a'.state.isActive = false) :
    s'.toLedger.Barred a.session := by
  obtain rfl | ⟨job, attempt, b, fenced, hb, hfenced, hs'⟩ := reapOneExpiredAttempt_cases h
  · obtain rfl := Option.mem_unique ha ha'
    exact absurd (hactive.symm.trans hended) (by simp)
  obtain ⟨j, c, r, hholds, hclosed⟩ := fenceLostAttempt_close hfenced hw.sound.owned
  obtain rfl := Option.mem_unique hb hholds.granted
  have hledger : s'.toLedger = fenced.toLedger.retire b.worker := congrArg Store.toLedger hs'
  rw [hclosed] at hledger
  -- No other attempt has changed.
  obtain rfl : id = attempt := by
    by_contra hne
    have hattempts : s'.attempts.lookup id = w.store.attempts.lookup id := by
      rw [show s'.attempts = _ from congrArg Ledger.attempts hledger]
      exact (Table.lookup_modify _ _ _ _).trans (if_neg hne)
    obtain rfl := Option.some.inj (ha.symm.trans (hattempts.symm.trans ha'))
    exact absurd (hactive.symm.trans hended) (by simp)
  obtain rfl := Option.mem_unique ha hb
  rw [hledger]
  exact hholds.barred hw.ledger_sound _ rfl

/-- A report with a new number is recorded. -/
theorem recordHeartbeat_newer {s : Store} {report : HeartbeatReport}
    (h : recordHeartbeat s now identity report = .ok (s', result))
    (hss : s.sessions.lookup report.claims.sessionID = some ss)
    (hnewer : ss.heartbeatSequence < report.claims.sequence) :
    ∃ host hash, s.workers.lookup identity.workerID = some host ∧
      s.toLedger.Reports identity report host (report.released s now identity.workerID)
        (report.reconciled s now identity.workerID) ∧
      s' = s.report now identity.workerID report hash host.drainRequested := by
  obtain ⟨host, tt, hash, hhost, htt, hcurrent, -, hcases⟩ := recordHeartbeat_cases h
  obtain rfl := Option.mem_unique hss htt
  obtain ⟨-, hsame⟩ | ⟨-, rfl⟩ := hcases
  · exact absurd hsame hnewer.ne'
  · exact ⟨host, hash, hhost, HeartbeatReport.reports hhost hss hcurrent hnewer, rfl⟩

/-- **A report of a marked session bars it.** -/
theorem heartbeat_barred (hw : Reachable sha w)
    {report : HeartbeatReport}
    (h : recordHeartbeat w.store now identity report = .ok (s', result))
    (hss : w.store.sessions.lookup report.claims.sessionID = some ss)
    (hnewer : ss.heartbeatSequence < report.claims.sequence)
    (hm : w.store.toLedger.Marked report.claims.sessionID) :
    s'.toLedger.Barred report.claims.sessionID := by
  have hs := hw.ledger_sound
  obtain ⟨host, hash, hhost, hreports, rfl⟩ := recordHeartbeat_newer h hss hnewer
  have hstep : Ledger.Step sha (.heartbeat identity report) now w.store.toLedger
      (w.store.report now identity.workerID report hash host.drainRequested).toLedger :=
    .report w.store.toLedger identity report hash host _ _ rfl hreports
  refine ⟨hm.step hs hstep, fun worker row hrow hcurrent => ?_⟩
  simp only [Store.toLedger, Store.report, Table.lookup_modify] at hrow
  split_ifs at hrow with hworker
  · obtain ⟨row₀, -, rfl⟩ := Option.map_eq_some_iff.mp hrow
    exact hm.report hs hreports
  · -- The reporting session runs no other worker.
    have hseat : w.store.toLedger.seat worker = some report.claims.sessionID := by
      rw [Ledger.seat, show w.store.toLedger.workers.lookup worker = some row from hrow,
        Option.bind_some, hcurrent]
    obtain ⟨uu, huu, hplaced, -⟩ := hs.succession.seated _ _ hseat
    obtain ⟨vv, hvv, hplace, -⟩ := hreports.unfenced
    obtain rfl := Option.mem_unique huu hvv
    exact absurd (hplaced.symm.trans hplace) hworker

/-! ## Ready hosts -/

/-- **A host that is ready** has proven every stop and runs only what it may:
nothing of it is in quarantine, and every container it reports belongs to the
current attempt of a job that is not cancelled, under the reporting session and
with a lease that has not run out. -/
structure HeartbeatReport.Clears (report : HeartbeatReport) (s s' : Store) (now : Time)
    (worker : Uuid) : Prop where
  proven : ∀ id r, s'.reservations.lookup id = some r → r.worker = worker → r.state ≠ .quarantined
  authorized : ∀ record ∈ report.claims.inventory, ∃ a j,
    s.attempts.lookup record.authority.attemptID = some a ∧
    a.authority record.authority.attemptID = record.authority ∧
    a.session = report.claims.sessionID ∧ a.state.isActive = true ∧ now < a.leaseExpiresAt ∧
    s.jobs.lookup a.job = some j ∧ j.currentAttempt = some record.authority.attemptID ∧
    j.cancelRequested = false

/-- Nothing to stop: every reported container is authorized. -/
theorem stopSet_eq_nil {attempts : List HeartbeatAttempt} {inventory : List ExecutionRecord}
    (h : stopSet attempts inventory session now = []) {record : ExecutionRecord}
    (hrecord : record ∈ inventory) :
    ∃ a ∈ attempts, a.authority = record.authority ∧ a.authorized session now = true := by
  by_contra hnone
  have hmem : record.authority ∈ stopSet attempts inventory session now := by
    simp only [stopSet, List.mem_insertionSort, List.mem_dedup, List.mem_append, List.mem_map]
    refine .inl ⟨record, List.mem_filter.mpr ⟨hrecord, ?_⟩, rfl⟩
    simpa [List.any_eq_true] using hnone
  rw [h] at hmem
  exact absurd hmem List.not_mem_nil

theorem heartbeat_clears (hw : Reachable sha w)
    {report : HeartbeatReport}
    (h : recordHeartbeat w.store now identity report = .ok (s', result))
    (hss : w.store.sessions.lookup report.claims.sessionID = some ss)
    (hnewer : ss.heartbeatSequence < report.claims.sequence) {row : WorkerRow}
    (hrow : s'.workers.lookup identity.workerID = some row) (hready : row.state = .ready) :
    report.Clears w.store s' now identity.workerID := by
  have hs := hw.ledger_sound
  obtain ⟨host, hash, hhost, hreports, rfl⟩ := recordHeartbeat_newer h hss hnewer
  -- Only a reconciled host is reported ready.
  have hreconciled : report.reconciled w.store now identity.workerID = true := by
    simp only [Store.report, Table.lookup_modify, if_true, hhost, Option.map_some,
      Option.some.injEq] at hrow
    subst hrow
    simp only [reportedState] at hready
    split_ifs at hready with hhealth hrec
    simpa using hrec
  have hclear : reportUnclear (heartbeatAttempts w.store identity.workerID report.claims.inventory)
      report.claims now = false := by
    simp only [HeartbeatReport.reconciled, Bool.and_eq_true, Bool.not_eq_true',
      Bool.or_eq_false_iff] at hreconciled
    exact hreconciled.1.1
  obtain ⟨-, -, hquiet⟩ := reportUnclear_eq_false.mp hclear
  refine ⟨fun id r hr hplace hq => ?_, fun record hrecord => ?_⟩
  · simp only [Store.report, Store.release, Table.lookup_update] at hr
    obtain ⟨q, hq₀, rfl⟩ := Option.map_eq_some_iff.mp hr
    split_ifs at hq hplace with hid
    obtain ⟨a, ha, hworker, -⟩ := hs.keyed.attempt hq₀
    obtain ⟨j, hj⟩ := Option.ne_none_iff_exists'.mp (hs.keyed.job id a ha)
    obtain ⟨own, hown, -⟩ := hs.keyed.session id a ha
    exact hid (hreports.clean hreconciled id a j q own ha (hworker.trans hplace) hj hq₀ hown hq)
  · obtain ⟨x, hx, hsame, hauthorized⟩ := stopSet_eq_nil hquiet hrecord
    obtain ⟨id, a, j, r, own, ha, hworker, hj, hr, hown, rfl, -⟩ := mem_heartbeatAttempts.mp hx
    simp only [HeartbeatAttempt.authorized, Bool.and_eq_true, decide_eq_true_eq,
      Bool.not_eq_true'] at hauthorized
    obtain ⟨⟨⟨⟨⟨hactive, hcurrent⟩, hsession⟩, -⟩, hlease⟩, huncancelled⟩ := hauthorized
    obtain rfl : id = record.authority.attemptID := congrArg AttemptAuthority.attemptID hsame
    exact ⟨a, j, ha, hsame, hsession, hactive, hlease, hj, hcurrent, huncancelled⟩

/-! ## The promise -/

/-- **A host with an unproven stop gets no new work from the same
incarnation**: not after the reaper has fenced one of its attempts; not after a
completion without a stop and one more report; and a report that leaves the
host ready finds every stop proven. -/
theorem unproven_stop_bars {w : World} (h : Reachable sha w) :
    (∀ seen observed now s' reply id a a', w.clock ≤ now →
      Op.exec sha w.store now (.reap seen observed) = .ok (s', reply) →
      w.store.attempts.lookup id = some a → a.state.isActive = true →
      s'.attempts.lookup id = some a' → a'.state.isActive = false →
      World.Shuns sha ⟨s', now⟩ a.session) ∧
    (∀ completed identity request now s' reply row, w.clock ≤ now →
      Op.exec sha w.store now (.complete completed identity request) = .ok (s', reply) →
      w.store.completions.lookup request.authority.attemptID = none →
      s'.completions.lookup request.authority.attemptID = some row → request.stopped = false →
      ∀ w' reporter report now' s'' reply' ss, World.Later sha ⟨s', now⟩ w' → w'.clock ≤ now' →
        Op.exec sha w'.store now' (.heartbeat reporter report) = .ok (s'', reply') →
        report.claims.sessionID = request.authority.sessionID →
        w'.store.sessions.lookup report.claims.sessionID = some ss →
        ss.heartbeatSequence < report.claims.sequence →
        World.Shuns sha ⟨s'', now'⟩ request.authority.sessionID) ∧
    ∀ identity report now s' reply ss row, w.clock ≤ now →
      Op.exec sha w.store now (.heartbeat identity report) = .ok (s', reply) →
      w.store.sessions.lookup report.claims.sessionID = some ss →
      ss.heartbeatSequence < report.claims.sequence →
      s'.workers.lookup identity.workerID = some row → row.state = .ready →
      report.Clears w.store s' now identity.workerID := by
  refine ⟨?_, ?_, ?_⟩
  · intro seen observed now s' reply id a a' hle hexec ha hactive ha' hended
    have hreached : Reachable sha ⟨s', now⟩ := h.step ⟨hle, _, reply, hexec⟩
    simp only [Op.exec, bind_ok, pure_pair_ok] at hexec
    obtain ⟨⟨t, x⟩, hreap, rfl, -⟩ := hexec
    exact hreached.shuns (reap_barred h hreap ha hactive ha' hended)
  · intro completed identity request now s' reply row hle hexec hnone hrow hstopped w' reporter
      report now' s'' reply' ss hlater hle' hexec' hsession hss hnewer
    have hreached : Reachable sha ⟨s', now⟩ := h.step ⟨hle, _, reply, hexec⟩
    have hreached' : Reachable sha ⟨s'', now'⟩ :=
      (hreached.later hlater).step ⟨hle', _, reply', hexec'⟩
    -- The completion marks its session, and the mark lasts to the report.
    have hmarked : s'.toLedger.Marked request.authority.sessionID := by
      have hsteps := h.exec_ledger hle hexec
      obtain ⟨l₁, l₂, hfirst, ⟨completed', identity', r, p, j, a, res, m, hop, -, hholds,
        hcompletes, -, rfl⟩, hrest⟩ := hsteps.completions hnone hrow
      obtain ⟨rfl, rfl, rfl⟩ := Op.complete.inj hop
      have hl₁ := h.ledger.steps hfirst
      have hcompleted := hl₁.step (.complete l₁ completed identity request p j a res m rfl hholds
        hcompletes)
      rw [← show a.session = request.authority.sessionID from
        congrArg AttemptAuthority.sessionID hcompletes.authority]
      exact (hcompleted.keeps_steps (fun l => l.Marked a.session)
        (fun _ _ _ _ hl hm hstep => hm.step hl.sound hstep) (hholds.marked hl₁.sound hstopped)
        hrest).2
    have hmarked' : w'.store.toLedger.Marked request.authority.sessionID :=
      hreached.keeps hlater (fun l => l.Marked request.authority.sessionID)
        (fun _ _ _ _ hl hm hstep => hm.step hl.sound hstep) hmarked
    simp only [Op.exec, bind_ok, pure_pair_ok] at hexec'
    obtain ⟨⟨t, result⟩, hheartbeat, rfl, -⟩ := hexec'
    rw [← hsession] at hmarked' ⊢
    exact hreached'.shuns (heartbeat_barred (hreached.later hlater) hheartbeat hss hnewer hmarked')
  · intro identity report now s' reply ss row hle hexec hss hnewer hrow hready
    simp only [Op.exec, bind_ok, pure_pair_ok] at hexec
    obtain ⟨⟨t, result⟩, hheartbeat, rfl, -⟩ := hexec
    exact heartbeat_clears h hheartbeat hss hnewer hrow hready

/-- The lease of the first attempt runs out and the reaper fences it: session 1
gets no work again. -/
theorem sample_barred : ∃ (w : World) (s' : Store) (reply : Reply),
    w.store.toLedger.seat 1 = some 1 ∧
    Op.exec Sample.sha w.store (40 * second) (.reap w.store (40 * second)) = .ok (s', reply) ∧
    World.Shuns Sample.sha ⟨s', 40 * second⟩ 1 := by
  obtain ⟨w, hw, hp⟩ := Sample.reaches Sample.assigned_reachable [] (fun w : World =>
    decide (w.clock ≤ 40 * second) && decide (w.store.toLedger.seat 1 = some 1) &&
    (w.store.attempts.lookup 1).any (fun a : AttemptRow =>
      a.state.isActive && decide (a.session = 1)) &&
    ((Op.reap w.store (40 * second)).exec Sample.sha w.store (40 * second)).toOption.any
      (fun x => (x.1.attempts.lookup 1).any (fun a : AttemptRow => !a.state.isActive)))
    (by decide +kernel)
  simp only [Bool.and_eq_true, decide_eq_true_eq, Option.any_eq_true, Bool.not_eq_true'] at hp
  obtain ⟨⟨⟨hle, hseat⟩, a, ha, hactive, hsession⟩, ⟨s', reply⟩, hexec, a', ha', hended⟩ := hp
  have hexec' := toOption_eq_some.mp hexec
  exact ⟨w, s', reply, hseat, hexec', hsession ▸ (unproven_stop_bars hw).1 w.store (40 * second)
    (40 * second) s' reply 1 a a' hle hexec' ha hactive ha' hended⟩

end Dispatch
