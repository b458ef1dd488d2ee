import Dispatch.Ledger.Invariants

/-!
# Capacity is given back on proof of a stop

A reservation says that something of a host may still be in use. It is
released in two ways only. Either the worker itself completes the attempt and
says that its container has stopped; or a later session of the same worker,
which was started after the earlier one was fenced, reports a healthy runtime
and an inventory in which nothing is out of place. A lost lease, a recovery or
a repeated report releases nothing, and what is released is never active again.
-/

namespace Dispatch

open Txn

variable {sha : Uuid → ℕ} {op : Op} {now : Time}

variable {id : Uuid} {r r' : ReservationRow}

/-- The first completion of an attempt, which says that its container has stopped.
-/
def Op.Settles (op : Op) (l l' : Ledger) (id : Uuid) : Prop :=
  ∃ completed identity request row, op = .complete completed identity request ∧
    request.authority.attemptID = id ∧ request.stopped = true ∧
    l.completions.lookup id = none ∧ l'.completions.lookup id = some row ∧
    row.completionID = request.completionID

/-- **A step that releases** is a completion that says its container stopped,
or a report. -/
theorem Ledger.Step.releases {l l' : Ledger} (h : Ledger.Step sha op now l l')
    (hr : l.reservations.lookup id = some r) (hheld : r.state ≠ .released)
    (hr' : l'.reservations.lookup id = some r') (hfree : r'.state = .released) :
    op.Settles l l' id ∨ ∃ identity report, op = .heartbeat identity report := by
  have hsame : l'.reservations = l.reservations → False := by
    intro heq
    rw [heq, hr] at hr'
    obtain rfl := Option.some.inj hr'
    exact hheld hfree
  cases h with
  | admits l' h => exact (hsame (congrArg (fun x => x.2.2.1) h.rest)).elim
  | assign worker session request attempt job j w hop hfree h =>
    have hkept := Table.Extends.insert
      (⟨worker, j.spec.spec.resources, .active⟩ : ReservationRow) h.newReservation id r hr
    obtain rfl := Option.mem_unique hkept hr'
    contradiction
  | complete completed identity request p j a res m hop hholds h =>
    simp only [Ledger.complete, Ledger.close, Table.lookup_modify, hr, Option.map_some] at hr'
    split_ifs at hr' with hid hstopped
    · refine .inl ⟨completed, identity, request, _, hop, hid.symm, hstopped, hid ▸ h.first,
        (Table.lookup_insert_ite _ _ _ _).trans (if_pos hid), rfl⟩
    · obtain rfl := Option.some.inj hr'
      exact absurd hfree (by simp)
    · obtain rfl := Option.some.inj hr'
      contradiction
  | fence job attempt j a res hholds =>
    simp only [Ledger.close, Table.lookup_modify, hr, Option.map_some] at hr'
    split_ifs at hr'
    · obtain rfl := Option.some.inj hr'
      exact absurd hfree (by simp)
    · obtain rfl := Option.some.inj hr'
      contradiction
  | report identity report hash w released reconciled hop h => exact .inr ⟨identity, report, hop⟩
  | _ => exact (hsame rfl).elim

/-- A transaction that releases is a completion or a report. -/
theorem Ledger.Steps.releases {l l' : Ledger} (h : Ledger.Steps sha op now l l')
    (hr : l.reservations.lookup id = some r) (hheld : r.state ≠ .released)
    (hr' : l'.reservations.lookup id = some r') (hfree : r'.state = .released) :
    op.Settles l l' id ∨ ∃ identity report, op = .heartbeat identity report := by
  induction h generalizing r' with
  | refl =>
    obtain rfl := Option.mem_unique hr hr'
    contradiction
  | tail hrun hstep ih =>
    obtain ⟨q, hq, -⟩ := (Ledger.Steps.later hrun).reservations id r hr
    by_cases hbefore : q.state = .released
    · -- It was released earlier in the transaction.
      refine (ih hq hbefore).imp_left ?_
      rintro ⟨completed, identity, request, row, hop, hid, hstopped, hfirst, hrow, hrest⟩
      exact ⟨completed, identity, request, row, hop, hid, hstopped, hfirst,
        hstep.later.completions _ _ hrow, hrest⟩
    · refine (hstep.releases hq hbefore hr' hfree).imp_left ?_
      rintro ⟨completed, identity, request, row, hop, hid, hstopped, hfirst, hrow, hrest⟩
      refine ⟨completed, identity, request, row, hop, hid, hstopped, ?_, hrow, hrest⟩
      by_contra hsome
      obtain ⟨row', hrow'⟩ := Option.ne_none_iff_exists'.mp hsome
      exact absurd (hfirst.symm.trans ((Ledger.Steps.later hrun).completions _ _ hrow')) (by simp)

/-- **A report that proves the cleanup of an attempt**: it is the first of its
number and comes from a later session of the same worker than the one, now
fenced, that the attempt ran and ended under; the runtime is healthy and
reconciled, nothing is to be stopped, and every running attempt of the worker
is in the inventory. -/
structure HeartbeatReport.Attests (report : HeartbeatReport) (s : Store) (now : Time)
    (identity : WorkerIdentity) (id : Uuid) : Prop where
  healthy : report.claims.runtimeHealthy = true
  reconciled : report.claims.reconciliationComplete = true
  quiet : stopSet (heartbeatAttempts s identity.workerID report.claims.inventory)
    report.claims.inventory report.claims.sessionID now = []
  present : ∀ x a, s.attempts.lookup x = some a → a.worker = identity.workerID →
    a.state = .running → ∃ record ∈ report.claims.inventory, record.authority.attemptID = x
  quarantined : ∃ r, s.reservations.lookup id = some r ∧ r.state = .quarantined
  /-- The attempt has ended, and a later session of its worker reports. -/
  later : ∃ a own ss, s.attempts.lookup id = some a ∧ a.worker = identity.workerID ∧
    a.state.isActive = false ∧ s.sessions.lookup a.session = some own ∧ own.fencedAt ≠ none ∧
    s.sessions.lookup report.claims.sessionID = some ss ∧ ss.worker = own.worker ∧
    a.session ≠ report.claims.sessionID ∧ own.generation < ss.generation ∧
    ss.heartbeatSequence < report.claims.sequence

/-- What is released shows that nothing of the report was unclear. -/
theorem HeartbeatReport.released_clear {report : HeartbeatReport} {s : Store} {worker : Uuid}
    (hid : id ∈ report.released s now worker) :
    report.claims.runtimeHealthy = true ∧
      reportUnclear (heartbeatAttempts s worker report.claims.inventory) report.claims now
        = false := by
  unfold HeartbeatReport.released releasedAttempts at hid
  split_ifs at hid with hclear
  · simpa [and_assoc] using hclear
  · exact absurd hid List.not_mem_nil

/-- **A clear report**: it is reconciled, it stops nothing, and every running
attempt is in it. -/
theorem reportUnclear_eq_false {attempts : List HeartbeatAttempt} {c : HeartbeatClaims} :
    reportUnclear attempts c now = false ↔ c.reconciliationComplete = true ∧
      (∀ a ∈ attempts, a.state = .running →
        ∃ record ∈ c.inventory, record.authority.attemptID = a.authority.attemptID) ∧
      stopSet attempts c.inventory c.sessionID now = [] := by
  simp only [reportUnclear, Bool.or_eq_false_iff, Bool.not_eq_false', List.any_eq_false,
    Bool.and_eq_true, decide_eq_true_eq, Bool.not_eq_true', List.isEmpty_iff, not_and, not_forall,
    not_not, exists_prop, and_assoc]

theorem recordHeartbeat_attests {w : World} (hw : Reachable sha w) {s' : Store}
    {identity : WorkerIdentity} {report : HeartbeatReport} {result : HeartbeatResult}
    (h : recordHeartbeat w.store now identity report = .ok (s', result))
    (hr : w.store.reservations.lookup id = some r)
    (hheld : r.state ≠ .released) (hr' : s'.reservations.lookup id = some r')
    (hfree : r'.state = .released) : report.Attests w.store now identity id := by
  have hsound := hw.ledger_sound
  obtain ⟨host, ss, hash, hhost, hss, hcurrent, -, ⟨rfl, -⟩ | ⟨hnewer, rfl⟩⟩ :=
    recordHeartbeat_cases h
  · obtain rfl := Option.mem_unique hr hr'
    contradiction
  -- Only the rows of the list were touched.
  have hid : id ∈ report.released w.store now identity.workerID := by
    by_contra hnot
    simp only [Store.report, Store.release, Table.lookup_update, hr, Option.map_some, if_neg hnot]
      at hr'
    obtain rfl := Option.some.inj hr'
    contradiction
  obtain ⟨hhealthy, hclear⟩ := HeartbeatReport.released_clear hid
  obtain ⟨hreconciled, hpresent, hquiet⟩ := reportUnclear_eq_false.mp hclear
  obtain ⟨hquarantined, a, own, ha, hworker, hended, hother, hown, hfenced⟩ := mem_released hid
  obtain ⟨host', ss', hhost', hss', hseat, hplace, hunfenced⟩ := isCurrentSession_iff.mp hcurrent
  obtain rfl := Option.mem_unique hss hss'
  obtain ⟨own', hown', hplace'⟩ := hsound.keyed.session id a ha
  obtain rfl := Option.mem_unique hown hown'
  have hsame : own.worker = ss.worker := by rw [hplace, hplace', hworker]
  refine ⟨hhealthy, hreconciled, hquiet, fun x b hb hplaced hrunning => ?_, hquarantined,
    a, own, ss, ha, hworker, hended, hown, hfenced, hss, hsame.symm, hother, ?_, hnewer⟩
  · -- A running attempt is among those the report is compared with.
    obtain ⟨j, hj⟩ := Option.ne_none_iff_exists'.mp (hsound.keyed.job x b hb)
    obtain ⟨k, hk, rfl⟩ := Store.job_of_toLedger hj
    obtain ⟨q, hq, -⟩ := hsound.keyed.reservation hb
    obtain ⟨session, hsession, -⟩ := hsound.keyed.session x b hb
    exact hpresent _ (mem_heartbeatAttempts.mpr ⟨x, b, k, q, session, hb, hplaced, hk, hq, hsession,
      rfl, .inl (by simp [hrunning, AttemptState.isActive])⟩) hrunning
  · exact hsound.succession.newest report.claims.sessionID ss a.session own hss hunfenced hown hsame
      hother

/-- **Capacity is released only on proof of a stop**: by the completion of its
own attempt, if that says the container stopped, or by the report of a later
session that attests the cleanup; and it stays released. -/
theorem released_on_proof {w : World} (h : Reachable sha w) :
    (∀ op now s' reply id r r', w.clock ≤ now → Op.exec sha w.store now op = .ok (s', reply) →
      w.store.reservations.lookup id = some r → r.state ≠ .released →
      s'.reservations.lookup id = some r' → r'.state = .released →
      (∃ completed identity request row, op = .complete completed identity request ∧
        request.authority.attemptID = id ∧ request.stopped = true ∧
        w.store.completions.lookup id = none ∧ s'.completions.lookup id = some row ∧
        row.completionID = request.completionID) ∨
      ∃ identity report, op = .heartbeat identity report ∧
        report.Attests w.store now identity id) ∧
    ∀ w' id r, World.Later sha w w' → w.store.reservations.lookup id = some r →
      r.state = .released →
      ∃ r', w'.store.reservations.lookup id = some r' ∧ r'.state = .released := by
  refine ⟨fun op now s' reply id r r' hle hexec hr hheld hr' hfree => ?_,
    fun w' id r hlater hr hfree => ?_⟩
  · refine ((h.exec_ledger hle hexec).releases hr hheld hr' hfree).imp_right ?_
    rintro ⟨identity, report, rfl⟩
    simp only [Op.exec, bind_ok, pure_pair_ok] at hexec
    obtain ⟨⟨t, result⟩, hheartbeat, rfl, -⟩ := hexec
    exact ⟨identity, report, rfl, recordHeartbeat_attests h hheartbeat hr hheld hr' hfree⟩
  · obtain ⟨r', hr', hkept⟩ := (h.later_ledger hlater).reservations id r hr
    exact ⟨r', hr', hkept.released hfree⟩

/-- A session is replaced while its attempt runs; the first report of its
successor proves the cleanup. -/
theorem sample_release : ∃ (w : World) (s' : Store) (reply : Reply) (r : ReservationRow),
    Op.exec Sample.sha w.store second
      (.heartbeat Sample.identity ⟨2, ⟨2, 1, true, false, true, []⟩⟩) = .ok (s', reply) ∧
    w.store.reservations.lookup 1 = some r ∧ r.state = .quarantined ∧
    HeartbeatReport.Attests ⟨2, ⟨2, 1, true, false, true, []⟩⟩ w.store second Sample.identity
      1 := by
  obtain ⟨w, s', reply, hw, hle, hexec, hp⟩ := Sample.reaches_step Sample.assigned_reachable
    [(second, .approveTakeover 1 1 2),
      (second, .register Sample.identity ⟨2, Sample.claims 2⟩)]
    second (.heartbeat Sample.identity ⟨2, ⟨2, 1, true, false, true, []⟩⟩)
    (fun w s' _ =>
      (w.store.reservations.lookup 1).any (fun r : ReservationRow =>
        decide (r.state = .quarantined)) &&
      (s'.reservations.lookup 1).any (fun r : ReservationRow => decide (r.state = .released)))
    (by decide +kernel)
  simp only [Bool.and_eq_true, Option.any_eq_true, decide_eq_true_eq] at hp
  obtain ⟨⟨r, hr, hquarantined⟩, r', hr', hfree⟩ := hp
  obtain ⟨completed, identity, request, row, hop, -⟩ | ⟨identity, report, hop, hattests⟩ :=
    (released_on_proof hw).1 _ _ _ _ 1 r r' hle hexec hr (by simp [hquarantined]) hr' hfree
  · exact absurd hop (by simp)
  · obtain ⟨rfl, rfl⟩ := Op.heartbeat.inj hop
    exact ⟨w, s', reply, r, hexec, hr, hquarantined, hattests⟩

end Dispatch
