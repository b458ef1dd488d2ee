import Dispatch.Ledger.Margins

/-!
# The succession of sessions

A worker is run by one session at a time. A session comes to its seat by
registering, numbered above every session the worker had, and the one it
replaces is fenced in the same transaction, for good. While a session is
seated, repeating its registration is answered from the record.

A session that is still alive cannot be pushed aside: the store yields its seat
to the one session an operator has approved, and to another only when the old
one has been silent for thirty seconds and holds no lease. Renewals do not wait
for the cluster lock, so the silence is measured by a clock that is read after
the rows of all attempts are locked; in the model that is the time of the
transaction, and the leases are those of the store it is applied to.
-/

namespace Dispatch

open Txn

variable {worker toSession fromSession : Uuid} {s s' : Store} {w w' : World} {x : Session}

variable {sha : Uuid → ℕ} {op : Op} {now : Time}

/-! ## Seats -/

/-- **Seats change by registration only.** -/
theorem Ledger.Steps.seats {l l' : Ledger} (h : Ledger.Steps sha op now l l')
    (hop : ¬ ∃ identity r, op = .register identity r) (worker : Uuid) :
    l'.seat worker = l.seat worker := by
  induction h with
  | refl => rfl
  | tail _ hstep ih =>
    obtain ⟨_, _, _, _, _, _, -, hregister, -⟩ | ⟨hsame, -⟩ := hstep.seat_cases
    · exact absurd hregister hop
    · exact (hsame worker).trans ih

/-- **What lets a store yield the seat of a session to another**: an unused
approval of exactly this replacement, which is used up, or silence and no
lease. -/
def Store.Yields (s s' : Store) (now : Time) (worker fromSession toSession : Uuid) : Prop :=
  (∃ t, s.takeovers.lookup (worker, fromSession) = some t ∧ t.toSession = toSession ∧
    t.usedAt = none ∧
    s'.takeovers.lookup (worker, fromSession) = some { t with usedAt := some now }) ∨
  ∃ w session, s.workers.lookup worker = some w ∧ s.sessions.lookup fromSession = some session ∧
    w.lastHeartbeat.getD session.createdAt + sessionInactivity ≤ now ∧
    ∀ id a, s.attempts.lookup id = some a → a.worker = worker → a.state.isActive = true →
      a.leaseExpiresAt ≤ now

theorem takeoverApproved_iff :
    takeoverApproved s worker fromSession toSession = true ↔
      ∃ t, s.takeovers.lookup (worker, fromSession) = some t ∧ t.toSession = toSession ∧
        t.usedAt = none := by
  unfold takeoverApproved
  split
  · rename_i t ht
    simp [ht]
  · rename_i hnone
    simp [hnone]

/-- The seat of a session that is not fenced is yielded or not left. -/
theorem recoverSession_yields {recovered : Store} {session : SessionRow}
    (h : recoverSession sha s now worker fromSession toSession = .ok recovered)
    (hsession : s.sessions.lookup fromSession = some session) (hunfenced : session.fencedAt = none)
    (hkept : s'.takeovers = recovered.takeovers) : s.Yields s' now worker fromSession toSession
    := by
  obtain ⟨w, ss, fenced, hw, -, hss, hevidence, hfenced, rfl⟩ := recoverSession_eq_ok h
  obtain rfl := Option.mem_unique hsession hss
  have hkeeps : KeepsHolders s fenced := foldlM_invariant (KeepsHolders s) (.refl s)
    (fun u x u' _ hu hfence => hu.trans (fenceLostAttempt_keeps hfence).1) hfenced
  obtain happroved | hfence | ⟨hsilent, hleases⟩ := hevidence
  · obtain ⟨t, ht, hto, hunused⟩ := takeoverApproved_iff.mp happroved
    refine .inl ⟨t, ht, hto, hunused, ?_⟩
    rw [hkept, Store.vacate, happroved, if_pos rfl, hkeeps.takeovers, Table.lookup_modify,
      if_pos rfl, ht]
    rfl
  · exact absurd hunfenced hfence
  · exact .inr ⟨w, session, hw, hss, hsilent, fun id a ha hplace hactive =>
      hleases (id, a) (mem_workerAttempts.mpr ⟨ha, hplace, hactive⟩)⟩

/-- Fencing what a session leaves behind does not touch the hosts. -/
theorem recoverSession_workers {recovered : Store}
    (h : recoverSession sha s now worker fromSession toSession = .ok recovered) :
    recovered.workers = s.workers := by
  obtain ⟨_, _, fenced, -, -, -, -, hfenced, rfl⟩ := recoverSession_eq_ok h
  exact (foldlM_invariant (KeepsHolders s) (.refl _)
    (fun u x u' _ hu hfence => hu.trans (fenceLostAttempt_keeps hfence).1) hfenced).workers

/-- What a new session leaves of the workers and of the approvals. -/
theorem installSession_hosts {request : Uuid} {hash : RegistrationClaims}
    (h : installSession s now worker request hash = .ok (s', x)) :
    s'.workers = s.workers.modify worker (·.register now hash) ∧ s'.takeovers = s.takeovers := by
  simp only [installSession, bind_ok, pure_pair_ok] at h
  obtain ⟨sessions, -, rfl, -⟩ := h
  unfold Store.recordRegistration
  split_ifs <;> exact ⟨rfl, rfl⟩

/-- **A seat that another session takes was yielded to it.** -/
theorem Reachable.yields (h : Reachable sha w) {reply : Reply} {old : Uuid}
    {row row' : WorkerRow} (hle : w.clock ≤ now)
    (hexec : op.exec sha w.store now = .ok (s', reply))
    (hrow : w.store.workers.lookup worker = some row) (hold : row.currentSession = some old)
    (hrow' : s'.workers.lookup worker = some row') (hnew : row'.currentSession ≠ some old) :
    ∃ identity r, op = .register identity r ∧ identity.workerID = worker ∧
      row'.currentSession = some r.claims.sessionID ∧
      w.store.Yields s' now worker old r.claims.sessionID := by
  have hseat : w.store.toLedger.seat worker = some old := by
    simp [Ledger.seat, Store.toLedger, hrow, hold]
  obtain ⟨session, hsession, -, hunfenced⟩ := h.ledger_sound.succession.seated worker old hseat
  by_cases hop : ∃ identity r, op = .register identity r
  · obtain ⟨identity, r, rfl⟩ := hop
    refine ⟨identity, r, rfl, ?_⟩
    simp only [Op.exec, bind_ok, pure_pair_ok] at hexec
    obtain ⟨⟨t, x⟩, hregister, rfl, -⟩ := hexec
    simp only [registerSession, bind_ok, orThrow_ok] at hregister
    obtain ⟨hash, hhash, -, -, -, -, host, hhost, -, -, -, -, hregister⟩ := hregister
    obtain ⟨hid, -⟩ := Registration.hash_eq_ok hhash
    -- The row of another worker stays, and the new session takes its own.
    have hplace : ∀ u : Store, u.workers = w.store.workers →
        installSession u now identity.workerID r.requestID hash = .ok (t, x) →
        identity.workerID = worker ∧ row'.currentSession = some r.claims.sessionID := by
      intro u hu hinstall
      rw [(installSession_hosts hinstall).1, hu, Table.lookup_modify] at hrow'
      split_ifs at hrow' with hplace
      · rw [hrow, Option.map_some, Option.some.injEq] at hrow'
        obtain rfl := hrow'
        exact ⟨hplace.symm, congrArg some hid⟩
      · exact absurd (Option.some.inj (hrow'.symm.trans hrow) ▸ hold) hnew
    split at hregister
    · split_ifs at hregister
      · simp only [bind_ok, pure_pair_ok] at hregister
        obtain ⟨-, -, -, -, rfl, -⟩ := hregister
        have hsame : (w.store.recordRegistration identity.workerID r.requestID hash).workers
            = w.store.workers := by
          unfold Store.recordRegistration
          split_ifs <;> rfl
        rw [hsame] at hrow'
        exact absurd (Option.some.inj (hrow'.symm.trans hrow) ▸ hold) hnew
    · split at hregister
      · rename_i current hcurrent
        simp only [bind_ok] at hregister
        obtain ⟨recovered, hrecovered, hinstall⟩ := hregister
        obtain ⟨rfl, htaken⟩ := hplace recovered (recoverSession_workers hrecovered) hinstall
        obtain rfl := Option.mem_unique hrow hhost
        obtain rfl := Option.mem_unique hold hcurrent
        exact ⟨rfl, htaken, recoverSession_yields hrecovered hsession hunfenced
          (installSession_hosts hinstall).2⟩
      · rename_i hnone
        obtain ⟨rfl, -⟩ := hplace w.store rfl hregister
        obtain rfl := Option.mem_unique hrow hhost
        exact absurd (hold.symm.trans hnone) (by simp)
  · have hsame := (h.exec_ledger hle hexec).seats hop worker
    rw [hseat] at hsame
    simp only [Ledger.seat, Store.toLedger, hrow', Option.bind_some] at hsame
    exact absurd hsame hnew

/-! ## Numbers -/

/-- **A session that comes later is numbered higher** than every session its
worker had. -/
theorem Reachable.generations (h : Reachable sha w) (hlater : World.Later sha w w')
    {id id₀ : Uuid} {ss ss₀ : SessionRow} (hss : w'.store.sessions.lookup id = some ss)
    (hnone : w.store.sessions.lookup id = none) (hss₀ : w.store.sessions.lookup id₀ = some ss₀)
    (hworker : ss₀.worker = ss.worker) : ss₀.generation < ss.generation := by
  have hkept : w.store.toLedger.Later w'.store.toLedger ∧
      ∀ ss, w'.store.toLedger.sessions.lookup id = some ss → ss₀.worker = ss.worker →
        ss₀.generation < ss.generation := by
    refine h.keeps hlater (fun l => w.store.toLedger.Later l ∧
      ∀ ss, l.sessions.lookup id = some ss → ss₀.worker = ss.worker →
        ss₀.generation < ss.generation) ?_ ⟨.refl _, fun ss hss => ?_⟩
    · rintro l l' op now - ⟨hl, hnumbered⟩ hstep
      refine ⟨hl.trans hstep.later, fun ss' hss' hworker => ?_⟩
      obtain ⟨ss, hss, hkept⟩ | ⟨-, hseated⟩ := hstep.sessions.found id ss' hss'
      · rw [hkept.generation]
        exact hnumbered ss hss (hworker.trans hkept.worker)
      · obtain ⟨ss₁, hss₁, hkept⟩ := hl.sessions id₀ ss₀ hss₀
        rw [← hkept.generation]
        exact hseated.newest id₀ ss₁ hss₁ (hkept.worker.trans hworker)
    · exact absurd (hnone.symm.trans hss) (by simp)
  exact hkept.2 ss hss hworker

/-- **A fenced session is never seated again.** -/
theorem Reachable.fenced_stays (h : Reachable sha w) (hlater : World.Later sha w w')
    {id : Uuid} {ss : SessionRow} {row : WorkerRow} (hss : w.store.sessions.lookup id = some ss)
    (hfenced : ss.fencedAt ≠ none) (hrow : w'.store.workers.lookup worker = some row) :
    row.currentSession ≠ some id := by
  intro hseat
  obtain ⟨ss', hss', hkept⟩ := (h.later_ledger hlater).sessions id ss hss
  obtain ⟨ss'', hss'', -, hunfenced⟩ :=
    (h.later hlater).ledger_sound.succession.seated worker id (by
      simp [Ledger.seat, Store.toLedger, hrow, hseat])
  obtain rfl := Option.mem_unique hss' hss''
  exact hfenced ((hkept.fenced hfenced).symm.trans hunfenced)

/-! ## Repeated registrations -/

/-- What an accepted registration leaves behind. -/
theorem registerSession_recorded {id : WorkerIdentity} {r : Registration}
    (h : registerSession sha s now id r = .ok (s', x)) :
    ∃ hash w ss, r.hash = .ok hash ∧ s'.workers.lookup id.workerID = some w ∧
      (r.claims.resources.cpuMillis ≤ w.limit.cpuMillis ∧
        r.claims.resources.memoryMiB ≤ w.limit.memoryMiB ∧
        r.claims.resources.scratchMiB ≤ w.limit.scratchMiB ∧ r.claims.slots ≤ w.slotLimit ∧
        sameLabels r.claims.labels w.limitLabels) ∧
      s'.registrations.lookup (id.workerID, r.requestID) = some hash ∧
      s'.sessions.lookup r.claims.sessionID = some ss ∧ ss.registrationHash = hash ∧
      x.workerID = id.workerID ∧ x.sessionID = r.claims.sessionID ∧ x.generation = ss.generation ∧
      canonicalUUID id.workerID = true := by
  obtain ⟨-, hash', hhash', hrecorded⟩ := registerSession_margins h
  simp only [registerSession, bind_ok, orThrow_ok, require_ok] at h
  obtain ⟨hash, hhash, -, ⟨hcanonical, -⟩, -, -, w, hw, -, hlimits, -, -, h⟩ := h
  obtain rfl := Except.ok.inj (hhash.symm.trans hhash')
  obtain ⟨hid, -⟩ := Registration.hash_eq_ok hhash
  have hinstalled : ∀ t : Store, t.workers = s.workers →
      installSession t now id.workerID r.requestID hash = .ok (s', x) →
      (∃ w', s'.workers.lookup id.workerID = some w' ∧ w.Later w') ∧
      ∃ ss, s'.sessions.lookup r.claims.sessionID = some ss ∧ ss.registrationHash = hash ∧
        x.workerID = id.workerID ∧ x.sessionID = r.claims.sessionID ∧
        x.generation = ss.generation := by
    intro t ht hinstall
    refine ⟨⟨w.register now hash, ?_, rfl, rfl, rfl⟩, ?_⟩
    · rw [(installSession_hosts hinstall).1, ht, Table.lookup_modify, if_pos rfl, hw]
      rfl
    · simp only [installSession, bind_ok, orThrow_ok, pure_pair_ok] at hinstall
      obtain ⟨sessions, hinsert, rfl, rfl⟩ := hinstall
      obtain ⟨-, rfl⟩ := Table.insertNew_eq_some hinsert
      refine ⟨⟨id.workerID, nextGeneration t id.workerID, now, none, hash, 0, none, none⟩, ?_, rfl,
        rfl, hid, rfl⟩
      unfold Store.recordRegistration
      split_ifs <;> exact hid ▸ AList.lookup_insert _
  have hfirst : (∃ w', s'.workers.lookup id.workerID = some w' ∧ w.Later w') ∧
      ∃ ss, s'.sessions.lookup r.claims.sessionID = some ss ∧ ss.registrationHash = hash ∧
        x.workerID = id.workerID ∧ x.sessionID = r.claims.sessionID ∧
        x.generation = ss.generation := by
    split at h
    · rename_i ss hss
      split_ifs at h
      · simp only [bind_ok, require_ok, pure_pair_ok] at h
        obtain ⟨-, -, -, hclaims, rfl, rfl⟩ := h
        unfold Store.recordRegistration
        split_ifs <;> exact ⟨⟨w, hw, .refl w⟩, ss, hss, hclaims, rfl, rfl, rfl⟩
    · split at h
      · simp only [bind_ok] at h
        obtain ⟨recovered, hrecovered, hinstall⟩ := h
        exact hinstalled recovered (recoverSession_workers hrecovered) hinstall
      · exact hinstalled s rfl h
  obtain ⟨⟨w', hw', hkept⟩, ss, hss, hclaims, hworker, hsession, hgeneration⟩ := hfirst
  refine ⟨hash, w', ss, hhash, hw', ?_, hrecorded, hss, hclaims, hworker, hsession, hgeneration,
    hcanonical⟩
  rw [hkept.limit, hkept.slotLimit, hkept.limitLabels]
  exact hlimits

/-- **A registration that is repeated while its session is seated** is answered
with the same number and changes nothing. -/
theorem Reachable.registration_repeats (h : Reachable sha w) {identity again : WorkerIdentity}
    {r : Registration} {now' : Time} (hle : w.clock ≤ now)
    (hexec : (Op.register identity r).exec sha w.store now = .ok (s', .session x))
    (hlater : World.Later sha ⟨s', now⟩ w') (hagain : again.workerID = identity.workerID)
    (hcredential : canonicalUUID again.credentialID = true)
    (hauthorized : authorizeWorkerTx w'.store again = .ok ())
    (hcurrent : isCurrentSession w'.store identity.workerID r.claims.sessionID = true) :
    ∃ y : Session, (Op.register again r).exec sha w'.store now' = .ok (w'.store, .session y) ∧
      y.workerID = x.workerID ∧ y.sessionID = x.sessionID ∧ y.generation = x.generation := by
  have hreached : Reachable sha ⟨s', now⟩ := h.step ⟨hle, _, _, hexec⟩
  simp only [Op.exec, bind_ok, pure_pair_ok, Reply.session.injEq] at hexec
  obtain ⟨⟨t, _⟩, hregister, rfl, rfl⟩ := hexec
  obtain ⟨hash, host, ss, hhash, hhost, hlimits, hrecorded, hss, hclaims, hworker, hsession,
    hgeneration, hcanonical⟩ := registerSession_recorded hregister
  have hstands := hreached.later_ledger hlater
  obtain ⟨host', hhost', hkept⟩ := hstands.workers _ host hhost
  obtain ⟨ss', hss', hstays⟩ := hstands.sessions _ ss hss
  have hsaved : w'.store.registrations.lookup (identity.workerID, r.requestID) = some hash :=
    hlater.registrations _ _ hrecorded
  obtain ⟨row, session, hrow, hlookup, hseat, hmine, hunfenced⟩ := isCurrentSession_iff.mp hcurrent
  obtain rfl := Option.mem_unique hrow hhost'
  obtain rfl := Option.mem_unique hlookup hss'
  have hsame : w'.store.recordRegistration identity.workerID r.requestID hash = w'.store := by
    rw [Store.recordRegistration, if_pos (by rw [hsaved]; rfl)]
  rw [← hkept.limit, ← hkept.slotLimit, ← hkept.limitLabels] at hlimits
  refine ⟨⟨identity.workerID, r.claims.sessionID, session.generation,
    !row.reconciliationComplete⟩, ?_, hworker.symm, hsession.symm,
    hstays.generation.trans hgeneration.symm⟩
  obtain ⟨worker, credential⟩ := again
  obtain rfl : worker = identity.workerID := hagain
  simp only [Op.exec, registerSession, hhash, hauthorized, hrow, hlookup, ok_bind, orThrow_some,
    require_of (And.intro hcanonical hcredential), require_of hlimits,
    require_of (show ∀ saved ∈ w'.store.registrations.lookup (identity.workerID, r.requestID),
      saved = hash by rw [hsaved]; rintro _ ⟨⟩; rfl), if_pos hmine,
    require_of (And.intro hunfenced hseat), require_of (hstays.claims.trans hclaims), hsame]
  rfl

/-! ## Succession -/

/-- **The sessions of a worker succeed one another.** At any moment the only
session that is not fenced is seated and newest. From then on new sessions are
numbered higher, a fenced one is not seated again, a used approval stays used,
and a registration repeated while its session is seated is answered from the
record. A seat is taken by the session it is yielded to, in a registration. -/
theorem session_succession {w : World} (h : Reachable sha w) :
    (∀ id ss, w.store.sessions.lookup id = some ss → ss.fencedAt = none →
      (∃ row, w.store.workers.lookup ss.worker = some row ∧ row.currentSession = some id) ∧
      ∀ id' ss', w.store.sessions.lookup id' = some ss' → ss'.worker = ss.worker → id' ≠ id →
        ss'.fencedAt ≠ none ∧ ss'.generation < ss.generation) ∧
    (∀ w', World.Later sha w w' →
      (∀ id ss id₀ ss₀, w'.store.sessions.lookup id = some ss →
        w.store.sessions.lookup id = none → w.store.sessions.lookup id₀ = some ss₀ →
        ss₀.worker = ss.worker → ss₀.generation < ss.generation) ∧
      (∀ id ss worker row, w.store.sessions.lookup id = some ss → ss.fencedAt ≠ none →
        w'.store.workers.lookup worker = some row → row.currentSession ≠ some id) ∧
      ∀ k t, w.store.takeovers.lookup k = some t → t.usedAt ≠ none →
        w'.store.takeovers.lookup k = some t) ∧
    (∀ identity r now s' x w' again now', w.clock ≤ now →
      (Op.register identity r).exec sha w.store now = .ok (s', .session x) →
      World.Later sha ⟨s', now⟩ w' → again.workerID = identity.workerID →
      canonicalUUID again.credentialID = true → authorizeWorkerTx w'.store again = .ok () →
      isCurrentSession w'.store identity.workerID r.claims.sessionID = true →
      ∃ y : Session,
        (Op.register again r).exec sha w'.store now' = .ok (w'.store, .session y) ∧
        y.workerID = x.workerID ∧ y.sessionID = x.sessionID ∧ y.generation = x.generation) ∧
    ∀ (op : Op) now s' reply worker old row row', w.clock ≤ now →
      op.exec sha w.store now = .ok (s', reply) →
      w.store.workers.lookup worker = some row → row.currentSession = some old →
      s'.workers.lookup worker = some row' → row'.currentSession ≠ some old →
      ∃ identity r, op = .register identity r ∧ identity.workerID = worker ∧
        row'.currentSession = some r.claims.sessionID ∧
        w.store.Yields s' now worker old r.claims.sessionID := by
  have hs := h.ledger_sound.succession
  refine ⟨fun id ss hss hunfenced => ⟨?_, fun id' ss' hss' hworker hne => ⟨fun hfree => ?_, ?_⟩⟩,
    fun w' hlater => ⟨?_, ?_, fun k t ht hused => ?_⟩, ?_, ?_⟩
  · exact Option.bind_eq_some_iff.mp (hs.only id ss hss hunfenced)
  · -- Two sessions that are not fenced would both have the one seat.
    have hseat := hs.only id' ss' hss' hfree
    rw [hworker] at hseat
    exact hne (Option.some.inj (hseat.symm.trans (hs.only id ss hss hunfenced)))
  · exact hs.newest id ss id' ss' hss hunfenced hss' hworker hne
  · intro id ss id₀ ss₀ hss hnone hss₀ hworker
    exact h.generations hlater hss hnone hss₀ hworker
  · intro id ss worker row hss hfenced hrow
    exact h.fenced_stays hlater hss hfenced hrow
  · obtain ⟨t', ht', hkept⟩ := (h.later_ledger hlater).takeovers k t ht
    have hsame : t' = t := by
      cases t
      cases t'
      exact congrArg₂ TakeoverRow.mk hkept.toSession (hkept.used hused)
    exact hsame ▸ ht'
  · intro identity r now s' x w' again now' hle hexec hlater hagain hcredential hauthorized hcurrent
    exact h.registration_repeats hle hexec hlater hagain hcredential hauthorized hcurrent
  · intro op now s' reply worker old row row' hle hexec hrow hold hrow' hnew
    exact h.yields hle hexec hrow hold hrow' hnew

/-- An operator approves session 2 in the place of session 1, which is alive;
its registration takes the seat. -/
theorem sample_succession : ∃ (w : World) (s' : Store) (reply : Reply),
    Op.exec Sample.sha w.store second
      (.register Sample.identity ⟨2, Sample.claims 2⟩) = .ok (s', reply) ∧
    isCurrentSession w.store 1 1 = true ∧ w.store.Yields s' second 1 1 2 := by
  obtain ⟨w, s', reply, hw, hle, hexec, hp⟩ := Sample.reaches_step Sample.world_reachable
    (Sample.seated 1 second ++ [(second, .approveTakeover 1 1 2)])
    second (.register Sample.identity ⟨2, Sample.claims 2⟩)
    (fun w s' _ => isCurrentSession w.store 1 1 && isCurrentSession s' 1 2)
    (by decide +kernel)
  rw [Bool.and_eq_true] at hp
  obtain ⟨hbefore, hafter⟩ := hp
  obtain ⟨row, _, hrow, -, hold, -⟩ := isCurrentSession_iff.mp hbefore
  obtain ⟨row', _, hrow', -, hnew, -⟩ := isCurrentSession_iff.mp hafter
  obtain ⟨identity, r, hop, -, -, hyields⟩ := (session_succession hw).2.2.2 _ _ _ _ 1 1 row row'
    hle hexec hrow hold hrow' (by rw [hnew]; simp)
  obtain ⟨rfl, rfl⟩ := Op.register.inj hop
  exact ⟨w, s', reply, hexec, hbefore, hyields⟩

end Dispatch
