import Dispatch.Ledger.Invariants
import Dispatch.Store.Arguments

/-!
# Accepted completions

A completion is accepted once. Its row keeps the identifier, the payload and
the manifest it was accepted with, and nothing rewrites it, so that the worker
that never saw the answer can ask again and gets the same one, even after its
lease has run out or its session was replaced.

What the manifest of a success lists was checked against the rows of the
attempt in the transaction that accepted it, and those rows stay
(`Ledger.Publishes.mono`). That transaction reads the clock twice, and a
completion that is not in order by the second reading leaves nothing behind.
-/

namespace Dispatch

open Txn

variable {l l' : Ledger} {r : CompletionRequest} {c : CompletionRow} {id : WorkerIdentity}
  {completed : Time} {s s' : Store} {result : CompletionResult}

variable {sha : Uuid → ℕ} {op : Op} {now : Time}

/-! ## What is published stays -/

theorem Ledger.Publishes.mono {spec : JobSpec} {m : ResultManifest} (h : l.Publishes r spec m)
    (huploads : l.uploads.Extends l'.uploads) (hartifacts : l.artifacts.Extends l'.artifacts) :
    l'.Publishes r spec m where
  outputs o ho := by
    obtain ⟨a, u, ha, hu, hrest⟩ := h.outputs o ho
    exact ⟨a, u, hartifacts _ _ ha, huploads _ _ hu, hrest⟩
  required := h.required
  metrics := h.metrics
  source := h.source
  measured := h.measured

/-- **What the row of a completion goes back to**: the request that was
accepted, by the worker of the attempt, with what its manifest may publish. -/
def Ledger.Vouched (l : Ledger) (id : Uuid) (c : CompletionRow) : Prop :=
  ∃ r j a, normalizeCompletion r = .ok c.payloadDigest ∧ r.authority.attemptID = id ∧
    c = r.row c.payloadDigest c.state c.manifest ∧
    (c.state = .succeeded ↔ r.reason = none) ∧ l.attempts.lookup id = some a ∧
    a.authority id = r.authority ∧ l.jobs.lookup c.job = some j ∧
    l.Publishes r j.spec.spec c.manifest

/-- **The completions of a ledger**: each goes back to a request, no identifier
is used twice in a session, and the manifest of a job that succeeded is that of
a completion. -/
structure Ledger.Settled (l : Ledger) : Prop where
  vouched : ∀ id c, l.completions.lookup id = some c → l.Vouched id c
  unique : ∀ id id' c c', l.completions.lookup id = some c → l.completions.lookup id' = some c' →
    c.worker = c'.worker → c.session = c'.session → c.completionID = c'.completionID → id = id'
  accepted : ∀ job j, l.jobs.lookup job = some j → j.state = .succeeded →
    ∃ id c, j.acceptedAttempt = some id ∧ l.completions.lookup id = some c ∧ c.job = job ∧
      c.state = .succeeded ∧ j.acceptedManifest = some c.manifest

/-- An attempt keeps its authority. -/
theorem AttemptRow.Later.authority {a a' : AttemptRow} (h : a.Later a') (id : Uuid) :
    a'.authority id = a.authority id := by
  have hidentity := h.identity
  simp only [AttemptRow.identity, Prod.mk.injEq] at hidentity
  obtain ⟨hjob, -, hworker, hsession, hgeneration⟩ := hidentity
  simp only [AttemptRow.authority, hjob, hworker, hsession, hgeneration]

theorem Ledger.Vouched.later {id : Uuid} (h : l.Vouched id c) (hlater : l.Later l') :
    l'.Vouched id c := by
  obtain ⟨r, j, a, hp, hid, hrow, hstate, ha, hauthority, hj, hpublishes⟩ := h
  obtain ⟨a', ha', hkept⟩ := hlater.attempts id a ha
  obtain ⟨j', hj', hmoved⟩ := hlater.jobs _ j hj
  refine ⟨r, j', a', hp, hid, hrow, hstate, ha', (hkept.authority id).trans hauthority, hj', ?_⟩
  rw [hmoved.spec]
  exact hpublishes.mono hlater.uploads hlater.artifacts

/-- The attempt of a completion is of its worker and session. -/
theorem Ledger.Vouched.place {id : Uuid} (h : l.Vouched id c) :
    ∃ a, l.attempts.lookup id = some a ∧ a.worker = c.worker ∧ a.session = c.session := by
  obtain ⟨r, j, a, -, -, hrow, -, ha, hauthority, -⟩ := h
  refine ⟨a, ha, ?_, ?_⟩
  · exact (congrArg AttemptAuthority.workerID hauthority).trans
      (congrArg CompletionRow.worker hrow).symm
  · exact (congrArg AttemptAuthority.sessionID hauthority).trans
      (congrArg CompletionRow.session hrow).symm

/-- **What makes a job succeed**: the completion whose manifest it accepts. -/
theorem Ledger.Step.succeeds (h : Ledger.Step sha op now l l') {job : Uuid} {j : JobRow}
    (hj : l'.jobs.lookup job = some j) (hsucceeded : j.state = .succeeded) :
    l.jobs.lookup job = some j ∨
      ∃ id c, j.acceptedAttempt = some id ∧ l'.completions.lookup id = some c ∧ c.job = job ∧
        c.state = .succeeded ∧ j.acceptedManifest = some c.manifest := by
  have hhalt : ∀ k : JobRow, k.halt.state ≠ .succeeded := by
    intro k
    unfold JobRow.halt
    split_ifs <;> simp
  cases h with
  | admits l' h =>
    refine (h.fresh job j hj).imp_right fun hnew => ?_
    exact absurd (hnew.queued.symm.trans hsucceeded) (by simp)
  | cancel x k hk hstate =>
    simp only [Table.lookup_modify] at hj
    split_ifs at hj
    · obtain ⟨k', -, rfl⟩ := Option.map_eq_some_iff.mp hj
      exact absurd hsucceeded (hhalt k')
    · exact .inl hj
  | assign worker session request attempt x k w hop hfree h =>
    simp only [Ledger.assign, Table.lookup_modify] at hj
    split_ifs at hj
    · obtain ⟨k', -, rfl⟩ := Option.map_eq_some_iff.mp hj
      exact absurd hsucceeded (by simp)
    · exact .inl hj
  | complete completed identity r p k a res m hop hholds h =>
    simp only [Ledger.complete, Ledger.close, Table.lookup_update, Option.map_eq_some_iff] at hj
    obtain ⟨k', hk', hj⟩ := hj
    split_ifs at hj with hid
    · subst hid hj
      have hout : (completionOutcome sha r k.spec completed now).state = .succeeded := by
        have hnext : (completionOutcome sha r k.spec completed now).jobState = .succeeded :=
          hsucceeded
        unfold completionOutcome at hnext ⊢
        split at hnext
        · rfl
        · exact absurd hnext (by simp)
        · split_ifs at hnext
      refine .inr ⟨r.authority.attemptID, r.row p _ m, if_pos hout, AList.lookup_insert _, rfl,
        hout, if_pos hout⟩
    · exact absurd hsucceeded (hj ▸ hhalt k')
    · exact .inl (hj ▸ hk')
  | fence x attempt k a r hholds =>
    simp only [Ledger.close, Table.lookup_update, Option.map_eq_some_iff] at hj
    obtain ⟨k', hk', hj⟩ := hj
    split_ifs at hj with hid
    · subst hj
      have hnext : (fenceOutcome sha k a attempt now).jobState = .succeeded := hsucceeded
      unfold fenceOutcome at hnext
      split at hnext
      · exact absurd hnext (by simp)
      · split at hnext
        · exact absurd hnext (by simp)
        · split_ifs at hnext
    · exact absurd hsucceeded (hj ▸ hhalt k')
    · exact .inl (hj ▸ hk')
  | _ => exact .inl hj

theorem completionOutcome_succeeded (sha : Uuid → ℕ) (r : CompletionRequest) (job : Job)
    (completed now : Time) :
    (completionOutcome sha r job completed now).state = .succeeded ↔ r.reason = none := by
  unfold completionOutcome
  split
  · rename_i hreason
    simp [hreason]
  · rename_i hreason
    simp [hreason]
  · rename_i reason _ hreason
    split_ifs <;> simp [hreason]

/-- A completion that is accepted is vouched for. -/
theorem Ledger.Completed.vouched {id : Uuid} (h : l.Completed sha op now l' id c) :
    l.Vouched id c := by
  obtain ⟨completed, identity, r, p, j, a, res, m, -, rfl, hholds, hcompletes, rfl, -⟩ := h
  exact ⟨r, j, a, hcompletes.payload, rfl, rfl, completionOutcome_succeeded .., hholds.granted,
    hcompletes.authority, hholds.found, hcompletes.manifest⟩

theorem Ledger.Settled.step (hs : l.Settled) (h : Ledger.Step sha op now l l') : l'.Settled := by
  have hnew : ∀ id id' c c', l.Completed sha op now l' id c → l.completions.lookup id' = some c' →
      ¬ (c'.worker = c.worker ∧ c'.session = c.session ∧ c'.completionID = c.completionID) := by
    rintro id id' c c' ⟨completed, identity, r, p, j, a, res, m, -, rfl, -, hcompletes, rfl, -⟩
      hc' heq
    exact hcompletes.unused id' c' hc' ⟨heq.1.trans hcompletes.mine, heq.2⟩
  refine ⟨fun id c hc => ?_, fun id id' c c' hc hc' hworker hsession hid => ?_,
    fun job j hj hsucceeded => ?_⟩
  · obtain hold | hcompleted := h.completions hc
    · exact (hs.vouched id c hold).later h.later
    · exact hcompleted.vouched.later h.later
  · obtain hold | hcompleted := h.completions hc
    · obtain hold' | hcompleted' := h.completions hc'
      · exact hs.unique id id' c c' hold hold' hworker hsession hid
      · exact absurd ⟨hworker, hsession, hid⟩ (hnew id' id c' c hcompleted' hold)
    · obtain hold' | hcompleted' := h.completions hc'
      · exact absurd ⟨hworker.symm, hsession.symm, hid.symm⟩ (hnew id id' c c' hcompleted hold')
      · -- One transaction accepts one completion.
        obtain ⟨_, _, _, _, _, _, _, _, hop, rfl, -⟩ := hcompleted
        obtain ⟨_, _, _, _, _, _, _, _, hop', rfl, -⟩ := hcompleted'
        obtain ⟨-, -, rfl⟩ := Op.complete.inj (hop.symm.trans hop')
        rfl
  · obtain hold | hnow := h.succeeds hj hsucceeded
    · obtain ⟨id, c, hattempt, hc, hrest⟩ := hs.accepted job j hold hsucceeded
      exact ⟨id, c, hattempt, h.later.completions _ _ hc, hrest⟩
    · exact hnow

/-- **Every reachable ledger is settled.** -/
theorem Ledger.Reachable.settled (h : Ledger.Reachable sha l) : l.Settled := by
  induction h with
  | start projects workers credentials workerProjects =>
    exact ⟨fun _ _ h => (nomatch h), fun _ _ _ _ h => (nomatch h), fun _ _ h => (nomatch h)⟩
  | step _ hstep ih => exact ih.step hstep

/-! ## One completion -/

/-- What any completion has passed that is answered at all. -/
theorem completeAttempt_checked (h : completeAttempt sha s completed now id r = .ok (s', result))
    :
    canonicalUUID id.workerID = true ∧ r.authority.workerID = id.workerID ∧
      normalizeCompletion r = .ok r.payloadSHA256 := by
  simp only [completeAttempt, bind_ok, require_ok] at h
  obtain ⟨-, ⟨hcanonical, -, hmine⟩, p, hp, -, rfl, -⟩ := h
  exact ⟨hcanonical, hmine, hp⟩

/-- **What an accepted completion leaves**: its row, which is also its
answer. -/
theorem completeAttempt_accepted
    (h : completeAttempt sha s completed now id r = .ok (s', result))
    (haccepted : result.decision = .accepted) :
    ∃ c a, s'.completions.lookup r.authority.attemptID = some c ∧
      s'.attempts.lookup r.authority.attemptID = some a ∧
      a.authority r.authority.attemptID = r.authority ∧ c.completionID = r.completionID ∧
      c.payloadDigest = r.payloadSHA256 ∧ result = c.replay := by
  obtain ⟨-, -, hdigest⟩ := completeAttempt_checked h
  obtain ⟨p, a, j, m, hcommit, rfl⟩ | ⟨rfl, saved, a, hsaved, ha, hauthority, hid, hp, rfl⟩ |
    ⟨-, hnot⟩ := completeAttempt_cases h
  · obtain rfl := Except.ok.inj (hcommit.payload.symm.trans hdigest)
    have hrow : s'.toLedger.completions.lookup r.authority.attemptID
        = some (r.row r.payloadSHA256 (completionOutcome sha r j.spec completed now).state m) := by
      rw [hcommit.toLedger]
      exact AList.lookup_insert _
    have hattempt : s'.toLedger.attempts.lookup r.authority.attemptID = some (a.complete r
        r.payloadSHA256 (completionOutcome sha r j.spec completed now).state completed) := by
      rw [hcommit.toLedger]
      simp only [Ledger.complete, Ledger.close, Table.lookup_modify, if_pos]
      exact congrArg (Option.map _) hcommit.attempt
    exact ⟨_, _, hrow, hattempt, hcommit.authority, rfl, rfl, rfl⟩
  · obtain heq := Except.ok.inj (hp.symm.trans hdigest)
    exact ⟨saved, a, hsaved, ha, hauthority, hid, heq, rfl⟩
  · exact absurd haccepted hnot

/-- The payload of a completion names its attempt. -/
theorem normalizeCompletion_authority {p : CompletionPayload} (h : normalizeCompletion r = .ok p) :
    p.authority = r.authority := by
  simp only [normalizeCompletion, bind_ok, pure_ok] at h
  obtain ⟨-, -, -, -, -, -, -, -, -, -, -, -, _, -, rfl⟩ := h
  rfl

/-- **A completion that is repeated** gets the answer that is on record. -/
theorem completeAttempt_repeats {a : AttemptRow}
    (hc : s.completions.lookup r.authority.attemptID = some c)
    (ha : s.attempts.lookup r.authority.attemptID = some a)
    (hauthority : a.authority r.authority.attemptID = r.authority)
    (hid : c.completionID = r.completionID) (hdigest : c.payloadDigest = r.payloadSHA256)
    (hpayload : normalizeCompletion r = .ok r.payloadSHA256)
    (hidentity : canonicalUUID id.workerID ∧ canonicalUUID id.credentialID ∧
      r.authority.workerID = id.workerID) (hauthorized : authorizeWorkerTx s id = .ok ()) :
    completeAttempt sha s completed now id r = .ok (s, c.replay) := by
  simp only [completeAttempt, require_of hidentity, hpayload, hauthorized, ha, hc,
    hauthority, ok_bind, ne_eq, not_true_eq_false, if_false, require_of (And.intro hid hdigest)]
  rfl

/-- **Nothing else is accepted for the attempt.** -/
theorem completeAttempt_once (hc : s.completions.lookup r.authority.attemptID = some c)
    (h : completeAttempt sha s completed now id r = .ok (s', result)) :
    s' = s ∧ (result.decision = .accepted → r.completionID = c.completionID ∧
      r.payloadSHA256 = c.payloadDigest ∧ result = c.replay) := by
  obtain ⟨p, a, j, m, hcommit, -⟩ | ⟨rfl, -⟩ | ⟨rfl, hnot⟩ := completeAttempt_cases h
  · exact absurd (hcommit.first.symm.trans hc) (by simp)
  · refine ⟨rfl, fun haccepted => ?_⟩
    obtain ⟨c', a, hc', -, -, hid, hdigest, rfl⟩ := completeAttempt_accepted h haccepted
    obtain rfl := Option.mem_unique hc hc'
    exact ⟨hid.symm, hdigest.symm, rfl⟩
  · exact ⟨rfl, fun haccepted => absurd haccepted hnot⟩

/-- **An identifier is not accepted for a second attempt** of its session. -/
theorem Reachable.completion_unused {w : World} (h : Reachable sha w) {other : Uuid}
    (hc : w.store.completions.lookup other = some c) (hother : r.authority.attemptID ≠ other)
    (hsession : r.authority.sessionID = c.session) (hid : r.completionID = c.completionID)
    (hexec : completeAttempt sha w.store completed now id r = .ok (s', result)) :
    s' = w.store ∧ result.decision ≠ .accepted := by
  have hsettled := h.ledger.settled
  obtain ⟨b, hb, hbworker, hbsession⟩ := (hsettled.vouched other c hc).place
  -- A session belongs to one worker, so both attempts are that worker's.
  have hworker : ∀ a, w.store.attempts.lookup r.authority.attemptID = some a →
      a.authority r.authority.attemptID = r.authority →
      c.worker = a.worker ∧ c.session = a.session := by
    intro a ha hauthority
    have hsame : b.session = a.session :=
      (hbsession.trans hsession.symm).trans (congrArg AttemptAuthority.sessionID hauthority).symm
    obtain ⟨ss, hss, hown⟩ := h.ledger_sound.keyed.session _ a ha
    obtain ⟨ss', hss', hown'⟩ := h.ledger_sound.keyed.session _ b hb
    rw [hsame] at hss'
    obtain rfl := Option.mem_unique hss hss'
    exact ⟨(hbworker.symm.trans hown'.symm).trans hown, hbsession.symm.trans hsame⟩
  obtain ⟨p, a, j, m, hcommit, -⟩ | ⟨rfl, saved, a, hsaved, ha, hauthority, hcompletion, -, rfl⟩ |
    ⟨rfl, hnot⟩ := completeAttempt_cases hexec
  · have hmine : a.worker = id.workerID :=
      (congrArg AttemptAuthority.workerID hcommit.authority).trans hcommit.mine
    exact absurd ⟨(hworker a hcommit.attempt hcommit.authority).1.trans hmine, hsession.symm,
      hid.symm⟩ (hcommit.unused ⟨other, c⟩ (AList.mem_lookup_iff.mp hc))
  · obtain ⟨a', ha', hplace, hseat⟩ := (hsettled.vouched _ saved hsaved).place
    obtain rfl := Option.mem_unique ha ha'
    obtain ⟨hsameWorker, hsameSession⟩ := hworker a ha hauthority
    exact absurd (hsettled.unique _ _ saved c hsaved hc (hplace.symm.trans hsameWorker.symm)
      (hseat.symm.trans hsameSession.symm) (hcompletion.trans hid)) hother
  · exact ⟨rfl, hnot⟩

/-! ## Exactly once -/

/-- **A completion is accepted once and says what is true.** The manifest of a
job that succeeded is that of a completion which gave no reason to fail, and it
publishes what `Ledger.Publishes` allows. Once a completion is accepted, its
exact repetition is answered the same at any later time; any other completion
of the attempt, and any use of its identifier for another attempt of the
session, changes nothing and is not accepted. A completion that the second
reading of the clock refuses leaves the store as it was. -/
theorem completion_exactly_once {w : World} (h : Reachable sha w) :
    (∀ job j, w.store.jobs.lookup job = some j → j.state = .succeeded →
      ∃ id c r, j.acceptedAttempt = some id ∧ w.store.completions.lookup id = some c ∧
        j.acceptedManifest = some c.manifest ∧ r.authority.attemptID = id ∧
        normalizeCompletion r = .ok c.payloadDigest ∧ r.reason = none ∧
        w.store.toLedger.Publishes r j.spec.spec c.manifest) ∧
    (∀ completed identity r now s' first, w.clock ≤ now →
      (Op.complete completed identity r).exec sha w.store now = .ok (s', .completion first) →
      first.decision = .accepted →
      ∀ w' completed' again r' now', World.Later sha ⟨s', now⟩ w' →
        (again.workerID = identity.workerID → canonicalUUID again.credentialID = true →
          authorizeWorkerTx w'.store again = .ok () → r'.completionID = r.completionID →
          r'.payloadSHA256 = r.payloadSHA256 → normalizeCompletion r' = .ok r'.payloadSHA256 →
          (Op.complete completed' again r').exec sha w'.store now'
            = .ok (w'.store, .completion first)) ∧
        ∀ s'' result, (Op.complete completed' again r').exec sha w'.store now'
            = .ok (s'', .completion result) →
          (r'.authority.attemptID = r.authority.attemptID → s'' = w'.store ∧
            (result.decision = .accepted → r'.completionID = r.completionID ∧
              r'.payloadSHA256 = r.payloadSHA256 ∧ result = first)) ∧
          (r'.authority.attemptID ≠ r.authority.attemptID →
            r'.authority.sessionID = r.authority.sessionID → r'.completionID = r.completionID →
            s'' = w'.store ∧ result.decision ≠ .accepted)) ∧
    ∀ completed identity r now s' reply a j,
      (Op.complete completed identity r).exec sha w.store now = .ok (s', reply) →
      w.store.attempts.lookup r.authority.attemptID = some a → w.store.jobs.lookup a.job = some j →
      completionDecision r j.lease (a.lease r.authority.attemptID) now ≠ .accepted →
      s' = w.store := by
  refine ⟨fun job j hj hsucceeded => ?_, ?_, ?_⟩
  · obtain ⟨id, c, hattempt, hc, hjob, hstate, hmanifest⟩ :=
      h.ledger.settled.accepted job _ (Store.toLedger_job hj) hsucceeded
    obtain ⟨r, k, a, hp, hid, -, hreason, -, -, hk, hpublishes⟩ := h.ledger.settled.vouched id c hc
    obtain rfl := Option.some.inj ((Store.toLedger_job hj).symm.trans (hjob ▸ hk))
    exact ⟨id, c, r, hattempt, hc, hmanifest, hid, hp, hreason.mp hstate, hpublishes⟩
  · intro completed identity r now s' first hle hexec haccepted w' completed' again r' now' hlater
    have hreached : Reachable sha ⟨s', now⟩ := h.step ⟨hle, _, _, hexec⟩
    have hstands := hreached.later_ledger hlater
    simp only [Op.exec, bind_ok, pure_pair_ok, Reply.completion.injEq] at hexec
    obtain ⟨⟨t, _⟩, hcomplete, rfl, rfl⟩ := hexec
    obtain ⟨c, a, hc, ha, hauthority, hid, hdigest, rfl⟩ :=
      completeAttempt_accepted hcomplete haccepted
    have hc' : w'.store.completions.lookup r.authority.attemptID = some c :=
      hstands.completions _ _ hc
    refine ⟨fun hagain hcredential hauthorized hsameID hsameDigest hnormal => ?_,
      fun s'' result hexec' => ?_⟩
    · obtain ⟨hcanonical, hmine, hpayload⟩ := completeAttempt_checked hcomplete
      have hsame : r'.authority = r.authority := by
        rw [← normalizeCompletion_authority hnormal, hsameDigest,
          normalizeCompletion_authority hpayload]
      obtain ⟨a', ha', hkept⟩ := hstands.attempts _ a ha
      have hauthority' : a'.authority r'.authority.attemptID = r'.authority := by
        rw [hsame]
        exact (hkept.authority _).trans hauthority
      have hrepeats : completeAttempt sha w'.store completed' now' again r'
          = .ok (w'.store, c.replay) :=
        completeAttempt_repeats (hsame ▸ hc') (hsame ▸ ha') hauthority' (hid.trans hsameID.symm)
          (hdigest.trans hsameDigest.symm) hnormal
          ⟨hagain ▸ hcanonical, hcredential, hsame ▸ hagain ▸ hmine⟩ hauthorized
      simp only [Op.exec, hrepeats]
      rfl
    · simp only [Op.exec, bind_ok, pure_pair_ok, Reply.completion.injEq] at hexec'
      obtain ⟨⟨u, _⟩, hcomplete', rfl, rfl⟩ := hexec'
      refine ⟨fun hsame => ?_, fun hother hsession hreused => ?_⟩
      · obtain ⟨hkept, honly⟩ := completeAttempt_once (hsame ▸ hc') hcomplete'
        refine ⟨hkept, fun haccepted' => ?_⟩
        obtain ⟨hid', hdigest', hresult⟩ := honly haccepted'
        exact ⟨hid'.trans hid, hdigest'.trans hdigest, hresult⟩
      · obtain ⟨b, hb, -, hplace⟩ := (hreached.ledger.settled.vouched _ c hc).place
        obtain rfl := Option.mem_unique ha hb
        have hseat : c.session = r.authority.sessionID :=
          hplace.symm.trans (congrArg AttemptAuthority.sessionID hauthority)
        exact (hreached.later hlater).completion_unused hc' hother (hsession.trans hseat.symm)
          (hreused.trans hid.symm) hcomplete'
  · intro completed identity r now s' reply a j hexec ha hj hrefused
    simp only [Op.exec, bind_ok, pure_pair_ok] at hexec
    obtain ⟨⟨t, _⟩, hcomplete, rfl, -⟩ := hexec
    obtain ⟨p, a', j', m, hcommit, -⟩ | ⟨hsame, -⟩ | ⟨hsame, -⟩ := completeAttempt_cases hcomplete
    · obtain rfl := Option.mem_unique ha hcommit.attempt
      obtain rfl := Option.mem_unique hj hcommit.job
      exact absurd hcommit.late hrefused
    · exact hsame
    · exact hsame

namespace Sample

/-- A document that requires a file of metrics. -/
def measured : Job :=
  { job with spec := { job.spec with
      outputs := [⟨"metrics", "/outputs/metrics.json", true, 1024⟩] } }

/-- Its attempt ends, and its metrics are uploaded and verified as artifact 1. -/
def measuring : List (Time × Op) :=
  seated 1 second ++
    [(second, .submitJob 1 "k" (String.ofList (List.replicate 64 '0')) measured []),
      (second, .acquire second second identity ⟨1, 1⟩ ⟨false⟩ 1)] ++ finalized ++
    [(second, .createUpload seen identity
        ⟨1, ⟨⟨1, 1, 1, 1, 1⟩, .output, "metrics", 12, container, 1, 0⟩⟩ 1 1),
      (second, .finalizeUpload seen identity
        ⟨1, ⟨⟨1, 1, 1, 1, 1⟩, 1, ⟨objectKey 1 1 1 1, "v", 12, container⟩⟩⟩ true 1 1)]

/-- Its completion, with that output and the metrics read from it. -/
def measurement : CompletionRequest :=
  { success with
    payloadSHA256 := ⟨⟨1, 1, 1, 1, 1⟩, some 0, none, true, [⟨"metrics", 1⟩], true, [],
      [("loss", "0.5")], some container⟩
    outputs := [⟨"metrics", 1⟩]
    metricsJSON := some ⟨12, container, some [("loss", ⟨"0.5", .nonzero⟩)]⟩ }

end Sample

/-- Attempt 1 succeeds with an output and metrics; its completion is accepted,
and so is its repetition, and the manifest binds the metrics to the output. -/
theorem sample_completion : ∃ (w : World) (s' : Store) (first : CompletionResult) (j : JobRow),
    Op.exec Sample.sha w.store second (.complete second Sample.identity Sample.measurement)
      = .ok (s', .completion first) ∧
    Op.exec Sample.sha s' second (.complete second Sample.identity Sample.measurement)
      = .ok (s', .completion first) ∧
    s'.jobs.lookup 1 = some j ∧ j.state = .succeeded ∧
    ∃ (c : CompletionRow) (r : CompletionRequest), j.acceptedManifest = some c.manifest ∧
      c.manifest.outputs.map PublishedArtifact.name = ["metrics"] ∧
      c.manifest.metrics = [("loss", "0.5")] ∧ c.manifest.metricsArtifactID = some 1 ∧
      r.reason = none ∧ s'.toLedger.Publishes r j.spec.spec c.manifest := by
  obtain ⟨w, s', reply, hw, hle, hexec, hp⟩ := Sample.reaches_step Sample.seated_reachable
    (Sample.measuring.drop 2) second (.complete second Sample.identity Sample.measurement)
    (fun _ s' reply => (match reply with
      | .completion x => decide (x.decision = .accepted)
      | _ => false) && decide (authorizeWorkerTx s' Sample.identity = .ok ()) &&
      (s'.jobs.lookup 1).any (fun j : JobRow => decide (j.state = .succeeded) &&
        j.acceptedManifest.any (fun m : ResultManifest =>
          decide (m.outputs.map PublishedArtifact.name = ["metrics"] ∧
            m.metrics = [("loss", "0.5")] ∧ m.metricsArtifactID = some 1))))
    (by decide +kernel)
  simp only [Bool.and_eq_true, decide_eq_true_eq, Option.any_eq_true] at hp
  obtain ⟨⟨haccepted, hauthorized⟩, j, hj, hsucceeded, m, hm, houtputs, hmetrics, hartifact⟩ := hp
  have hreached : Reachable Sample.sha ⟨s', second⟩ := hw.step ⟨hle, _, _, hexec⟩
  cases reply with
  | completion first =>
    obtain ⟨id, c, r, -, -, hmanifest, -, -, hreason, hpublishes⟩ :=
      (completion_exactly_once hreached).1 1 j hj hsucceeded
    obtain rfl := Option.mem_unique hm hmanifest
    have hagain :=
      ((completion_exactly_once hw).2.1 second Sample.identity Sample.measurement second
      s' first hle hexec (of_decide_eq_true haccepted) ⟨s', second⟩ second Sample.identity
      Sample.measurement second .refl).1 rfl (by decide) hauthorized rfl rfl (by decide +kernel)
    exact ⟨w, s', first, j, hexec, hagain, hj, hsucceeded, c, r, hmanifest, houtputs, hmetrics,
      hartifact, hreason, hpublishes⟩
  | _ => exact absurd haccepted (by simp)

end Dispatch
