import Dispatch.Ownership.Invariant

/-!
# Fencing is final

An attempt loses its authority when it ends, when its job moves on, when its
lease is over, or when its session is fenced. On a sound store each of these
means that the attempt is dead (`Fenced.dead`): it is not active any more, or
has no lease left. Death is kept by every run, and the gate is shut to the
dead, so that no transaction that still bears the attempt's authority changes
anything of it (`fenced_is_final`).

Two transactions look for an earlier answer before they reach the gate: a
completion and the registration of a log segment. They are the only ones that
can still answer a dead attempt positively, with evidence that was there when
the attempt died.
-/

namespace Dispatch

open Txn

variable {attempt : Uuid} {s s' : Store}

/-- Any number of transactions. -/
abbrev World.Steps (sha : Uuid → ℕ) : World → World → Prop :=
  Relation.ReflTransGen (World.Step sha)

/-- **The attempt has lost its authority.** -/
structure Fenced (w : World) (attempt : Uuid) (a : AttemptRow) : Prop where
  row : w.store.attempts.lookup attempt = some a
  lost : a.state.isActive = false ∨
    (∀ j, w.store.jobs.lookup a.job = some j → j.currentAttempt ≠ some attempt) ∨
    a.leaseExpiresAt ≤ w.clock ∨
    ∃ session, w.store.sessions.lookup a.session = some session ∧ session.fencedAt ≠ none

/-- **Losing authority is death**: an active attempt is its job's current one
and belongs to its worker's current session, which is not fenced. -/
theorem Fenced.dead {w : World} {a : AttemptRow} (h : Fenced w attempt a)
    (hw : w.Sound) : Dead w.store w.clock attempt := by
  refine ⟨a, h.row, ?_⟩
  have hgrant : w.store.ownership.grant attempt = some a.grant :=
    congrArg (Option.map AttemptRow.grant) h.row
  by_cases hactive : a.state.isActive = true
  · obtain hended | hcurrent | hlease | ⟨session, hsession, hfenced⟩ := h.lost
    · exact .inl hended
    · obtain ⟨t, ht, hcur⟩ := hw.owned.live attempt a.grant hgrant hactive
      obtain ⟨j, hj, rfl⟩ := Option.map_eq_some_iff.mp ht
      exact absurd hcur (hcurrent j hj)
    · exact .inr hlease
    · have hseat := hw.owned.seated attempt a.grant hgrant hactive
      obtain ⟨row, hrow, -, hnone⟩ := hw.coherent.current a.worker a.session hseat
      obtain rfl := Option.mem_unique hsession hrow
      exact absurd hnone hfenced
  · exact .inl (by simpa using hactive)

/-- **The dead stay dead, and leave no further evidence.** -/
theorem Dead.run {sha : Uuid → ℕ} {w w' : World}
    (hdead : Dead w.store w.clock attempt) (hw : w.Sound) (hsteps : w.Steps sha w') :
    Dead w'.store w'.clock attempt ∧ w'.Sound ∧
      w'.store.evidenceOf attempt = w.store.evidenceOf attempt := by
  induction hsteps with
  | refl => exact ⟨hdead, hw, rfl⟩
  | tail _ hstep ih =>
    obtain ⟨hdead', hsound, hevidence⟩ := ih
    have hsound' := hsound.step hstep
    obtain ⟨hle, op, reply, hexec⟩ := hstep
    have hlater := hdead'.later hle
    have hsim := Op.exec_simulated hexec (hsound.coherent.later hle) hsound.owned
    exact ⟨hlater.steps hsim.steps, hsound', (hsim.evidence attempt hlater).trans hevidence⟩

/-! ## Transactions that bear an authority -/

/-- The transaction is a mutation under the authority. -/
def Op.bears (authority : AttemptAuthority) : Op → Prop
  | .renew _ _ r => authority ∈ r.attempts
  | .phase _ _ r => r.claims.authority = authority
  | .createUpload _ _ r _ _ => r.claims.authority = authority
  | .bindMultipart _ _ r _ _ _ => r.claims.authority = authority
  | .preparePart _ _ r => r.authority = authority
  | .completeMultipart _ _ r _ => r.claims.authority = authority
  | .finalizeUpload _ _ r _ _ _ => r.claims.authority = authority
  | .registerLog _ _ r _ => r.claims.authority = authority
  | .complete _ _ r => r.authority = authority
  | _ => False

/-- The answer is positive for the authority. -/
def Reply.accepts (authority : AttemptAuthority) : Reply → Prop
  | .grants gs => ∃ g ∈ gs, g.authority = authority ∧ g.decision = .accepted
  | .mutation r => r.decision = .accepted
  | .upload r => r.decision = .accepted
  | .multipart r => r.decision = .accepted
  | .finalization r => r.decision = .accepted
  | .completion r => r.decision = .accepted
  | _ => False

/-- **An exact replay**: the transaction repeats one that the store has the
evidence of, and is answered from it. -/
def Op.replays (s : Store) : Op → Reply → Prop
  | .registerLog _ _ r _, _ => ∃ segment saved, s.logSegments.lookup segment = some saved ∧
      saved.request = r.requestID ∧ saved.claims = r.claims
  | .complete _ _ r, .completion result =>
      ∃ saved, s.completions.lookup r.authority.attemptID = some saved ∧
        saved.completionID = r.completionID ∧ normalizeCompletion r = .ok saved.payloadDigest ∧
        result = saved.replay
  | _, _ => False

/-- **Nothing of the attempt changes**: its job, its row, its reservation, and
the results, verified artifacts and log segments. -/
structure Untouched (s s' : Store) (job attempt : Uuid) : Prop where
  jobRow : s'.jobs.lookup job = s.jobs.lookup job
  attemptRow : s'.attempts.lookup attempt = s.attempts.lookup attempt
  reservation : s'.reservations.lookup attempt = s.reservations.lookup attempt
  completions : s'.completions = s.completions
  artifacts : s'.artifacts = s.artifacts
  segments : s'.logSegments = s.logSegments

theorem Untouched.refl (s : Store) (job attempt : Uuid) : Untouched s s job attempt :=
  ⟨rfl, rfl, rfl, rfl, rfl, rfl⟩

/-- Grants that do not accept the attempt leave it alone. -/
theorem applyGrants_untouched (job : Uuid) (grants : List LeaseGrant)
    (h : ∀ g ∈ grants, g.authority.attemptID = attempt → g.decision ≠ .accepted) (s : Store) :
    Untouched s (grants.foldl Store.applyGrant s) job attempt := by
  induction grants generalizing s with
  | nil => exact .refl s job attempt
  | cons g grants ih =>
    have hrest := ih (fun g' hg' => h g' (List.mem_cons_of_mem _ hg')) (s.applyGrant g)
    have hfirst : Untouched s (s.applyGrant g) job attempt := by
      by_cases hid : g.authority.attemptID = attempt
      · rw [Store.applyGrant, if_neg (h g List.mem_cons_self hid)]
        exact .refl s job attempt
      · refine ⟨?_, applyGrant_attempts s g (Ne.symm hid), ?_, ?_, ?_, ?_⟩ <;>
          unfold Store.applyGrant <;> split_ifs <;> rfl
    exact ⟨hrest.jobRow.trans hfirst.jobRow, hrest.attemptRow.trans hfirst.attemptRow,
      hrest.reservation.trans hfirst.reservation, hrest.completions.trans hfirst.completions,
      hrest.artifacts.trans hfirst.artifacts, hrest.segments.trans hfirst.segments⟩

/-- A renewal accepts no dead member, so it leaves a dead attempt alone. -/
theorem renewLeases_dead {seen : Store} {now : Time} {id : WorkerIdentity} {r : LeaseRenewal}
    {grants : List LeaseGrant} (h : renewLeases s seen now id r = .ok (s', grants))
    (hdead : Dead s now attempt) (job : Uuid) :
    Untouched s s' job attempt ∧
      ∀ g ∈ grants, g.authority.attemptID = attempt → g.decision ≠ .accepted := by
  have hrefused : ∀ g ∈ grants, g.authority.attemptID = attempt → g.decision ≠ .accepted := by
    rintro g hg rfl haccepted
    obtain ⟨l, hl, -, hactive, -, hlease, -⟩ :=
      leaseDecision_eq_accepted.mp (renewLeases_accepted h hg haccepted)
    obtain ⟨a, ha, rfl⟩ := lockedAttempt_eq_some hl
    exact not_dead ha hactive hlease hdead
  refine ⟨?_, hrefused⟩
  obtain ⟨-, ⟨saved, rfl, -⟩ | ⟨-, requests, rfl⟩⟩ := renewLeases_eq_ok h
  · exact .refl s' job attempt
  · obtain ⟨hj, ha, hres, hcomp, hart, hseg⟩ := applyGrants_untouched job grants hrefused s
    exact ⟨hj, ha, hres, hcomp, hart, hseg⟩

/-- **No mutation under a dead attempt's authority changes anything of it**, and
only an exact replay is answered positively. -/
theorem Op.exec_dead {sha : Uuid → ℕ} {now : Time} {op : Op} {reply : Reply}
    (h : op.exec sha s now = .ok (s', reply)) {authority : AttemptAuthority}
    (hbears : op.bears authority) (hdead : Dead s now authority.attemptID) (job : Uuid) :
    Untouched s s' job authority.attemptID ∧ (reply.accepts authority → op.replays s reply) := by
  -- What the gate turns away changes nothing.
  have hgated : ∀ {t : Store} {accepted : Prop}, t = s ∧ ¬ accepted ∨ Authorized s now authority →
      Untouched s t job authority.attemptID ∧ ¬ accepted := by
    rintro t accepted (⟨rfl, hnot⟩ | hopen)
    · exact ⟨.refl t job _, hnot⟩
    · exact absurd hdead hopen.not_dead
  cases op
  all_goals simp only [Op.exec, bind_ok, orThrow_ok, pure_pair_ok] at h
  case renew =>
    obtain ⟨⟨t, grants⟩, ht, rfl, rfl⟩ := h
    obtain ⟨huntouched, hrefused⟩ := renewLeases_dead ht hdead job
    refine ⟨huntouched, ?_⟩
    rintro ⟨g, hg, rfl, haccepted⟩
    exact absurd haccepted (hrefused g hg rfl)
  case phase =>
    obtain ⟨⟨t, _⟩, ht, rfl, rfl⟩ := h
    obtain rfl := hbears
    exact (hgated (reportPhase_gated ht)).imp_right (fun hnot hyes => absurd hyes hnot)
  case createUpload =>
    obtain ⟨⟨t, _⟩, ht, rfl, rfl⟩ := h
    obtain rfl := hbears
    exact (hgated (createUpload_gated ht)).imp_right (fun hnot hyes => absurd hyes hnot)
  case bindMultipart =>
    obtain ⟨⟨t, _⟩, ht, rfl, rfl⟩ := h
    obtain rfl := hbears
    simp only [bindMultipartUpload, bind_ok] at ht
    obtain ⟨_, -, ht⟩ := ht
    exact (hgated (createUpload_gated ht)).imp_right (fun hnot hyes => absurd hyes hnot)
  case preparePart =>
    obtain ⟨⟨t, _⟩, ht, rfl, rfl⟩ := h
    obtain rfl := hbears
    exact (hgated (prepareMultipartPart_gated ht)).imp_right (fun hnot hyes => absurd hyes hnot)
  case completeMultipart =>
    obtain ⟨⟨t, _⟩, ht, rfl, rfl⟩ := h
    obtain rfl := hbears
    exact (hgated (multipartCompletionTx_gated ht)).imp_right (fun hnot hyes => absurd hyes hnot)
  case finalizeUpload =>
    obtain ⟨⟨t, _⟩, ht, rfl, rfl⟩ := h
    obtain rfl := hbears
    exact (hgated (finalizeUploadTx_gated ht)).imp_right (fun hnot hyes => absurd hyes hnot)
  case registerLog =>
    obtain ⟨⟨t, _⟩, ht, rfl, rfl⟩ := h
    obtain rfl := hbears
    obtain ⟨hopen, -⟩ | ⟨rfl, hsaved⟩ | ⟨rfl, hnot⟩ := registerLogSegment_cases ht
    · exact absurd hdead hopen.not_dead
    · exact ⟨.refl t job _, fun _ => hsaved⟩
    · exact ⟨.refl t job _, fun hyes => absurd hyes hnot⟩
  case complete =>
    obtain ⟨⟨t, _⟩, ht, rfl, rfl⟩ := h
    obtain rfl := hbears
    obtain ⟨p, a, j, m, hcommit, -⟩ | ⟨rfl, saved, a, hsaved, -, -, hid, hpayload, rfl⟩ |
      ⟨rfl, hnot⟩ := completeAttempt_cases ht
    · obtain ⟨-, hactive, -, hlease, -⟩ := completionDecision_accepted hcommit.late
      exact absurd hdead (not_dead hcommit.attempt hactive hlease)
    · exact ⟨.refl t job _, fun _ => ⟨saved, hsaved, hid, hpayload, rfl⟩⟩
    · exact ⟨.refl t job _, fun hyes => absurd hyes hnot⟩
  all_goals exact absurd hbears (by simp [Op.bears])

/-- The evidence of a replay belongs to the attempt it bears. -/
theorem Op.replays_congr {op : Op} {reply : Reply} {authority : AttemptAuthority}
    (hbears : op.bears authority)
    (hevidence : s'.evidenceOf authority.attemptID = s.evidenceOf authority.attemptID)
    (h : op.replays s' reply) : op.replays s reply := by
  obtain ⟨hcompletion, hsegments⟩ := Prod.mk.inj hevidence
  cases op
  case registerLog =>
    obtain rfl := hbears
    obtain ⟨segment, saved, hsaved, hrequest, hclaims⟩ := h
    have hrow := congrFun hsegments segment
    rw [hsaved] at hrow
    simp only [Option.filter_some, hclaims, decide_true, if_true] at hrow
    exact ⟨segment, saved, (Option.filter_eq_some_iff.mp hrow.symm).1, hrequest, hclaims⟩
  case complete =>
    obtain rfl := hbears
    cases reply
    case completion =>
      obtain ⟨saved, hsaved, hrest⟩ := h
      exact ⟨saved, hcompletion.symm.trans hsaved, hrest⟩
    all_goals exact absurd h (by simp [Op.replays])
  all_goals exact absurd h (by simp [Op.replays])

/-- **Fencing is final.** After an attempt has lost its authority, whatever
runs in between, a mutation under its authority changes nothing of it; the only
positive answers are exact replays, from evidence there was when the authority
was lost. -/
theorem fenced_is_final {sha : Uuid → ℕ} {w w' : World} (hw : Reachable sha w)
    {attempt : Uuid} {a : AttemptRow} (hfenced : Fenced w attempt a) (hrun : w.Steps sha w')
    {now : Time} (hnow : w'.clock ≤ now) {op : Op} (hbears : op.bears (a.authority attempt))
    {s' : Store} {reply : Reply} (hexec : op.exec sha w'.store now = .ok (s', reply)) :
    Untouched w'.store s' a.job attempt ∧
      (reply.accepts (a.authority attempt) → op.replays w.store reply) := by
  obtain ⟨hdead, -, hevidence⟩ := (hfenced.dead hw.sound).run hw.sound hrun
  obtain ⟨huntouched, hreplay⟩ := Op.exec_dead hexec hbears (hdead.later hnow) a.job
  exact ⟨huntouched, fun hyes => Op.replays_congr hbears hevidence (hreplay hyes)⟩

/-- The report that an attempt starts. -/
def Sample.starts (s : Store) (authority : AttemptAuthority) : Op :=
  .phase s Sample.identity ⟨1, ⟨authority, .starting, "", none⟩⟩

/-- In the sample run attempt 1 outlives its lease; its report that it starts is
then answered, and changes nothing. -/
theorem sample_report_after_expiry : ∃ (w : World) (a : AttemptRow) (s' : Store) (reply : Reply),
    a.leaseExpiresAt ≤ w.clock ∧
    (Sample.starts w.store (a.authority 1)).exec Sample.sha w.store w.clock = .ok (s', reply) ∧
    Untouched w.store s' a.job 1 ∧ (reply.accepts (a.authority 1) →
      (Sample.starts w.store (a.authority 1)).replays w.store reply) := by
  obtain ⟨w, hw, h⟩ := Sample.reaches Sample.assigned_reachable [(40 * second, .drain 1 1)]
    (fun w : World => (w.store.attempts.lookup 1).any (fun a : AttemptRow =>
      decide (a.leaseExpiresAt ≤ w.clock) && ((Sample.starts w.store (a.authority 1)).exec
        Sample.sha w.store w.clock).toOption.isSome)) (by decide +kernel)
  simp only [Option.any_eq_true, Bool.and_eq_true, decide_eq_true_eq] at h
  obtain ⟨a, ha, hlease, hok⟩ := h
  have hbears : (Sample.starts w.store (a.authority 1)).bears (a.authority 1) := rfl
  cases hexec : (Sample.starts w.store (a.authority 1)).exec Sample.sha w.store w.clock with
  | error e => exact absurd hok (by rw [hexec]; simp [Except.toOption])
  | ok x =>
    obtain ⟨s', reply⟩ := x
    exact ⟨w, a, s', reply, hlease, hexec, fenced_is_final hw ⟨ha, .inr (.inr (.inl hlease))⟩ .refl
      (le_refl _) hbears hexec⟩

/-- **The control plane refines the ownership machine.** What a run does to the
store is a run of the machine on its readings, at times within the run. -/
theorem run_refines_ownership {sha : Uuid → ℕ} {w w' : World} (h : Reachable sha w)
    (hrun : w.Steps sha w') : Relation.ReflTransGen (fun x y => ∃ now, w.clock ≤ now ∧
      now ≤ w'.clock ∧ Ownership.Step now x y) w.store.ownership w'.store.ownership := by
  refine And.left (b := Reachable sha w' ∧ w.clock ≤ w'.clock) ?_
  induction hrun with
  | refl => exact ⟨.refl, h, le_rfl⟩
  | tail _ hstep ih =>
    obtain ⟨hbefore, hreached, hclock⟩ := ih
    have hnext := hreached.step hstep
    obtain ⟨hle, op, reply, hexec⟩ := hstep
    have hsound := hreached.sound
    have hlast := (Op.exec_simulated hexec (hsound.coherent.later hle) hsound.owned).steps
    refine ⟨.trans (.mono (fun _ _ hone => ?_) _ _ hbefore) (.mono (fun _ _ hone => ?_) _ _ hlast),
      hnext, hclock.trans hle⟩
    · obtain ⟨now, hlow, hhigh, hone⟩ := hone
      exact ⟨now, hlow, hhigh.trans hle, hone⟩
    · exact ⟨_, hclock.trans hle, le_rfl, hone⟩

theorem sample_refines_ownership : Relation.ReflTransGen (fun x y => ∃ now, 0 ≤ now ∧
    now ≤ second ∧ Ownership.Step now x y) Sample.world.store.ownership
      Sample.assignedWorld.store.ownership :=
  run_refines_ownership Sample.world_reachable (World.run_steps Sample.run_assigned)

end Dispatch
