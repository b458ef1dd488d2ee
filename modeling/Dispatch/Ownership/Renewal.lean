import Dispatch.Ledger.History
import Dispatch.Store.Footprint
import Dispatch.Worker.Lease

/-!
# Renewals, repeated and in batches

A worker renews the leases of its attempts in batches, and sends a batch again
when the answer was lost. Both are read member by member. What a member is
answered is what it would be answered alone (`memberGrant`): the rows of other
members decide neither its decision nor its bounds, and an attempt that the
batch happens to lock under the job of another member is not taken for its own.
A repeated batch finds the answers it was first given on record
(`Reachable.grants_stand`) and changes nothing; the second answer is at most
the first one, and at most what the attempt still has.
-/

namespace Dispatch

open Txn

variable {a : AttemptAuthority} {g : LeaseGrant} {l hash batch : List AttemptAuthority}
  {worker : Uuid} {job : LeaseJob} {attempt : Option LeaseAttempt} {saved : List LeaseGrant}
  {f : AttemptAuthority → LeaseGrant}

variable {sha : Uuid → ℕ} {s s' seen : Store} {now : Time} {id : WorkerIdentity} {r : LeaseRenewal}
  {grants : List LeaseGrant}

/-! ## Members -/

/-- The key of a batch. -/
def LeaseRenewal.key (r : LeaseRenewal) (worker : Uuid) : Uuid × Uuid × Uuid :=
  (worker, r.sessionID, r.requestID)

/-- The grant that a member was first given. -/
def Store.firstGrant (s : Store) (worker : Uuid) (r : LeaseRenewal) (a : AttemptAuthority) :
    Option LeaseGrant :=
  (s.leaseRequests.lookup (r.key worker)).bind (fun row =>
    row.results.find? (fun g => g.authority.attemptID = a.attemptID))

theorem Store.firstGrant_new (h : s.leaseRequests.lookup (r.key worker) = none)
    (a : AttemptAuthority) : s.firstGrant worker r a = none := by
  unfold Store.firstGrant
  rw [h]
  rfl

/-- The attempt of a member, if it is one of the job that the member names. -/
def ownAttempt (a : AttemptAuthority) : Option AttemptRow → Option LeaseAttempt
  | some row => if row.job = a.jobID then some (row.lease a.attemptID) else none
  | none => none

/-- **The answer to one member**, from the grant it was first given, if any, its
own job and its own attempt. -/
def memberGrant (now : Time) (first : Option LeaseGrant) (job : Option JobRow)
    (attempt : Option AttemptRow) (a : AttemptAuthority) : LeaseGrant :=
  let lease := (job.map JobRow.lease).getD ⟨none, false⟩
  match first with
  | none => freshGrant now lease (ownAttempt a attempt) a
  | some g => replayGrant now [g] lease (ownAttempt a attempt) a

theorem lockedJob_eq (s : Store) (job : Uuid) :
    lockedJob s job = ((s.jobs.lookup job).map JobRow.lease).getD ⟨none, false⟩ := by
  unfold lockedJob
  cases s.jobs.lookup job <;> rfl

/-- A batch locks the attempt of a member, or one of another job in its place. -/
theorem lockedAttempt_own (ha : a ∈ batch) :
    lockedAttempt s batch a.attemptID = ownAttempt a (s.attempts.lookup a.attemptID) ∨
      (∃ l, lockedAttempt s batch a.attemptID = some l ∧ a ≠ l.authority) ∧
        ownAttempt a (s.attempts.lookup a.attemptID) = none := by
  unfold lockedAttempt ownAttempt
  cases hrow : s.attempts.lookup a.attemptID with
  | none => exact .inl rfl
  | some row =>
    show (if row.job ∈ batch.map AttemptAuthority.jobID then some (row.lease a.attemptID) else none)
        = (if row.job = a.jobID then some (row.lease a.attemptID) else none) ∨ _
    by_cases hjob : row.job = a.jobID
    · have hmem : row.job ∈ batch.map AttemptAuthority.jobID := hjob ▸ List.mem_map_of_mem ha
      rw [if_pos hmem, if_pos hjob]
      exact .inl rfl
    · by_cases hmem : row.job ∈ batch.map AttemptAuthority.jobID
      · refine .inr ⟨⟨_, if_pos hmem, fun heq => hjob ?_⟩, if_neg hjob⟩
        rw [heq]
        rfl
      · rw [if_neg hmem, if_neg hjob]
        exact .inl rfl

/-- The gate decides about a member as it would without the other members. -/
theorem leaseDecision_own (ha : a ∈ batch) (job : LeaseJob) (now : Time) :
    lockedAttempt s batch a.attemptID = ownAttempt a (s.attempts.lookup a.attemptID) ∨
      leaseDecision a job (lockedAttempt s batch a.attemptID) now = .fenced ∧
        leaseDecision a job (ownAttempt a (s.attempts.lookup a.attemptID)) now = .fenced := by
  obtain hsame | ⟨⟨l, hl, hother⟩, hnone⟩ := lockedAttempt_own (s := s) ha
  · exact .inl hsame
  · rw [hl, hnone]
    exact .inr ⟨if_pos hother, rfl⟩

/-- A refused member carries no bounds. -/
theorem freshGrant_fenced (h : leaseDecision a job attempt now = .fenced) :
    freshGrant now job attempt a = ⟨a, .fenced, 0, 0, now⟩ := by
  unfold freshGrant LeaseGrant.normalize
  rw [h]
  rfl

theorem replayGrant_fenced
    (hg : saved.find? (fun g => g.authority.attemptID = a.attemptID) = some g)
    (h : leaseDecision a job attempt now = .fenced) : replayGrant now saved job attempt a
      = ⟨a, if g.decision = .accepted then .fenced else g.decision, 0, 0, now⟩ := by
  unfold replayGrant LeaseGrant.normalize
  rw [hg, h]
  by_cases haccepted : g.decision = .accepted
  · simp only [if_pos haccepted]
    rfl
  · simp only [if_neg haccepted]

/-- A replay looks a member up among the saved grants. -/
theorem replayGrant_congr {saved' : List LeaseGrant}
    (h : saved.find? (fun g => g.authority.attemptID = a.attemptID)
      = saved'.find? (fun g => g.authority.attemptID = a.attemptID)) (job : LeaseJob)
    (attempt : Option LeaseAttempt) :
    replayGrant now saved job attempt a = replayGrant now saved' job attempt a := by
  unfold replayGrant
  rw [h]

theorem find?_singleton (h : g.authority.attemptID = a.attemptID) :
    [g].find? (fun g => g.authority.attemptID = a.attemptID) = some g := by
  rw [List.find?_cons_of_pos]
  exact decide_eq_true h

/-- **A first batch answers each member by itself.** -/
theorem freshGrant_member (ha : a ∈ batch) :
    freshGrant now (lockedJob s a.jobID) (lockedAttempt s batch a.attemptID) a
      = memberGrant now none (s.jobs.lookup a.jobID) (s.attempts.lookup a.attemptID) a := by
  show _ = freshGrant now _ _ a
  rw [← lockedJob_eq]
  obtain hsame | ⟨hfenced, hfenced'⟩ := leaseDecision_own (s := s) ha (lockedJob s a.jobID) now
  · rw [hsame]
  · rw [freshGrant_fenced hfenced, freshGrant_fenced hfenced']

theorem replayGrant_member (ha : a ∈ batch)
    (hg : saved.find? (fun g => g.authority.attemptID = a.attemptID) = some g) :
    replayGrant now saved (lockedJob s a.jobID) (lockedAttempt s batch a.attemptID) a
      = memberGrant now (some g) (s.jobs.lookup a.jobID) (s.attempts.lookup a.attemptID) a := by
  have hown := List.find?_some hg
  have hone := find?_singleton (of_decide_eq_true hown)
  show _ = replayGrant now [g] _ _ a
  rw [← lockedJob_eq]
  obtain hsame | ⟨hfenced, hfenced'⟩ := leaseDecision_own (s := s) ha (lockedJob s a.jobID) now
  · rw [hsame, replayGrant_congr (hg.trans hone.symm)]
  · rw [replayGrant_fenced hg hfenced, replayGrant_fenced hone hfenced']

/-- **A second answer is at most the first one**, and at most what the attempt
still has. -/
structure LeaseGrant.Repeats (g' g : LeaseGrant) (attempt : Option AttemptRow) : Prop where
  refused : g.decision ≠ .accepted → g'.decision = g.decision
  lease : g'.leaseExpiresAt ≤ g.leaseExpiresAt
  phase : g'.phaseDeadline ≤ g.phaseDeadline
  current : ∀ row, attempt = some row →
    g'.leaseExpiresAt ≤ row.leaseExpiresAt ∧ g'.phaseDeadline ≤ row.phaseDeadline

theorem LeaseGrant.normalize_decision (g : LeaseGrant) : g.normalize.decision = g.decision := by
  unfold LeaseGrant.normalize
  split_ifs <;> rfl

theorem LeaseGrant.normalize_le (g : LeaseGrant) :
    g.normalize.leaseExpiresAt ≤ g.leaseExpiresAt ∧
    g.normalize.phaseDeadline ≤ g.phaseDeadline := by
  unfold LeaseGrant.normalize
  split_ifs
  · exact ⟨le_rfl, le_rfl⟩
  · exact ⟨Nat.zero_le _, Nat.zero_le _⟩

/-- What an attempt still has bounds what its member can have. -/
theorem ownAttempt_le (a : AttemptAuthority) (row : AttemptRow) :
    ((ownAttempt a (some row)).map LeaseAttempt.expires).getD 0 ≤ row.leaseExpiresAt ∧
      ((ownAttempt a (some row)).map LeaseAttempt.phase).getD 0 ≤ row.phaseDeadline := by
  unfold ownAttempt
  by_cases hjob : row.job = a.jobID
  · simp only [if_pos hjob]
    exact ⟨le_rfl, le_rfl⟩
  · simp only [if_neg hjob]
    exact ⟨Nat.zero_le _, Nat.zero_le _⟩

theorem memberGrant_repeats (hown : g.authority.attemptID = a.attemptID) (now : Time)
    (job : Option JobRow) (attempt : Option AttemptRow) :
    (memberGrant now (some g) job attempt a).Repeats g attempt := by
  have hone := find?_singleton hown
  show (replayGrant now [g] _ (ownAttempt a attempt) a).Repeats g attempt
  unfold replayGrant
  rw [hone]
  constructor
  · intro hrefused
    rw [LeaseGrant.normalize_decision]
    simp only [if_neg hrefused]
  · exact (LeaseGrant.normalize_le _).1.trans (min_le_left _ _)
  · exact (LeaseGrant.normalize_le _).2.trans (min_le_left _ _)
  · rintro row rfl
    exact ⟨(LeaseGrant.normalize_le _).1.trans ((min_le_right _ _).trans (ownAttempt_le a row).1),
      (LeaseGrant.normalize_le _).2.trans ((min_le_right _ _).trans (ownAttempt_le a row).2)⟩

/-- **What a renewal does**: it repeats a batch that is on record, without a
change, or puts a new one on record. -/
theorem renewLeases_cases (h : renewLeases s seen now id r = .ok (s', grants)) :
    grants = r.attempts.map (fun a => memberGrant now (s.firstGrant id.workerID r a)
        (s.jobs.lookup a.jobID) (s.attempts.lookup a.attemptID) a) ∧
      ((∃ row, s.leaseRequests.lookup (r.key id.workerID) = some row ∧ s' = s ∧
          ∀ a ∈ r.attempts, ∃ g ∈ row.results, g.authority = a) ∨
        s.leaseRequests.lookup (r.key id.workerID) = none ∧ ∃ hash,
          r.hash id.workerID = .ok hash ∧ s' = { grants.foldl Store.applyGrant s with
            leaseRequests :=
              AList.insert (r.key id.workerID) ⟨hash, grants⟩ s.leaseRequests }) := by
  simp only [renewLeases, bind_ok] at h
  obtain ⟨_, -, hash, hhash, _, -, _, -, h⟩ := h
  split at h
  · rename_i row hrow
    simp only [decodeLeaseReplay, bind_ok, require_ok, pure_ok] at h
    obtain ⟨_, -, saved, ⟨_, -, _, hsaved, rfl⟩, rfl, rfl⟩ := h
    refine ⟨List.map_congr_left fun a ha => ?_, .inl ⟨row, hrow, rfl, hsaved⟩⟩
    obtain ⟨g, hg, rfl⟩ := hsaved a ha
    obtain ⟨g', hg'⟩ : ∃ g', row.results.find? (fun x =>
        x.authority.attemptID = g.authority.attemptID) = some g' :=
      Option.isSome_iff_exists.mp (List.find?_isSome.mpr ⟨g, hg, decide_eq_true rfl⟩)
    have hfirst : s.firstGrant id.workerID r g.authority = some g' := by
      unfold Store.firstGrant LeaseRenewal.key
      rw [hrow]
      exact hg'
    rw [hfirst]
    exact replayGrant_member ha hg'
  · rename_i hnone
    obtain ⟨rfl, rfl⟩ := pure_pair_ok.mp h
    refine ⟨List.map_congr_left fun a ha => ?_, .inr ⟨hnone, hash, hhash, rfl⟩⟩
    rw [Store.firstGrant_new hnone]
    exact freshGrant_member ha

/-! ## Batches -/

/-- A member is well formed. -/
def AttemptAuthority.Member (worker session : Uuid) (a : AttemptAuthority) : Prop :=
  canonicalUUID a.jobID = true ∧ canonicalUUID a.attemptID = true ∧ a.workerID = worker ∧
    a.sessionID = session ∧ 1 ≤ a.generation

/-- **The members of a batch** are well formed, of different attempts. -/
theorem validMembers_iff {session : Uuid} {seen : List Uuid} :
    validMembers worker session seen l = true ↔ (∀ a ∈ l, a.Member worker session) ∧
      (l.map AttemptAuthority.attemptID).Nodup ∧ ∀ a ∈ l, a.attemptID ∉ seen := by
  induction l generalizing seen with
  | nil => simp [validMembers]
  | cons a l ih =>
    rw [List.forall_mem_cons, List.forall_mem_cons, List.map_cons, List.nodup_cons]
    simp only [validMembers, Bool.and_eq_true, decide_eq_true_eq, ih, List.mem_cons, not_or,
      AttemptAuthority.Member]
    constructor
    · rintro ⟨⟨⟨⟨⟨⟨hjob, hattempt⟩, hworker⟩, hsession⟩, hgeneration⟩, hnew⟩, hl, hnodup, hseen⟩
      refine ⟨⟨⟨hjob, hattempt, hworker, hsession, hgeneration⟩, hl⟩, ⟨?_, hnodup⟩, hnew,
        fun b hb => (hseen b hb).2⟩
      intro hmem
      obtain ⟨b, hb, heq⟩ := List.mem_map.mp hmem
      exact (hseen b hb).1 heq
    · rintro ⟨⟨⟨hjob, hattempt, hworker, hsession, hgeneration⟩, hl⟩, ⟨hother, hnodup⟩, hnew, hseen⟩
      refine ⟨⟨⟨⟨⟨⟨hjob, hattempt⟩, hworker⟩, hsession⟩, hgeneration⟩, hnew⟩, hl, hnodup, ?_⟩
      exact fun b hb => ⟨fun heq => hother (List.mem_map.mpr ⟨b, hb, heq⟩), hseen b hb⟩

theorem LeaseRenewal.hash_eq_ok (h : r.hash worker = .ok hash) :
    (canonicalUUID r.sessionID ∧ canonicalUUID r.requestID ∧ 1 ≤ r.attempts.length ∧
      r.attempts.length ≤ maxLeaseRenewalBatch) ∧ (∀ a ∈ r.attempts, a.Member worker r.sessionID) ∧
      (r.attempts.map AttemptAuthority.attemptID).Nodup ∧
      hash = r.attempts.insertionSort (fun a b => a.attemptID ≤ b.attemptID) := by
  simp only [LeaseRenewal.hash, bind_ok, require_ok, pure_ok] at h
  obtain ⟨_, hsize, _, hvalid, rfl⟩ := h
  obtain ⟨hmembers, hnodup, -⟩ := validMembers_iff.mp hvalid
  exact ⟨hsize, hmembers, hnodup, rfl⟩

/-- The order of its members is not part of a batch. -/
theorem LeaseRenewal.hash_perm {r' : LeaseRenewal} (h : r.hash worker = .ok hash)
    (hsession : r'.sessionID = r.sessionID) (hrequest : r'.requestID = r.requestID)
    (hperm : r'.attempts.Perm r.attempts) : r'.hash worker = .ok hash := by
  obtain ⟨hsize, hmembers, hnodup, rfl⟩ := LeaseRenewal.hash_eq_ok h
  have hvalid : validMembers worker r'.sessionID [] r'.attempts = true := by
    refine validMembers_iff.mpr ⟨fun a ha => ?_, (hperm.map _).nodup_iff.mpr hnodup, fun _ _ =>
      List.not_mem_nil⟩
    rw [hsession]
    exact hmembers a (hperm.mem_iff.mp ha)
  have hsorted : r'.attempts.insertionSort (fun a b => a.attemptID ≤ b.attemptID)
      = r.attempts.insertionSort (fun a b => a.attemptID ≤ b.attemptID) := by
    refine Table.insertionSort_congr hperm fun a ha b hb hle hge => ?_
    exact List.inj_on_of_nodup_map hnodup (hperm.mem_iff.mp ha) (hperm.mem_iff.mp hb)
      (le_antisymm hle hge)
  simp only [LeaseRenewal.hash, bind_ok, require_ok, pure_ok]
  refine ⟨(), ?_, (), hvalid, hsorted⟩
  rw [hsession, hrequest, hperm.length_eq]
  exact hsize

/-- The grant of a member is found among the grants of its batch. -/
theorem find?_grant (hf : ∀ a, (f a).authority = a)
    (hnodup : (l.map AttemptAuthority.attemptID).Nodup) (ha : a ∈ l) :
    (l.map f).find? (fun g => g.authority.attemptID = a.attemptID) = some (f a) := by
  induction l with
  | nil => exact absurd ha List.not_mem_nil
  | cons b l ih =>
    obtain ⟨hother, hnodup'⟩ := List.nodup_cons.mp (List.map_cons ▸ hnodup)
    rw [List.map_cons]
    obtain rfl | ha' := List.mem_cons.mp ha
    · exact List.find?_cons_of_pos (decide_eq_true (by rw [hf]))
    · rw [List.find?_cons_of_neg, ih hnodup' ha']
      rw [decide_eq_true_eq, hf]
      exact fun heq => hother (heq ▸ List.mem_map_of_mem ha')

@[simp] theorem memberGrant_authority (now : Time) (first : Option LeaseGrant) (job : Option JobRow)
    (attempt : Option AttemptRow) (a : AttemptAuthority) :
    (memberGrant now first job attempt a).authority = a := by
  cases first with
  | none => exact freshGrant_authority ..
  | some g => exact replayGrant_authority ..

/-- A batch that is well formed and not on record is answered. -/
theorem renewLeases_total (now : Time)
    (hids : canonicalUUID id.workerID ∧ canonicalUUID id.credentialID)
    (hhash : r.hash id.workerID = .ok hash) (hauthorized : authorizeWorkerTx s id = .ok ())
    (hcurrent : requireCurrentWorkerSession seen id.workerID r.sessionID = .ok ())
    (hnew : s.leaseRequests.lookup (r.key id.workerID) = none) :
    ∃ s' grants, renewLeases s seen now id r = .ok (s', grants) := by
  unfold LeaseRenewal.key at hnew
  simp only [renewLeases, require_of hids, hhash, hauthorized, hcurrent, ok_bind, hnew]
  exact ⟨_, _, rfl⟩

/-- What lets a batch in. -/
theorem renewLeases_admitted (h : renewLeases s seen now id r = .ok (s', grants)) :
    (canonicalUUID id.workerID ∧ canonicalUUID id.credentialID) ∧
      authorizeWorkerTx s id = .ok () ∧
      requireCurrentWorkerSession seen id.workerID r.sessionID = .ok () := by
  simp only [renewLeases, bind_ok, require_ok] at h
  obtain ⟨_, hids, hash, -, _, hauthorized, _, hcurrent, -⟩ := h
  exact ⟨hids, hauthorized, hcurrent⟩

/-! ## Runs -/

/-- **What a batch was answered stays on record.** -/
theorem Op.exec_leaseRequests {op : Op} {reply : Reply} (h : op.exec sha s now = .ok (s', reply)) :
    s.leaseRequests.Extends s'.leaseRequests := by
  have hwrites := op.exec_writes h
  cases op with
  | renew seen identity request =>
    simp only [Op.exec, bind_ok, pure_pair_ok] at h
    obtain ⟨⟨t, grants⟩, ht, rfl, -⟩ := h
    obtain ⟨-, ⟨row, -, rfl, -⟩ | ⟨hnew, hash, -, rfl⟩⟩ := renewLeases_cases ht
    · exact .refl _
    · exact .insert _ hnew
  | _ =>
    have hsame : s'.leaseRequests = s.leaseRequests :=
      hwrites .leaseRequests (by simp only [Op.footprint]; decide)
    rw [hsame]
    exact .refl _

theorem World.Later.leaseRequests {w w' : World} (h : World.Later sha w w') :
    w.store.leaseRequests.Extends w'.store.leaseRequests := by
  induction h with
  | refl => exact .refl _
  | tail _ hstep ih =>
    obtain ⟨-, op, reply, hexec⟩ := hstep
    exact ih.trans (Op.exec_leaseRequests hexec)

/-- The rows of a batch of grants: their leases stay, or are granted anew. -/
theorem applyGrants_lease {bound : Time} (hgrants : ∀ g ∈ grants, g.decision = .accepted →
    g.leaseExpiresAt = bound) {attempt : Uuid} {a : AttemptRow}
    (ha : s.attempts.lookup attempt = some a) :
    ∃ a', (grants.foldl Store.applyGrant s).attempts.lookup attempt = some a' ∧
      (a'.leaseExpiresAt = a.leaseExpiresAt ∨ a'.leaseExpiresAt = bound) := by
  induction grants generalizing s a with
  | nil => exact ⟨a, ha, .inl rfl⟩
  | cons g grants ih =>
    have hrest : ∀ g ∈ grants, g.decision = .accepted → g.leaseExpiresAt = bound :=
      fun g' hg' => hgrants g' (List.mem_cons_of_mem g hg')
    have hone : ∃ b, (s.applyGrant g).attempts.lookup attempt = some b ∧
        (b.leaseExpiresAt = a.leaseExpiresAt ∨ b.leaseExpiresAt = bound) := by
      unfold Store.applyGrant
      split_ifs with haccepted
      · show ∃ b, AList.lookup attempt (s.attempts.modify _ _) = some b ∧ _
        rw [Table.lookup_modify, ha]
        split_ifs
        · exact ⟨_, rfl, .inr (hgrants g List.mem_cons_self haccepted)⟩
        · exact ⟨a, rfl, .inl rfl⟩
      · exact ⟨a, ha, .inl rfl⟩
    obtain ⟨b, hb, hlease⟩ := hone
    obtain ⟨c, hc, hlease'⟩ := ih hrest hb
    refine ⟨c, hc, ?_⟩
    obtain heq | heq := hlease'
    · rw [heq]
      exact hlease
    · exact .inr heq

/-- **A renewal moves no lease backwards**, as long as the clock does not go
back. -/
theorem renewLeases_forward {w : World} (h : Reachable sha w) (hle : w.clock ≤ now)
    (hrenewed : renewLeases w.store seen now id r = .ok (s', grants)) {attempt : Uuid}
    {a : AttemptRow} (ha : w.store.attempts.lookup attempt = some a) :
    ∃ a', s'.attempts.lookup attempt = some a' ∧ a.leaseExpiresAt ≤ a'.leaseExpiresAt := by
  obtain ⟨-, ⟨saved, rfl, -⟩ | ⟨hgrants, requests, rfl⟩⟩ := renewLeases_eq_ok hrenewed
  · exact ⟨a, ha, le_rfl⟩
  · have hbound : ∀ g ∈ grants, g.decision = .accepted → g.leaseExpiresAt = now + initialLease := by
      intro g hg haccepted
      rw [hgrants] at hg
      obtain ⟨b, -, rfl⟩ := List.mem_map.mp hg
      exact (freshGrant_accepted haccepted).2
    obtain ⟨a', ha', hlease⟩ := applyGrants_lease hbound ha
    refine ⟨a', ha', ?_⟩
    obtain hsame | hnew := hlease
    · exact hsame.ge
    · rw [hnew]
      exact (h.sound.coherent.leases attempt a ha).trans (Nat.add_le_add_right hle _)

/-- A first answer passes the checks of a replay. -/
theorem freshGrant_valid (hnow : 0 < now) : validGrant (freshGrant now job attempt a) = true := by
  unfold validGrant freshGrant LeaseGrant.normalize
  by_cases haccepted : leaseDecision a job attempt now = .accepted
  · obtain ⟨l, rfl, -, -, -, -, -, hphase⟩ := leaseDecision_eq_accepted.mp haccepted
    have hlease : now < now + initialLease := Nat.lt_add_of_pos_right (by decide)
    have hlength : now + initialLease - now ≤ initialLease := (Nat.add_sub_cancel_left ..).le
    have hphase' : now < (Option.map LeaseAttempt.phase (some l)).getD 0 := hphase
    simp only [if_pos haccepted, Bool.and_eq_true, decide_eq_true_eq]
    exact ⟨hnow.ne', ⟨hlease, hlength⟩, hphase'⟩
  · simp only [if_neg haccepted, Bool.and_eq_true, decide_eq_true_eq]
    exact ⟨hnow.ne', trivial, trivial⟩

theorem leaseResult_authority {result : LeaseResult} (h : leaseResult g = some result) :
    result.authority = g.authority := by
  unfold leaseResult at h
  simp only at h
  split_ifs at h <;> obtain rfl := Option.some.inj h <;> rfl

/-- What a worker makes of an answer it makes of one grant. -/
theorem decodeRenewals_member {results : List LeaseResult} {outcomes : List RenewalOutcome}
    {attempts : List AttemptAuthority} {sent received : MonoTime}
    (hresponse : leaseResponse grants = some results)
    (hdecoded : decodeRenewals attempts results sent received = .ok outcomes) {o : RenewalOutcome}
    (ho : o ∈ outcomes) : ∃ g ∈ grants, ∃ result, leaseResult g = some result ∧
      decodeRenewal sent received result g.authority = .ok o := by
  unfold leaseResponse at hresponse
  unfold decodeRenewals at hdecoded
  split_ifs at hresponse hdecoded
  obtain ⟨⟨result, expected⟩, hmem, hone⟩ := mem_of_mapM_eq_ok hdecoded ho
  obtain ⟨g, hg, hresult⟩ := mem_of_mapM_eq_some hresponse (List.of_mem_zip hmem).1
  refine ⟨g, hg, result, hresult, ?_⟩
  have hidentity : result.authority = expected := by
    by_contra hne
    unfold decodeRenewal at hone
    rw [if_pos hne] at hone
    exact absurd hone (by simp)
  rw [← leaseResult_authority hresult, hidentity]
  exact hone

/-- **A batch on record is repeated.** -/
theorem renewLeases_repeated (hf : ∀ a, (f a).authority = a)
    (hnodup : (l.map AttemptAuthority.attemptID).Nodup)
    (hrecord : s.leaseRequests.lookup (r.key id.workerID) = some ⟨hash, l.map f⟩)
    (hperm : r.attempts.Perm l) (h : renewLeases s seen now id r = .ok (s', grants)) :
    s' = s ∧ grants.map LeaseGrant.authority = r.attempts ∧
      ∀ g' ∈ grants, ∃ g ∈ l.map f, g.authority = g'.authority ∧
        g' = memberGrant now (some g) (s.jobs.lookup g.authority.jobID)
          (s.attempts.lookup g.authority.attemptID) g.authority ∧
        g'.Repeats g (s.attempts.lookup g.authority.attemptID) := by
  obtain ⟨hgrants, ⟨row, -, hstore, -⟩ | ⟨hnone, -⟩⟩ := renewLeases_cases h
  · refine ⟨hstore, ?_, fun g' hg' => ?_⟩
    · rw [hgrants, List.map_map]
      refine (List.map_congr_left fun a ha => memberGrant_authority ..).trans (List.map_id _)
    · rw [hgrants] at hg'
      obtain ⟨a, ha, rfl⟩ := List.mem_map.mp hg'
      have hmem : a ∈ l := hperm.mem_iff.mp ha
      have hgrant : s.firstGrant id.workerID r a = some (f a) := by
        unfold Store.firstGrant
        rw [hrecord]
        exact find?_grant hf hnodup hmem
      refine ⟨f a, List.mem_map_of_mem hmem, ?_, ?_, ?_⟩
      · rw [memberGrant_authority, hf]
      · rw [hgrant, hf]
      · rw [hgrant, hf]
        exact memberGrant_repeats (by rw [hf]) _ _ _
  · exact absurd (hnone.symm.trans hrecord) (by simp)

theorem decodeLeaseReplay_first (hf : ∀ a, (f a).authority = a)
    (hvalid : ∀ a, validGrant (f a) = true) {l' : List AttemptAuthority}
    (hnodup : (l.map AttemptAuthority.attemptID).Nodup) (hperm : l'.Perm l) :
    decodeLeaseReplay (l.map f) l' = .ok (l.map f) := by
  have hids : (l.map f).map (fun g => g.authority.attemptID)
      = l.map AttemptAuthority.attemptID := by
    rw [List.map_map]
    exact List.map_congr_left fun a _ => congrArg AttemptAuthority.attemptID (hf a)
  simp only [decodeLeaseReplay, bind_ok, require_ok, pure_ok]
  refine ⟨(), ⟨?_, ?_, ?_⟩, (), fun a ha => ?_, trivial⟩
  · rw [List.length_map, hperm.length_eq]
  · rw [hids]
    exact hnodup
  · intro g hg
    obtain ⟨a, -, rfl⟩ := List.mem_map.mp hg
    exact hvalid a
  · exact ⟨f a, List.mem_map_of_mem (hperm.mem_iff.mp ha), hf a⟩

/-- A batch on record is answered again. -/
theorem renewLeases_repeats (hids : canonicalUUID id.workerID ∧ canonicalUUID id.credentialID)
    (hhash : r.hash id.workerID = .ok hash) (hauthorized : authorizeWorkerTx s id = .ok ())
    (hcurrent : requireCurrentWorkerSession seen id.workerID r.sessionID = .ok ())
    (hrecord : s.leaseRequests.lookup (r.key id.workerID) = some ⟨hash, grants⟩)
    (hdecoded : decodeLeaseReplay grants r.attempts = .ok grants) :
    ∃ again, renewLeases s seen now id r = .ok (s, again) := by
  unfold LeaseRenewal.key at hrecord
  simp only [renewLeases, require_of hids, hhash, hauthorized, hcurrent, ok_bind, hrecord,
    hdecoded]
  exact ⟨_, rfl⟩

/-- **Renewals, repeated and in batches.** Take a batch that is answered for the
first time, in any reachable store.

No lease moves backwards, the clock being monotone. The batch sent again, at any
later moment of the run and in any order of its members, changes no row; it is
answered as long as the session is the worker's, and every member that was
refused is refused with the same decision, every other one has at most what it
was first granted and at most what its attempt has now. What a member is
answered depends on its own job and its own attempt, the first time and again,
and every other batch that may be sent in its place answers the members that
both have alike. What the worker makes of the answer it makes of each grant by
itself. -/
theorem renewal_replay_batching {w : World} (h : Reachable sha w) (hle : w.clock ≤ now) {s₁ : Store}
    (hfirst : renewLeases w.store seen now id r = .ok (s₁, grants))
    (hnew : w.store.leaseRequests.lookup (r.key id.workerID) = none) :
    (∀ attempt a, w.store.attempts.lookup attempt = some a →
      ∃ a', s₁.attempts.lookup attempt = some a' ∧ a.leaseExpiresAt ≤ a'.leaseExpiresAt) ∧
    (∀ w' seen' now' id' r', World.Later sha ⟨s₁, now⟩ w' → id'.workerID = id.workerID →
      r'.sessionID = r.sessionID → r'.requestID = r.requestID → r'.attempts.Perm r.attempts →
      (∀ s' again, renewLeases w'.store seen' now' id' r' = .ok (s', again) →
        s' = w'.store ∧ again.map LeaseGrant.authority = r'.attempts ∧
        ∀ g' ∈ again, ∃ g ∈ grants, g.authority = g'.authority ∧
          g' = memberGrant now' (some g) (w'.store.jobs.lookup g.authority.jobID)
            (w'.store.attempts.lookup g.authority.attemptID) g.authority ∧
          g'.Repeats g (w'.store.attempts.lookup g.authority.attemptID)) ∧
      (0 < now → canonicalUUID id'.credentialID → authorizeWorkerTx w'.store id' = .ok () →
        requireCurrentWorkerSession seen' id.workerID r.sessionID = .ok () →
        ∃ again, renewLeases w'.store seen' now' id' r' = .ok (w'.store, again))) ∧
    grants = r.attempts.map (fun a => memberGrant now none (w.store.jobs.lookup a.jobID)
      (w.store.attempts.lookup a.attemptID) a) ∧
    (∀ r₂ hash₂, r₂.sessionID = r.sessionID → r₂.hash id.workerID = .ok hash₂ →
      w.store.leaseRequests.lookup (r₂.key id.workerID) = none →
      ∃ s₂ grants₂, renewLeases w.store seen now id r₂ = .ok (s₂, grants₂) ∧
        ∀ g ∈ grants, ∀ g₂ ∈ grants₂, g₂.authority = g.authority → g₂ = g) ∧
    (∀ results outcomes sent received, leaseResponse grants = some results →
      decodeRenewals r.attempts results sent received = .ok outcomes →
      ∀ o ∈ outcomes, ∃ g ∈ grants, ∃ result, leaseResult g = some result ∧
        decodeRenewal sent received result g.authority = .ok o) := by
  obtain ⟨hgrants, hcases⟩ := renewLeases_cases hfirst
  obtain ⟨row, hrow, -⟩ | ⟨-, hash, hhash, hstore⟩ := hcases
  · exact absurd (hnew.symm.trans hrow) (by simp)
  simp only [Store.firstGrant_new hnew] at hgrants
  obtain ⟨hids, hauthorized, hcurrent⟩ := renewLeases_admitted hfirst
  have hrecord : s₁.leaseRequests.lookup (r.key id.workerID) = some ⟨hash, grants⟩ := by
    rw [hstore]
    exact AList.lookup_insert _
  refine ⟨fun attempt a ha => renewLeases_forward h hle hfirst ha, ?_, hgrants, ?_,
    fun results outcomes sent received hresponse hdecoded o ho =>
      decodeRenewals_member hresponse hdecoded ho⟩
  · intro w' seen' now' id' r' hlater hworker hsession hrequest hperm
    have hkey : r'.key id'.workerID = r.key id.workerID := by
      unfold LeaseRenewal.key
      rw [hworker, hsession, hrequest]
    have hrecord' : w'.store.leaseRequests.lookup (r'.key id'.workerID) = some ⟨hash, grants⟩ := by
      rw [hkey]
      exact hlater.leaseRequests _ _ hrecord
    obtain ⟨-, -, hnodup, -⟩ := LeaseRenewal.hash_eq_ok hhash
    constructor
    · intro s' again hagain
      rw [hgrants] at hrecord' ⊢
      exact renewLeases_repeated (fun a => memberGrant_authority ..) hnodup hrecord' hperm hagain
    · intro hnow hcredential hauthorized' hcurrent'
      refine renewLeases_repeats ⟨hworker ▸ hids.1, hcredential⟩
        (hworker ▸ LeaseRenewal.hash_perm hhash hsession hrequest hperm) hauthorized' ?_ hrecord' ?_
      · rw [hworker, hsession]
        exact hcurrent'
      · rw [hgrants]
        refine decodeLeaseReplay_first (fun a => memberGrant_authority ..) (fun a => ?_) hnodup
          hperm
        exact freshGrant_valid hnow
  · intro r₂ hash₂ hsession hhash₂ hnew₂
    obtain ⟨s₂, grants₂, hsecond⟩ := renewLeases_total now hids hhash₂ hauthorized
      (by rw [hsession]; exact hcurrent) hnew₂
    refine ⟨s₂, grants₂, hsecond, fun g hg g₂ hg₂ hsame => ?_⟩
    obtain ⟨hgrants₂, -⟩ := renewLeases_cases hsecond
    simp only [Store.firstGrant_new hnew₂] at hgrants₂
    rw [hgrants] at hg
    rw [hgrants₂] at hg₂
    obtain ⟨a, -, rfl⟩ := List.mem_map.mp hg
    obtain ⟨b, -, rfl⟩ := List.mem_map.mp hg₂
    rw [memberGrant_authority, memberGrant_authority] at hsame
    rw [hsame]

/-- Session 1 renews attempt 1 and an attempt there is not. -/
def Sample.renewal : LeaseRenewal := ⟨1, 1, [⟨1, 1, 1, 1, 1⟩, ⟨2, 2, 1, 1, 1⟩]⟩

/-- Attempt 1 is renewed and the other one is refused. The answer is lost and
asked for again, in the other order: the refusal is repeated. -/
theorem sample_renewal_repeated : ∃ s₁ grants again,
    renewLeases Sample.assignedWorld.store Sample.seen (2 * second) Sample.identity Sample.renewal
      = .ok (s₁, grants) ∧
    grants.map LeaseGrant.decision = [.accepted, .fenced] ∧
    renewLeases s₁ s₁ (3 * second) Sample.identity
      { Sample.renewal with attempts := Sample.renewal.attempts.reverse } = .ok (s₁, again) ∧
    again.map LeaseGrant.authority = Sample.renewal.attempts.reverse ∧
    ∀ g' ∈ again, ∃ g ∈ grants, g.authority = g'.authority ∧
      (g.decision ≠ .accepted → g'.decision = g.decision) := by
  have hrun : (renewLeases Sample.assignedWorld.store Sample.seen (2 * second) Sample.identity
      Sample.renewal).toOption.any (fun x =>
        decide (x.2.map LeaseGrant.decision = [.accepted, .fenced]) &&
        (authorizeWorkerTx x.1 Sample.identity).toOption.isSome &&
        (requireCurrentWorkerSession x.1 1 1).toOption.isSome) = true := by decide +kernel
  simp only [Option.any_eq_true, Bool.and_eq_true, decide_eq_true_eq, Option.isSome_iff_exists,
    toOption_eq_some] at hrun
  obtain ⟨⟨s₁, grants⟩, hfirst, ⟨hdecisions, _, hauthorized⟩, _, hcurrent⟩ := hrun
  obtain ⟨-, hagain, -⟩ := renewal_replay_batching Sample.assigned_reachable (by decide) hfirst rfl
  obtain ⟨hsame, hanswers⟩ := hagain ⟨s₁, 2 * second⟩ s₁ (3 * second) Sample.identity
    { Sample.renewal with attempts := Sample.renewal.attempts.reverse } .refl rfl rfl rfl
    (List.reverse_perm _)
  obtain ⟨again, hanswer⟩ := hanswers (by decide) rfl hauthorized hcurrent
  obtain ⟨-, hauthorities, hgrants⟩ := hsame s₁ again hanswer
  refine ⟨s₁, grants, again, hfirst, hdecisions, hanswer, hauthorities, fun g' hg' => ?_⟩
  obtain ⟨g, hg, hauthority, -, hrepeats⟩ := hgrants g' hg'
  exact ⟨g, hg, hauthority, hrepeats.refused⟩

end Dispatch
