import Mathlib.Data.Prod.Lex
import Dispatch.Scheduling.Readiness

/-!
# What a heartbeat asks to stop

The stop list is put together from two sides: from the containers the host
reports, which are looked up by the attempt they name and compared as whole
tuples, and from the attempts the store has as active on the host. Either way a
tuple is on the list exactly if it may not run (`Store.Authorizes`).

The order in which the host enumerates its containers shows nowhere: not in the
identity of a report, which sorts them, and not in the list, which is sorted as
well. A report is accepted once; the same report again is answered and leaves no
trace, and another report of the same number is refused.
-/

namespace Dispatch

open Txn

variable {sha : Uuid → ℕ} {now : Time}

/-! ## Tuples that may run -/

/-- **A tuple may run under a session**: it is the current attempt of a job that
is not cancelled, active, of this session, which is not fenced, and its lease has
not run out. -/
def Store.Authorizes (s : Store) (worker session : Uuid) (now : Time)
    (x : AttemptAuthority) : Prop :=
  ∃ a j ss, s.attempts.lookup x.attemptID = some a ∧ a.authority x.attemptID = x ∧
    a.worker = worker ∧ s.jobs.lookup a.job = some j ∧ s.sessions.lookup a.session = some ss ∧
    a.state.isActive = true ∧ j.currentAttempt = some x.attemptID ∧ j.cancelRequested = false ∧
    a.session = session ∧ ss.fencedAt = none ∧ now < a.leaseExpiresAt

/-- An active attempt of the worker. -/
def Store.Runs (s : Store) (worker : Uuid) (x : AttemptAuthority) : Prop :=
  ∃ a, s.attempts.lookup x.attemptID = some a ∧ a.authority x.attemptID = x ∧
    a.worker = worker ∧ a.state.isActive = true

section StopSet

variable {s : Store} {worker session : Uuid} {inventory : List ExecutionRecord}
  {x : AttemptAuthority}

theorem mem_stopSet {attempts : List HeartbeatAttempt} :
    x ∈ stopSet attempts inventory session now ↔
      (x ∈ inventory.map ExecutionRecord.authority ∧
          ¬ ∃ a ∈ attempts, a.authority = x ∧ a.authorized session now = true) ∨
        ∃ a ∈ attempts, a.authority = x ∧ a.state.isActive = true ∧
          a.authorized session now = false := by
  unfold stopSet
  rw [List.mem_insertionSort, List.mem_dedup, List.mem_append, List.mem_map, List.mem_map,
    List.mem_map]
  refine or_congr ⟨?_, ?_⟩ ⟨?_, ?_⟩
  · rintro ⟨r, hr, rfl⟩
    obtain ⟨hr, hnone⟩ := List.mem_filter.mp hr
    refine ⟨⟨r, hr, rfl⟩, fun ⟨a, ha, hsame, hauthorized⟩ => ?_⟩
    rw [Bool.not_eq_true', List.any_eq_false] at hnone
    exact hnone a ha (by rw [hsame, hauthorized]; simp)
  · rintro ⟨⟨r, hr, rfl⟩, hnone⟩
    refine ⟨r, List.mem_filter.mpr ⟨hr, ?_⟩, rfl⟩
    rw [Bool.not_eq_true', List.any_eq_false]
    intro a ha hboth
    rw [Bool.and_eq_true, decide_eq_true_eq] at hboth
    exact hnone ⟨a, ha, hboth.1, hboth.2⟩
  · rintro ⟨a, ha, rfl⟩
    obtain ⟨ha, hlost⟩ := List.mem_filter.mp ha
    rw [Bool.and_eq_true, Bool.not_eq_true'] at hlost
    exact ⟨a, ha, rfl, hlost⟩
  · rintro ⟨a, ha, rfl, hlost⟩
    refine ⟨a, List.mem_filter.mpr ⟨ha, ?_⟩, rfl⟩
    rw [Bool.and_eq_true, Bool.not_eq_true']
    exact hlost

/-- The row of the heartbeat query that authorizes a tuple. -/
theorem authorized_iff (hkeyed : s.toLedger.Keyed) :
    (∃ a ∈ heartbeatAttempts s worker inventory, a.authority = x ∧
      a.authorized session now = true) ↔ s.Authorizes worker session now x := by
  constructor
  · rintro ⟨h, hmem, rfl, hauthorized⟩
    obtain ⟨id, a, j, r, ss, ha, hworker, hj, -, hss, rfl, -⟩ := mem_heartbeatAttempts.mp hmem
    simp only [HeartbeatAttempt.authorized, Bool.and_eq_true, decide_eq_true_eq,
      Bool.not_eq_true', Option.isNone_iff_eq_none] at hauthorized
    obtain ⟨⟨⟨⟨⟨hactive, hcurrent⟩, hsession⟩, hfenced⟩, hlease⟩, huncancelled⟩ := hauthorized
    exact ⟨a, j, ss, ha, rfl, hworker, hj, hss, hactive, hcurrent, huncancelled, hsession, hfenced,
      hlease⟩
  · rintro ⟨a, j, ss, ha, hx, hworker, hj, hss, hactive, hcurrent, huncancelled, hsession, hfenced,
      hlease⟩
    obtain ⟨r, hr, -⟩ := hkeyed.reservation ha
    refine ⟨_, mem_heartbeatAttempts.mpr ⟨x.attemptID, a, j, r, ss, ha, hworker, hj, hr, hss, rfl,
      .inl hactive⟩, hx, ?_⟩
    simp only [HeartbeatAttempt.authorized, Bool.and_eq_true, decide_eq_true_eq,
      Bool.not_eq_true', Option.isNone_iff_eq_none]
    exact ⟨⟨⟨⟨⟨hactive, hcurrent⟩, hsession⟩, hfenced⟩, hlease⟩, huncancelled⟩

/-- The row of an attempt is the only one of its name. -/
theorem heartbeatAttempts_unique {a a' : HeartbeatAttempt}
    (ha : a ∈ heartbeatAttempts s worker inventory)
    (ha' : a' ∈ heartbeatAttempts s worker inventory)
    (hsame : a.authority = a'.authority) : a = a' := by
  obtain ⟨id, row, j, r, ss, hrow, -, hj, hr, hss, rfl, -⟩ := mem_heartbeatAttempts.mp ha
  obtain ⟨id', row', j', r', ss', hrow', -, hj', hr', hss', rfl, -⟩ := mem_heartbeatAttempts.mp ha'
  obtain rfl : id = id' := congrArg AttemptAuthority.attemptID hsame
  obtain rfl := Option.mem_unique hrow hrow'
  obtain rfl := Option.mem_unique hj hj'
  obtain rfl := Option.mem_unique hr hr'
  obtain rfl := Option.mem_unique hss hss'
  rfl

/-- **What is on the list**: the tuples that are reported or active and may not
run. -/
theorem mem_stopSet_iff (hkeyed : s.toLedger.Keyed) :
    x ∈ stopSet (heartbeatAttempts s worker inventory) inventory session now ↔
      (x ∈ inventory.map ExecutionRecord.authority ∨ s.Runs worker x) ∧
        ¬ s.Authorizes worker session now x := by
  rw [mem_stopSet, authorized_iff hkeyed, or_and_right]
  refine or_congr Iff.rfl ⟨?_, ?_⟩
  · rintro ⟨h, hmem, rfl, hactive, hlost⟩
    refine ⟨?_, fun hauthorizes => ?_⟩
    · obtain ⟨id, a, j, r, ss, ha, hworker, -, -, -, rfl, -⟩ := mem_heartbeatAttempts.mp hmem
      exact ⟨a, ha, rfl, hworker, hactive⟩
    · obtain ⟨h', hmem', hsame, hauthorized⟩ := (authorized_iff hkeyed).mpr hauthorizes
      obtain rfl := heartbeatAttempts_unique hmem hmem' hsame.symm
      exact absurd (hlost.symm.trans hauthorized) (by simp)
  · rintro ⟨⟨a, ha, hx, hworker, hactive⟩, hnot⟩
    obtain ⟨j, hj⟩ := Option.ne_none_iff_exists'.mp (hkeyed.job x.attemptID a ha)
    obtain ⟨k, hk, -⟩ := Store.job_of_toLedger hj
    obtain ⟨ss, hss, -⟩ := hkeyed.session x.attemptID a ha
    obtain ⟨r, hr, -⟩ := hkeyed.reservation ha
    have hmem : _ ∈ heartbeatAttempts s worker inventory := mem_heartbeatAttempts.mpr
      ⟨x.attemptID, a, k, r, ss, ha, hworker, hk, hr, hss, rfl, .inl hactive⟩
    refine ⟨_, hmem, hx, hactive, ?_⟩
    rw [← Bool.not_eq_true]
    exact fun hauthorized => hnot ((authorized_iff hkeyed).mp ⟨_, hmem, hx, hauthorized⟩)

end StopSet

/-! ## The order of the containers -/

section Order

/-- What the stop list is sorted by. -/
def AttemptAuthority.rank (a : AttemptAuthority) : ℕ ×ₗ ℕ ×ₗ ℕ ×ₗ ℕ :=
  toLex (a.attemptID, toLex (a.sessionID, toLex (a.generation, a.jobID)))

theorem stopOrder_iff (a b : AttemptAuthority) : stopOrder a b = true ↔ a.rank ≤ b.rank := by
  unfold stopOrder AttemptAuthority.rank
  rw [Prod.Lex.toLex_le_toLex, Prod.Lex.toLex_le_toLex, Prod.Lex.toLex_le_toLex]
  split_ifs with hattempt hsession hgeneration
  · rw [decide_eq_true_eq]
    exact ⟨.inl, fun h => h.resolve_right fun h => hattempt h.1⟩
  · rw [not_not] at hattempt
    rw [decide_eq_true_eq]
    refine ⟨fun h => .inr ⟨hattempt, .inl h⟩, fun h => ?_⟩
    obtain h | ⟨-, h⟩ := h
    · exact absurd hattempt h.ne
    · exact h.resolve_right fun h => hsession h.1
  · rw [not_not] at hattempt hsession
    rw [decide_eq_true_eq]
    refine ⟨fun h => .inr ⟨hattempt, .inr ⟨hsession, .inl h⟩⟩, fun h => ?_⟩
    obtain h | ⟨-, h | ⟨-, h⟩⟩ := h
    · exact absurd hattempt h.ne
    · exact absurd hsession h.ne
    · exact h.resolve_right fun h => hgeneration h.1
  · rw [not_not] at hattempt hsession hgeneration
    rw [decide_eq_true_eq]
    refine ⟨fun h => .inr ⟨hattempt, .inr ⟨hsession, .inr ⟨hgeneration, h⟩⟩⟩, fun h => ?_⟩
    obtain h | ⟨-, h | ⟨-, h | ⟨-, h⟩⟩⟩ := h
    · exact absurd hattempt h.ne
    · exact absurd hsession h.ne
    · exact absurd hgeneration h.ne
    · exact h

/-- Tuples of one worker are told apart by their rank. -/
theorem AttemptAuthority.eq_of_rank {a b : AttemptAuthority} (hworker : a.workerID = b.workerID)
    (h : a.rank = b.rank) : a = b := by
  obtain ⟨hattempt, h⟩ := Prod.mk.inj (toLex.injective h)
  obtain ⟨hsession, h⟩ := Prod.mk.inj (toLex.injective h)
  obtain ⟨hgeneration, hjob⟩ := Prod.mk.inj (toLex.injective h)
  cases a
  cases b
  subst hworker hattempt hsession hgeneration hjob
  rfl

instance : Std.Total (fun a b : AttemptAuthority => stopOrder a b = true) :=
  ⟨fun a b => by
    rw [stopOrder_iff, stopOrder_iff]
    exact le_total _ _⟩

instance : IsTrans AttemptAuthority (fun a b => stopOrder a b = true) :=
  ⟨fun a b c hab hbc => by
    rw [stopOrder_iff] at hab hbc ⊢
    exact hab.trans hbc⟩

variable {s : Store} {worker session : Uuid} {inventory inventory' : List ExecutionRecord}

theorem validInventory_perm (h : inventory'.Perm inventory) :
    validInventory worker inventory' = validInventory worker inventory := by
  unfold validInventory
  rw [h.all_eq]
  refine congrArg (· && _) (decide_eq_decide.mpr ?_)
  exact (h.map ExecutionRecord.containerID).nodup_iff

theorem heartbeatAttempts_perm (h : inventory'.Perm inventory) :
    heartbeatAttempts s worker inventory' = heartbeatAttempts s worker inventory := by
  unfold heartbeatAttempts
  refine List.filterMap_congr fun x _ => ?_
  obtain ⟨id, a⟩ := x
  show (heartbeatAttempt s id a).filter _ = (heartbeatAttempt s id a).filter _
  refine congrArg (fun p => (heartbeatAttempt s id a).filter p) ?_
  funext row
  have hnamed : decide (id ∈ inventory'.map fun r => r.authority.attemptID) =
      decide (id ∈ inventory.map fun r => r.authority.attemptID) :=
    decide_eq_decide.mpr (h.map fun r => r.authority.attemptID).mem_iff
  rw [hnamed]

theorem workerID_of_validInventory (h : validInventory worker inventory = true)
    {x : AttemptAuthority} (hx : x ∈ inventory.map ExecutionRecord.authority) :
    x.workerID = worker := by
  obtain ⟨r, hr, rfl⟩ := List.mem_map.mp hx
  simp only [validInventory, Bool.and_eq_true, List.all_eq_true, decide_eq_true_eq] at h
  exact (h.2 r hr).1.1.1.1.1

/-- **The list does not show the order of the inventory.** -/
theorem stopSet_perm (hvalid : validInventory worker inventory = true)
    (h : inventory'.Perm inventory) :
    stopSet (heartbeatAttempts s worker inventory) inventory' session now =
      stopSet (heartbeatAttempts s worker inventory) inventory session now := by
  refine Table.insertionSort_congr ?_ fun a ha b hb hab hba => ?_
  · exact (((h.filter _).map _).append_right _).dedup
  · -- All tuples name the worker, so that their rank tells them apart.
    have hworker : ∀ {p q}, ∀ x ∈ ((inventory'.filter p).map ExecutionRecord.authority ++
        ((heartbeatAttempts s worker inventory).filter q).map
          HeartbeatAttempt.authority).dedup, x.workerID = worker := by
      intro p q x hx
      rw [List.mem_dedup, List.mem_append] at hx
      obtain hx | hx := hx
      · exact workerID_of_validInventory hvalid
          ((h.map _).mem_iff.mp (List.map_subset _ (List.filter_subset_self _) hx))
      · obtain ⟨row, hrow, rfl⟩ := List.mem_map.mp hx
        obtain ⟨id, a, j, r, ss, -, hplace, -, -, -, rfl, -⟩ :=
          mem_heartbeatAttempts.mp (List.mem_filter.mp hrow).1
        exact hplace
    rw [stopOrder_iff] at hab hba
    exact AttemptAuthority.eq_of_rank ((hworker a ha).trans (hworker b hb).symm)
      (le_antisymm hab hba)

/-- The same report with its containers in another order. -/
def HeartbeatReport.relist (report : HeartbeatReport) (inventory : List ExecutionRecord) :
    HeartbeatReport :=
  { report with claims := { report.claims with inventory := inventory } }

variable {report : HeartbeatReport}

theorem HeartbeatReport.hash_relist (h : inventory.Perm report.claims.inventory) :
    (report.relist inventory).hash worker = report.hash worker := by
  have hsize : inventory.length ≤ 1024 ↔ report.claims.inventory.length ≤ 1024 := by
    rw [h.length_eq]
  unfold HeartbeatReport.hash
  refine congrArg₂ Bind.bind (require_congr ?_) (funext fun _ => ?_)
  · exact and_congr_right' (and_congr_right' (and_congr_right' hsize))
  show require (validInventory worker inventory = true) _ >>= _ = _
  rw [validInventory_perm h]
  by_cases hvalid : validInventory worker report.claims.inventory = true
  · rw [require_of hvalid, ok_bind, ok_bind]
    refine congrArg (fun l => (Except.ok { report.claims with inventory := l } :
      Except StoreError HeartbeatClaims))
      (Table.insertionSort_congr h fun a ha b hb hab hba => ?_)
    simp only [validInventory, Bool.and_eq_true, decide_eq_true_eq] at hvalid
    exact List.inj_on_of_nodup_map hvalid.1 (h.mem_iff.mp ha) (h.mem_iff.mp hb)
      (String.le_antisymm hab hba)
  · unfold require
    rw [if_neg hvalid]
    rfl

/-- **A report is answered the same in any order of its containers.** -/
theorem recordHeartbeat_relist {identity : WorkerIdentity}
    (h : inventory.Perm report.claims.inventory) :
    recordHeartbeat s now identity (report.relist inventory) =
      recordHeartbeat s now identity report := by
  unfold recordHeartbeat
  rw [HeartbeatReport.hash_relist h]
  cases hhash : report.hash identity.workerID with
  | error e =>
    -- Both sides end here; what would follow is never compared.
    refine bind_congr fun _ => ?_
    show Except.error e = Except.error e
    rfl
  | ok hash =>
    have hvalid : validInventory identity.workerID report.claims.inventory = true := by
      simp only [HeartbeatReport.hash, bind_ok, require_ok] at hhash
      obtain ⟨-, -, -, hvalid, -⟩ := hhash
      exact hvalid
    have hattempts : heartbeatAttempts s identity.workerID
        (report.relist inventory).claims.inventory
        = heartbeatAttempts s identity.workerID report.claims.inventory := heartbeatAttempts_perm h
    have hstop : stopSet (heartbeatAttempts s identity.workerID report.claims.inventory)
        (report.relist inventory).claims.inventory (report.relist inventory).claims.sessionID now =
        stopSet (heartbeatAttempts s identity.workerID report.claims.inventory)
          report.claims.inventory report.claims.sessionID now := stopSet_perm hvalid h
    have hunclear : reportUnclear (heartbeatAttempts s identity.workerID report.claims.inventory)
        (report.relist inventory).claims now =
        reportUnclear (heartbeatAttempts s identity.workerID report.claims.inventory)
          report.claims now := by
      unfold reportUnclear
      rw [hstop]
      refine congrArg (fun present : HeartbeatAttempt → Bool => (_ || List.any _ (fun a =>
        decide (a.state = .running) && !present a)) || _) (funext fun a => ?_)
      exact h.any_eq
    have hreleased : ∀ replay, releasedAttempts
        (heartbeatAttempts s identity.workerID report.claims.inventory)
        (report.relist inventory).claims replay now =
        releasedAttempts (heartbeatAttempts s identity.workerID report.claims.inventory)
          report.claims replay now := by
      intro replay
      unfold releasedAttempts
      rw [hunclear]
      rfl
    simp only [hattempts, hstop, hunclear, hreleased]
    rfl

end Order

/-! ## Reports over a run -/

section Reports

variable {session request : Uuid} {sequence : ℕ} {hash : HeartbeatClaims}

/-- **A report has been taken in**: it is the last one of its session, or the
session has gone on. -/
def Ledger.Heard (l : Ledger) (session : Uuid) (sequence : ℕ) (request : Uuid)
    (hash : HeartbeatClaims) : Prop :=
  ∃ ss, l.sessions.lookup session = some ss ∧ (sequence < ss.heartbeatSequence ∨
    ss.heartbeatSequence = sequence ∧ ss.heartbeatRequest = some request ∧
      ss.heartbeatHash = some hash)

theorem Ledger.Heard.step {op : Op} {l l' : Ledger} (h : l.Heard session sequence request hash)
    (hstep : Ledger.Step sha op now l l') : l'.Heard session sequence request hash := by
  obtain ⟨ss, hss, hheard⟩ := h
  cases hstep with
  | admits l' h =>
    refine ⟨ss, ?_, hheard⟩
    rw [show l'.sessions = l.sessions from congrArg (fun x => x.2.2.2.2.1) h.rest]
    exact hss
  | seat worker w claims sessions generation takeovers h =>
    have hother : session ≠ claims.sessionID := fun heq =>
      absurd (h.fresh.symm.trans (heq ▸ hss)) (by simp)
    -- A fence changes nothing of what the session has reported.
    have hkept : ∃ ss', sessions.lookup session = some ss' ∧
        (sequence < ss'.heartbeatSequence ∨ ss'.heartbeatSequence = sequence ∧
          ss'.heartbeatRequest = some request ∧ ss'.heartbeatHash = some hash) := by
      obtain rfl | ⟨rfl, -⟩ := h.fenced
      · rw [Ledger.fenceSessions, Table.lookup_update, hss]
        refine ⟨_, rfl, ?_⟩
        dsimp only
        split_ifs
        · exact hheard
        · exact hheard
      · exact ⟨ss, hss, hheard⟩
    obtain ⟨ss', hss', hheard'⟩ := hkept
    exact ⟨ss', (AList.lookup_insert_ne hother).trans hss', hheard'⟩
  | report identity report hash' w released reconciled hop h =>
    obtain ⟨ss', hss', -, -, hnewer⟩ := h.unfenced
    show ∃ ss, (l.sessions.modify report.claims.sessionID _).lookup session = some ss ∧ _
    rw [Table.lookup_modify]
    by_cases hsession : session = report.claims.sessionID
    · subst hsession
      obtain rfl := Option.mem_unique hss hss'
      rw [if_pos rfl, hss]
      refine ⟨_, rfl, .inl ?_⟩
      obtain hlt | ⟨heq, -⟩ := hheard
      · exact hlt.trans hnewer
      · exact heq ▸ hnewer
    · rw [if_neg hsession, hss]
      exact ⟨ss, rfl, hheard⟩
  | _ => exact ⟨ss, hss, hheard⟩

variable {s s' : Store} {identity : WorkerIdentity} {report : HeartbeatReport}
  {result : HeartbeatResult}

/-- **What an accepted report has passed.** -/
theorem recordHeartbeat_accepted (h : recordHeartbeat s now identity report = .ok (s', result)) :
    ∃ ss hash, s.sessions.lookup report.claims.sessionID = some ss ∧
      report.hash identity.workerID = .ok hash ∧
      ss.heartbeatSequence ≤ report.claims.sequence ∧
      (report.claims.sequence = ss.heartbeatSequence →
        s' = s ∧ ss.heartbeatRequest = some report.requestID ∧ ss.heartbeatHash = some hash) ∧
      result.stop = stopSet (heartbeatAttempts s identity.workerID report.claims.inventory)
        report.claims.inventory report.claims.sessionID now := by
  simp only [recordHeartbeat, bind_ok, orThrow_ok, require_ok] at h
  obtain ⟨-, -, hash, hhash, -, -, w, hw, ss, hss, -, -, -, hle, -, hsame, h⟩ := h
  refine ⟨ss, hash, hss, hhash, hle, fun hreplay => ?_, ?_⟩
  · rw [if_pos (decide_eq_true hreplay)] at h
    obtain ⟨rfl, -⟩ := pure_pair_ok.mp h
    exact ⟨rfl, hsame (decide_eq_true hreplay)⟩
  · split_ifs at h
    · obtain ⟨-, rfl⟩ := pure_pair_ok.mp h
      rfl
    · obtain ⟨-, rfl⟩ := pure_pair_ok.mp h
      rfl

/-- An accepted report is taken in. -/
theorem recordHeartbeat_heard (h : recordHeartbeat s now identity report = .ok (s', result)) :
    ∃ hash, report.hash identity.workerID = .ok hash ∧
      s'.toLedger.Heard report.claims.sessionID report.claims.sequence report.requestID hash := by
  obtain ⟨ss, hash, hss, hhash, -, hreplay, -⟩ := recordHeartbeat_accepted h
  refine ⟨hash, hhash, ?_⟩
  obtain ⟨w, ss', hash', -, hss', -, hhash', ⟨-, hsame⟩ | ⟨-, rfl⟩⟩ := recordHeartbeat_cases h
  · obtain rfl := Option.mem_unique hss hss'
    obtain ⟨rfl, hrequest, hcontent⟩ := hreplay hsame
    exact ⟨ss, hss, .inr ⟨hsame.symm, hrequest, hcontent⟩⟩
  · obtain rfl := Except.ok.inj (hhash.symm.trans hhash')
    have hrow : (s.report now identity.workerID report hash w.drainRequested).sessions.lookup
        report.claims.sessionID = some { ss with
          heartbeatSequence := report.claims.sequence
          heartbeatRequest := some report.requestID
          heartbeatHash := some hash } := by
      show (s.sessions.modify report.claims.sessionID _).lookup report.claims.sessionID = _
      rw [Table.lookup_modify, if_pos rfl, hss]
      rfl
    exact ⟨_, hrow, .inr ⟨rfl, rfl, rfl⟩⟩

/-- Reports of one identity are the same up to the order of their containers. -/
theorem HeartbeatReport.eq_relist_of_hash {report' : HeartbeatReport} {worker : Uuid}
    (h : report.hash worker = .ok hash) (h' : report'.hash worker = .ok hash)
    (hrequest : report'.requestID = report.requestID) :
    ∃ inventory, inventory.Perm report.claims.inventory ∧ report' = report.relist inventory := by
  simp only [HeartbeatReport.hash, bind_ok, require_ok, pure_ok] at h h'
  obtain ⟨-, -, -, -, h⟩ := h
  obtain ⟨-, -, -, -, h'⟩ := h'
  have hsorted := congrArg HeartbeatClaims.inventory (h'.trans h.symm)
  refine ⟨report'.claims.inventory, ?_, ?_⟩
  · exact (List.perm_insertionSort _ _).symm.trans
      ((List.Perm.of_eq hsorted).trans (List.perm_insertionSort _ _))
  · obtain ⟨request, claims⟩ := report
    obtain ⟨request', claims'⟩ := report'
    obtain ⟨hsession, hsequence, hhealthy, hdisk, hreconciled, -⟩ :=
      HeartbeatClaims.mk.inj (h'.trans h.symm)
    cases claims
    cases claims'
    obtain rfl : request' = request := hrequest
    subst hsession hsequence hhealthy hdisk hreconciled
    rfl

/-- **The stop list of a heartbeat is exact**, it does not depend on the order in
which the host enumerates its containers, and a report is taken in once: after it
an older report of the session is refused, and so is one of the same number that
differs in anything but this order; the same one again changes nothing. -/
theorem heartbeat_stops_exact {w : World} (hw : Reachable sha w) (now : Time)
    (identity : WorkerIdentity) (report : HeartbeatReport) :
    (∀ inventory, inventory.Perm report.claims.inventory →
      recordHeartbeat w.store now identity (report.relist inventory) =
        recordHeartbeat w.store now identity report) ∧
    ∀ s' result, recordHeartbeat w.store now identity report = .ok (s', result) →
      result.stop.Nodup ∧
      (∀ x, x ∈ result.stop ↔ (x ∈ report.claims.inventory.map ExecutionRecord.authority ∨
          w.store.Runs identity.workerID x) ∧
        ¬ w.store.Authorizes identity.workerID report.claims.sessionID now x) ∧
      ∀ w', w.clock ≤ now → World.Later sha ⟨s', now⟩ w' →
        ∀ now' identity' report' s'' result',
        report'.claims.sessionID = report.claims.sessionID →
        report'.claims.sequence ≤ report.claims.sequence →
        recordHeartbeat w'.store now' identity' report' = .ok (s'', result') →
        s'' = w'.store ∧ ∃ inventory, inventory.Perm report.claims.inventory ∧
          report' = report.relist inventory := by
  refine ⟨fun inventory hperm => recordHeartbeat_relist hperm, fun s' result h => ?_⟩
  obtain ⟨ss, hash, -, -, -, -, hstop⟩ := recordHeartbeat_accepted h
  refine ⟨?_, fun x => ?_, fun w' hle hlater now' identity' report' s''
    result' hsession hsequence h' => ?_⟩
  · rw [hstop]
    exact (List.perm_insertionSort _ _).nodup_iff.mpr (List.nodup_dedup _)
  · rw [hstop]
    exact mem_stopSet_iff hw.ledger_sound.keyed
  · have hstep : World.Step sha w ⟨s', now⟩ := by
      refine ⟨hle, .heartbeat identity report, .heartbeat result, ?_⟩
      rw [Op.exec, h]
      rfl
    obtain ⟨hash, hhash, hheard⟩ := recordHeartbeat_heard h
    have hworker : identity'.workerID = identity.workerID := by
      obtain ⟨-, -, -, -, -, hcurrent, -⟩ := recordHeartbeat_cases h
      obtain ⟨-, -, -, -, -, hcurrent', -⟩ := recordHeartbeat_cases h'
      obtain ⟨-, ss, -, hss, -, hworker, -⟩ := isCurrentSession_iff.mp hcurrent
      obtain ⟨-, ss', -, hss', -, hworker', -⟩ := isCurrentSession_iff.mp hcurrent'
      obtain ⟨tt, htt, hkept⟩ := (hw.later_ledger (.head hstep hlater)).sessions _ ss hss
      rw [hsession] at hss'
      obtain rfl := Option.mem_unique htt hss'
      exact hworker'.symm.trans (hkept.worker.trans hworker)
    obtain ⟨ss, hss, hheard⟩ := (hw.step hstep).keeps hlater
      (fun l => l.Heard report.claims.sessionID report.claims.sequence report.requestID hash)
      (fun _ _ _ _ _ hl hl' => hl.step hl') hheard
    obtain ⟨ss', hash', hss', hhash', hle', hreplay, -⟩ := recordHeartbeat_accepted h'
    rw [hsession] at hss'
    rw [hworker] at hhash'
    obtain rfl := Option.mem_unique hss hss'
    -- The session has not gone on, or the report would be stale.
    obtain hlt | ⟨hsame, hrequest, hcontent⟩ := hheard
    · omega
    · obtain ⟨rfl, hrequest', hcontent'⟩ := hreplay (by omega)
      obtain rfl := Option.mem_unique hcontent hcontent'
      exact ⟨rfl, HeartbeatReport.eq_relist_of_hash hhash hhash'
        (Option.some.inj (hrequest'.symm.trans hrequest))⟩

/-- Session 1 reports its attempt, which may run, and a container of an attempt
that nobody knows, which may not. -/
theorem sample_stops : ∃ (w : World) (s' : Store) (result : HeartbeatResult),
    Reachable Sample.sha w ∧ w.store.Authorizes 1 1 second ⟨1, 1, 1, 1, 1⟩ ∧
    recordHeartbeat w.store second Sample.identity ⟨2, ⟨1, 2, true, false, true,
      [⟨⟨1, 1, 1, 1, 1⟩, Sample.container, true⟩,
        ⟨⟨9, 9, 1, 1, 1⟩, String.ofList (List.replicate 64 'a'), true⟩]⟩⟩ = .ok (s', result) ∧
    ⟨1, 1, 1, 1, 1⟩ ∉ result.stop ∧ result.stop.Nodup ∧ result.stop = [⟨9, 9, 1, 1, 1⟩] := by
  obtain ⟨w, hw, hp⟩ := Sample.reaches Sample.assigned_reachable [] (fun w =>
    (recordHeartbeat w.store second Sample.identity ⟨2, ⟨1, 2, true, false, true,
      [⟨⟨1, 1, 1, 1, 1⟩, Sample.container, true⟩,
        ⟨⟨9, 9, 1, 1, 1⟩, String.ofList (List.replicate 64 'a'), true⟩]⟩⟩).toOption.any
      (fun x : Store × HeartbeatResult => decide (x.2.stop = [⟨9, 9, 1, 1, 1⟩])))
    (by decide +kernel)
  simp only [Option.any_eq_true, toOption_eq_some, decide_eq_true_eq] at hp
  obtain ⟨⟨s', result⟩, hok, hstop⟩ := hp
  obtain ⟨hnodup, hexact, -⟩ := (heartbeat_stops_exact hw second Sample.identity _).2 s' result hok
  have hauthorized : w.store.Authorizes 1 1 second ⟨1, 1, 1, 1, 1⟩ := by
    by_contra hnot
    have hmem := (hexact ⟨1, 1, 1, 1, 1⟩).mpr ⟨.inl (List.mem_map.mpr ⟨_, List.mem_cons_self, rfl⟩),
      hnot⟩
    rw [hstop] at hmem
    exact absurd hmem (by decide)
  exact ⟨w, s', result, hw, hauthorized, hok, fun hmem => ((hexact _).mp hmem).2 hauthorized,
    hnodup, hstop⟩

end Reports

end Dispatch
