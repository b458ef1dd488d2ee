import Dispatch.Outcome.Board

/-!
# The order of a recovery

Recovery fences the attempts of a session in the order of their jobs'
identifiers, which are random. `Store.renameJobs` gives the jobs other
identifiers and so the fences another order. On the board the renaming goes
through a fence (`Board.fence_rename`), so that the recovery of the renamed
store is the recovery of the store in another order, renamed
(`recoverSession_renamed`). It ends in the same states exactly if no two of the
fences interfere.
-/

namespace Dispatch

open Txn

variable {sha : Uuid → ℕ} {s s' : Store} {now : Time}

/-! ## Other identifiers -/

section

variable (σ : Equiv.Perm Uuid)

/-- An authority over the renamed job. -/
def AttemptAuthority.rename (x : AttemptAuthority) : AttemptAuthority :=
  { x with jobID := σ x.jobID }

/-- The references of a row to other jobs are renamed. -/
def JobRow.rename (j : JobRow) : JobRow :=
  { j with
    parentJob := j.parentJob.map σ
    acceptedManifest := j.acceptedManifest.map (fun m =>
      { m with authority := m.authority.rename σ }) }

/-- An attempt of the renamed job. -/
def AttemptRow.rename (a : AttemptRow) : AttemptRow :=
  { a with
    job := σ a.job
    completionDigest := a.completionDigest.map (fun p =>
      { p with authority := p.authority.rename σ }) }

/-- **The jobs under other identifiers**, in the tables that a recovery reads or
writes. The payload of an event is never read. -/
def Store.renameJobs (s : Store) : Store :=
  { s with
    jobs := s.jobs.rename σ (JobRow.rename σ)
    attempts := s.attempts.rename (Equiv.refl Uuid) (AttemptRow.rename σ)
    events := s.events.rename (σ.prodCongr (Equiv.refl ℕ)) id }

/-- The jobs of a board under other identifiers. -/
def Board.rename (b : Board) : Board where
  jobs id := (b.jobs (σ.symm id)).map (JobRow.rename σ)
  attempts id := (b.attempts id).map (AttemptRow.rename σ)
  reservations := b.reservations
  sweeps := b.sweeps

/-- An attempt of a renamed job. -/
def renamed (x : Uuid × AttemptRow) : Uuid × AttemptRow := (x.1, x.2.rename σ)

theorem Store.board_renameJobs (s : Store) : (s.renameJobs σ).board = s.board.rename σ := by
  apply Board.ext
  · funext id
    exact Table.lookup_rename σ _ s.jobs id
  · funext id
    exact Table.lookup_rename (Equiv.refl Uuid) _ s.attempts id
  · rfl
  · rfl

theorem Store.Unwritten.renameJobs (h : s.Unwritten) : (s.renameJobs σ).Unwritten := by
  intro id j n hj hn
  have hjob : ((s.jobs.lookup (σ.symm id)).map (JobRow.rename σ)) = some j :=
    (Table.lookup_rename σ _ s.jobs id).symm.trans hj
  obtain ⟨k, hk, rfl⟩ := Option.map_eq_some_iff.mp hjob
  show AList.lookup (id, n) (s.events.rename _ _) = none
  rw [Table.lookup_rename]
  show Option.map _ (s.events.lookup (σ.symm id, n)) = none
  rw [h _ k n hk hn]
  rfl

variable {σ} {b : Board} {x y : Uuid × AttemptRow} {j k : JobRow}

theorem renamed_symm (x : Uuid × AttemptRow) : renamed σ (renamed σ.symm x) = x := by
  obtain ⟨id, a⟩ := x
  unfold renamed AttemptRow.rename AttemptAuthority.rename
  simp only [Option.map_map, Function.comp_def, σ.apply_symm_apply, Option.map_id']

theorem Board.turn_rename (job : Uuid) (out : FenceOutcome) (id : Uuid) :
    (b.rename σ).turn (σ job) (j.rename σ) out id (k.rename σ)
      = (b.turn job j out (σ.symm id) k).rename σ := by
  by_cases hid : σ.symm id = job
  · subst hid
    rw [σ.apply_symm_apply, Board.turn_self, Board.turn_self]
    rfl
  · have hid' : id ≠ σ job := fun heq => hid (by rw [heq, σ.symm_apply_apply])
    by_cases hstops : out.jobState = .failed ∧ b.Stops j k
    · have hstops' : out.jobState = .failed ∧ (b.rename σ).Stops (j.rename σ) (k.rename σ) := hstops
      rw [Board.turn_of_stops hid hstops, Board.turn_of_stops hid' hstops']
      rfl
    · have hstops' : ¬ (out.jobState = .failed ∧ (b.rename σ).Stops (j.rename σ) (k.rename σ)) :=
        hstops
      rw [Board.turn_of_not hid hstops, Board.turn_of_not hid' hstops']

/-- **Fences commute with renaming.** -/
theorem Board.fence_rename (b : Board) (x : Uuid × AttemptRow) :
    (b.rename σ).fence sha now (renamed σ x) = (b.fence sha now x).rename σ := by
  cases hj : b.jobs x.2.job with
  | none =>
    have hj' : (b.rename σ).jobs (renamed σ x).2.job = none := by
      show Option.map _ (b.jobs (σ.symm (σ x.2.job))) = none
      rw [σ.symm_apply_apply, hj]
      rfl
    unfold Board.fence
    rw [hj, hj']
  | some j =>
    have hj' : (b.rename σ).jobs (renamed σ x).2.job = some (j.rename σ) := by
      show Option.map _ (b.jobs (σ.symm (σ x.2.job))) = _
      rw [σ.symm_apply_apply, hj]
      rfl
    rw [Board.fence_of hj, Board.fence_of hj']
    apply Board.ext
    · funext id
      show Option.map _ (Option.map _ (b.jobs (σ.symm id)))
        = Option.map _ (Option.map _ (b.jobs (σ.symm id)))
      cases b.jobs (σ.symm id) with
      | none => rfl
      | some k => exact congrArg some (Board.turn_rename x.2.job _ id)
    · funext id
      show Option.map _ (Option.map _ (b.attempts id)) = Option.map _ (Option.map _ (b.attempts id))
      cases b.attempts id with
      | none => rfl
      | some a =>
        rw [Option.map_some, Option.map_some, Option.map_some, Option.map_some]
        show some (if id = x.1 then _ else _)
          = some (AttemptRow.rename σ (if id = x.1 then _ else _))
        by_cases hid : id = x.1
        · rw [if_pos hid, if_pos hid]
          rfl
        · rw [if_neg hid, if_neg hid]
    · rfl
    · rfl

theorem Board.fences_rename (b : Board) (L : List (Uuid × AttemptRow)) :
    (b.rename σ).fences sha now (L.map (renamed σ)) = (b.fences sha now L).rename σ := by
  induction L generalizing b with
  | nil => rfl
  | cons x L ih =>
    show ((b.rename σ).fence sha now (renamed σ x)).fences sha now (L.map (renamed σ)) = _
    rw [Board.fence_rename, ih]
    rfl

theorem Board.Lost.rename (h : b.Lost x j) : (b.rename σ).Lost (renamed σ x) (j.rename σ) where
  job := by
    show Option.map _ (b.jobs (σ.symm (σ x.2.job))) = _
    rw [σ.symm_apply_apply, h.job]
    rfl
  current := h.current
  attempt := by
    show Option.map _ (b.attempts x.1) = _
    rw [h.attempt]
    rfl
  reserved := h.reserved
  valid := h.valid
  runs := h.runs

theorem Board.Loses.rename {L : List (Uuid × AttemptRow)} (h : b.Loses L) :
    (b.rename σ).Loses (L.map (renamed σ)) where
  jobs := by
    have hjobs : (L.map (renamed σ)).map (·.2.job) = (L.map (·.2.job)).map σ := by
      rw [List.map_map, List.map_map]
      rfl
    rw [hjobs]
    exact h.jobs.map σ.injective
  lost x hx := by
    obtain ⟨y, hy, rfl⟩ := List.mem_map.mp hx
    obtain ⟨j, hj⟩ := h.lost y hy
    exact ⟨_, hj.rename⟩

end

/-! ## Recovery -/

/-- The checks of a recovery pass. -/
def Replaceable (s : Store) (now : Time) (worker fromSession toSession : Uuid) : Prop :=
  ∃ w session, s.workers.lookup worker = some w ∧ s.sessions.lookup fromSession = some session ∧
    (w.currentSession = some fromSession ∧ session.worker = worker) ∧
    (¬ takeoverApproved s worker fromSession toSession = true ∧ session.fencedAt = none →
      w.lastHeartbeat.getD session.createdAt + sessionInactivity ≤ now ∧
        ∀ x ∈ workerAttempts s worker, x.2.leaseExpiresAt ≤ now)

/-- A recovery is its checks, its fences and the end of the session. -/
theorem recoverSession_iff {t : Store} {worker fromSession toSession : Uuid} :
    recoverSession sha s now worker fromSession toSession = .ok t ↔
      Replaceable s now worker fromSession toSession ∧ ∃ fenced,
        (workerAttempts s worker).foldlM
          (fun s x => fenceLostAttempt sha s now x.2.job x.1) s = .ok fenced ∧
        fenced.vacate now worker fromSession (takeoverApproved s worker fromSession toSession)
          = t := by
  simp only [recoverSession, bind_ok, orThrow_ok, require_ok]
  constructor
  · rintro ⟨w, hw, session, hsession, -, hseat, h⟩
    split at h
    · simp only [bind_ok, require_ok, pure_ok] at h
      obtain ⟨-, hsilent, -, hleases, fenced, hfenced, rfl⟩ := h
      exact ⟨⟨w, session, hw, hsession, hseat, fun _ => ⟨hsilent, hleases⟩⟩, fenced, hfenced, rfl⟩
    · rename_i hcase
      simp only [bind_ok, pure_ok] at h
      obtain ⟨fenced, hfenced, rfl⟩ := h
      exact ⟨⟨w, session, hw, hsession, hseat, fun hguard => absurd hguard hcase⟩, fenced,
        hfenced, rfl⟩
  · rintro ⟨⟨w, session, hw, hsession, hseat, hguard⟩, fenced, hfenced, rfl⟩
    refine ⟨w, hw, session, hsession, (), hseat, ?_⟩
    split
    · rename_i hcase
      simp only [bind_ok, require_ok, pure_ok]
      exact ⟨(), (hguard hcase).1, (), (hguard hcase).2, fenced, hfenced, rfl⟩
    · simp only [bind_ok, pure_ok]
      exact ⟨fenced, hfenced, rfl⟩

/-- **The attempts of a worker can all be fenced**, in a reachable store. -/
theorem Reachable.loses {w : World} (h : Reachable sha w) (worker : Uuid) :
    w.store.board.Loses (workerAttempts w.store worker) := by
  have hlive : ∀ x ∈ workerAttempts w.store worker, ∃ j, w.store.jobs.lookup x.2.job = some j ∧
      j.currentAttempt = some x.1 := by
    rintro ⟨id, a⟩ hx
    obtain ⟨ha, -, hactive⟩ := mem_workerAttempts.mp hx
    obtain ⟨task, htask, hcurrent⟩ :=
      h.sound.owned.live id a.grant (congrArg (Option.map AttemptRow.grant) ha) hactive
    obtain ⟨j, hj, rfl⟩ := Option.map_eq_some_iff.mp htask
    exact ⟨j, hj, hcurrent⟩
  have hnodup : (workerAttempts w.store worker).Nodup := by
    refine ((List.perm_insertionSort _ _).nodup_iff).mpr ?_
    exact (Table.nodup_select_keys w.store.attempts _).of_map
  constructor
  · refine hnodup.map_on fun x hx y hy heq => ?_
    obtain ⟨j, hj, hcurrent⟩ := hlive x hx
    obtain ⟨k, hk, hcurrent'⟩ := hlive y hy
    rw [heq] at hj
    obtain rfl := Option.mem_unique hj hk
    have hid : x.1 = y.1 := Option.mem_unique hcurrent hcurrent'
    have hrow := (mem_workerAttempts.mp hx).1
    rw [hid, (mem_workerAttempts.mp hy).1] at hrow
    exact Prod.ext hid (Option.some.inj hrow).symm
  · intro x hx
    obtain ⟨j, hj, hcurrent⟩ := hlive x hx
    have howned := reachable_jobOwnership h x.2.job j hj
    obtain ⟨a, ha, -, -, -, -, -, r, ⟨hr, hheld, -⟩, -⟩ := howned.current x.1 hcurrent
    have hset := ((h.ledger_sound.jobs _ _ (Store.toLedger_job hj)).cancelled)
    refine ⟨j, hj, hcurrent, (mem_workerAttempts.mp hx).1, ⟨r, hr, hheld⟩,
      (h.ledger_sound.furnished.documents _ _ (Store.toLedger_job hj)).valid, ?_⟩
    obtain hactive | hcancelling := howned.owned.mpr (by rw [hcurrent]; rfl)
    · refine .inl ⟨hactive, Bool.eq_false_iff.mpr fun hcancelled => ?_⟩
      have hstate : j.state = .cancelling ∨ j.state = .cancelled := hset.mp hcancelled
      rw [hactive] at hstate
      exact absurd hstate (by decide)
    · exact .inr ⟨hcancelling, hset.mpr (.inl hcancelling)⟩

theorem workerAttempts_renameJobs (σ : Equiv.Perm Uuid) (s : Store) (worker : Uuid) :
    (workerAttempts (s.renameJobs σ) worker).Perm ((workerAttempts s worker).map (renamed σ)) := by
  unfold workerAttempts
  refine (List.perm_insertionSort _ _).trans ?_
  show ((s.attempts.rename (Equiv.refl Uuid) (AttemptRow.rename σ)).select _).Perm _
  rw [Table.select_rename]
  exact ((List.perm_insertionSort _ _).symm).map (renamed σ)

/-- **The recovery of the renamed store is a recovery in another order**,
renamed. -/
theorem recoverSession_renamed {w : World} (h : Reachable sha w)
    {worker fromSession toSession : Uuid}
    {t : Store} (hok : recoverSession sha w.store now worker fromSession toSession = .ok t)
    (σ : Equiv.Perm Uuid) : ∃ t' L, L.Perm (workerAttempts w.store worker) ∧
      workerAttempts (w.store.renameJobs σ) worker = L.map (renamed σ) ∧
      recoverSession sha (w.store.renameJobs σ) now worker fromSession toSession = .ok t' ∧
      t'.board = (w.store.board.fences sha now L).rename σ := by
  obtain ⟨⟨row, session, hrow, hsession, hseat, hguard⟩, -⟩ := recoverSession_iff.mp hok
  have hperm := workerAttempts_renameJobs σ w.store worker
  set L' := workerAttempts (w.store.renameJobs σ) worker with hL'
  have hback : (L'.map (renamed σ.symm)).map (renamed σ) = L' := by
    rw [List.map_map, show renamed σ ∘ renamed σ.symm = id from funext renamed_symm, List.map_id]
  have hperm' : (L'.map (renamed σ.symm)).Perm (workerAttempts w.store worker) := by
    have hmap := hperm.map (renamed σ.symm)
    rwa [List.map_map, show renamed σ.symm ∘ renamed σ = id from
      funext (fun x => renamed_symm (σ := σ.symm) x), List.map_id] at hmap
  have hloses : (w.store.renameJobs σ).board.Loses L' := by
    rw [Store.board_renameJobs, ← hback]
    exact ((h.loses worker).perm hperm'.symm).rename
  obtain ⟨fenced, hfenced, hboard⟩ := fences_total sha now
    (h.unwritten.renameJobs σ) hloses
  refine ⟨_, L'.map (renamed σ.symm), hperm', hback.symm, recoverSession_iff.mpr
    ⟨⟨row, session, hrow, hsession, hseat, fun hcase => ⟨(hguard hcase).1, fun x hx => ?_⟩⟩,
      fenced, hfenced, rfl⟩, ?_⟩
  · obtain ⟨y, hy, rfl⟩ := List.mem_map.mp (hperm.mem_iff.mp hx)
    exact (hguard hcase).2 y hy
  · show fenced.board = _
    rw [hboard, Store.board_renameJobs, ← Board.fences_rename, hback]

/-! ## The order -/

theorem workerAttempts_sorted (s : Store) (worker : Uuid) :
    (workerAttempts s worker).Pairwise (fun x y => x.2.job ≤ y.2.job) := by
  set r : Uuid × AttemptRow → Uuid × AttemptRow → Prop :=
    fun x y => x.2.job < y.2.job ∨ x.2.job = y.2.job ∧ x.1 ≤ y.1 with hr
  have htotal : Std.Total r := ⟨fun x y => by
    obtain hlt | heq | hgt := lt_trichotomy x.2.job y.2.job
    · exact .inl (.inl hlt)
    · exact (le_total x.1 y.1).imp (fun h => .inr ⟨heq, h⟩) (fun h => .inr ⟨heq.symm, h⟩)
    · exact .inr (.inl hgt)⟩
  have htrans : IsTrans (Uuid × AttemptRow) r := ⟨fun x y z hxy hyz => by
    obtain hlt | ⟨heq, hle⟩ := hxy
    · obtain hlt' | ⟨heq', -⟩ := hyz
      · exact .inl (hlt.trans hlt')
      · exact .inl (heq' ▸ hlt)
    · obtain hlt' | ⟨heq', hle'⟩ := hyz
      · exact .inl (heq ▸ hlt')
      · exact .inr ⟨heq.trans heq', hle.trans hle'⟩⟩
  refine (List.pairwise_insertionSort r _).imp fun hxy => ?_
  obtain hlt | ⟨heq, -⟩ := hxy
  · exact hlt.le
  · exact heq.le

/-- What nothing comes before comes first. -/
theorem eq_cons_of_first {α : Type} {r : α → α → Prop} {L : List α} {x : α} (hsorted : L.Pairwise r)
    (hx : x ∈ L) (hfirst : ∀ y ∈ L, r y x → y = x) : ∃ rest, L = x :: rest := by
  cases L with
  | nil => exact absurd hx List.not_mem_nil
  | cons y rest =>
    obtain rfl | hx' := List.mem_cons.mp hx
    · exact ⟨rest, rfl⟩
    · obtain rfl := hfirst y List.mem_cons_self ((List.pairwise_cons.mp hsorted).1 x hx')
      exact ⟨rest, rfl⟩

theorem eq_append_of_last {α : Type} {r : α → α → Prop} {L : List α} {x : α}
    (hsorted : L.Pairwise r)
    (hx : x ∈ L) (hlast : ∀ y ∈ L, r x y → y = x) : ∃ rest, L = rest ++ [x] := by
  obtain ⟨rest, hrest⟩ := eq_cons_of_first (List.pairwise_reverse.mpr hsorted)
    (List.mem_reverse.mpr hx) fun y hy => hlast y (List.mem_reverse.mp hy)
  refine ⟨rest.reverse, ?_⟩
  rw [← List.reverse_cons, ← hrest, List.reverse_reverse]

/-- **The states of the jobs, attempts and reservations agree**, the jobs going
by other identifiers. -/
structure Store.SameStates (σ : Equiv.Perm Uuid) (s s' : Store) : Prop where
  jobs : ∀ id, s'.board.jobState (σ id) = s.board.jobState id
  attempts : ∀ id, s'.board.attemptState id = s.board.attemptState id
  reservations : ∀ id, (s'.reservations.lookup id).map (·.state)
    = (s.reservations.lookup id).map (·.state)

theorem Board.jobState_rename (σ : Equiv.Perm Uuid) (b : Board) (id : Uuid) :
    (b.rename σ).jobState (σ id) = b.jobState id := by
  show Option.map _ (Option.map _ (b.jobs (σ.symm (σ id)))) = Option.map _ (b.jobs id)
  rw [σ.symm_apply_apply, Option.map_map]
  rfl

theorem Board.attemptState_rename (σ : Equiv.Perm Uuid) (b : Board) (id : Uuid) :
    (b.rename σ).attemptState id = b.attemptState id := by
  show Option.map _ (Option.map _ (b.attempts id)) = Option.map _ (b.attempts id)
  rw [Option.map_map]
  rfl

theorem Store.SameStates.of_board {σ : Equiv.Perm Uuid} (h : s'.board = s.board.rename σ) :
    s.SameStates σ s' where
  jobs id := by rw [h, Board.jobState_rename]
  attempts id := by rw [h, Board.attemptState_rename]
  reservations id := congrArg (Option.map (·.state)) (congrFun (congrArg Board.reservations h) id)

/-- What all jobs and `m` have in common, they have in common after a job has
changed places with `m`. -/
theorem swap_of_forall {P : Uuid → Prop} {L : List (Uuid × AttemptRow)} {x y : Uuid × AttemptRow}
    {m : Uuid} (hm : P m) (hL : ∀ y ∈ L, P y.2.job) (hx : x ∈ L) (hy : y ∈ L) :
    P (Equiv.swap x.2.job m y.2.job) := by
  rw [Equiv.swap_apply_def]
  split_ifs
  · exact hm
  · exact hL x hx
  · exact hL y hy

theorem exists_bound (L : List (Uuid × AttemptRow)) : ∃ m, ∀ y ∈ L, y.2.job ≤ m := by
  induction L with
  | nil => exact ⟨0, fun y hy => absurd hy List.not_mem_nil⟩
  | cons x L ih =>
    obtain ⟨m, hm⟩ := ih
    refine ⟨max x.2.job m, fun y hy => ?_⟩
    obtain rfl | hy' := List.mem_cons.mp hy
    · exact le_max_left _ _
    · exact (hm y hy').trans (le_max_right _ _)

section

variable {w : World} {worker fromSession toSession : Uuid} {t : Store} {x : Uuid × AttemptRow}

/-- Any attempt is fenced first after some renaming. -/
theorem recoverSession_first (h : Reachable sha w)
    (hok : recoverSession sha w.store now worker fromSession toSession = .ok t)
    (hx : x ∈ workerAttempts w.store worker) : ∃ σ t' rest,
      (x :: rest).Perm (workerAttempts w.store worker) ∧
      recoverSession sha (w.store.renameJobs σ) now worker fromSession toSession = .ok t' ∧
      t'.board = (w.store.board.fences sha now (x :: rest)).rename σ := by
  obtain ⟨t', L, hperm, hL, hok', hboard⟩ := recoverSession_renamed h hok (Equiv.swap x.2.job 0)
  have hsorted := workerAttempts_sorted (w.store.renameJobs (Equiv.swap x.2.job 0)) worker
  rw [hL, List.pairwise_map] at hsorted
  obtain ⟨rest, rfl⟩ := eq_cons_of_first hsorted (hperm.mem_iff.mpr hx) fun y hy hle => by
    have hzero : Equiv.swap x.2.job 0 y.2.job = Equiv.swap x.2.job 0 x.2.job := by
      rw [Equiv.swap_apply_left]
      refine Nat.le_zero.mp (hle.trans ?_)
      show Equiv.swap x.2.job 0 x.2.job ≤ 0
      rw [Equiv.swap_apply_left]
    exact List.inj_on_of_nodup_map (h.loses worker).jobs (hperm.mem_iff.mp hy) hx
      ((Equiv.swap x.2.job 0).injective hzero)
  exact ⟨_, t', rest, hperm, hok', hboard⟩

/-- Any attempt is fenced last after some renaming. -/
theorem recoverSession_last (h : Reachable sha w)
    (hok : recoverSession sha w.store now worker fromSession toSession = .ok t)
    (hx : x ∈ workerAttempts w.store worker) : ∃ σ t' rest,
      (rest ++ [x]).Perm (workerAttempts w.store worker) ∧
      recoverSession sha (w.store.renameJobs σ) now worker fromSession toSession = .ok t' ∧
      t'.board = (w.store.board.fences sha now (rest ++ [x])).rename σ := by
  obtain ⟨m, hgreatest⟩ := exists_bound (workerAttempts w.store worker)
  obtain ⟨t', L, hperm, hL, hok', hboard⟩ := recoverSession_renamed h hok (Equiv.swap x.2.job m)
  have hsorted := workerAttempts_sorted (w.store.renameJobs (Equiv.swap x.2.job m)) worker
  rw [hL, List.pairwise_map] at hsorted
  obtain ⟨rest, rfl⟩ := eq_append_of_last hsorted (hperm.mem_iff.mpr hx) fun y hy hle => by
    have hsame : Equiv.swap x.2.job m y.2.job = Equiv.swap x.2.job m x.2.job := by
      refine le_antisymm ?_ hle
      rw [Equiv.swap_apply_left]
      exact swap_of_forall (P := (· ≤ m)) le_rfl hgreatest hx (hperm.mem_iff.mp hy)
    exact List.inj_on_of_nodup_map (h.loses worker).jobs (hperm.mem_iff.mp hy) hx
      ((Equiv.swap x.2.job m).injective hsame)
  exact ⟨_, t', rest, hperm, hok', hboard⟩

end

/-- **When the order of a recovery does not matter.** The recovery of a session,
after any renaming of the jobs, ends in the same states of jobs, attempts and
reservations if and only if no two of the attempts it fences interfere: none
fails its job for good in a fail-fast sweep in which another one is either
retried or stopped while it runs. -/
theorem recovery_order_free {w : World} (h : Reachable sha w) {worker fromSession toSession : Uuid}
    {t : Store} (hok : recoverSession sha w.store now worker fromSession toSession = .ok t) :
    (∀ σ : Equiv.Perm Uuid, ∃ t',
      recoverSession sha (w.store.renameJobs σ) now worker fromSession toSession = .ok t' ∧
        t.SameStates σ t') ↔
      w.store.board.Calm sha now (workerAttempts w.store worker) := by
  constructor
  · intro hfree x hx y hy hinterferes
    obtain ⟨σ, t₁, first, hfirst, hok₁, hboard₁⟩ := recoverSession_first h hok hy
    obtain ⟨ρ, t₂, last, hlast, hok₂, hboard₂⟩ := recoverSession_last h hok hy
    obtain ⟨_, hok₁', hsame₁⟩ := hfree σ
    obtain rfl := Except.ok.inj (hok₁.symm.trans hok₁')
    obtain ⟨_, hok₂', hsame₂⟩ := hfree ρ
    obtain rfl := Except.ok.inj (hok₂.symm.trans hok₂')
    have hx' : x ∈ first := by
      obtain rfl | hx' := List.mem_cons.mp (hfirst.mem_iff.mpr hx)
      · exact absurd rfl hinterferes.1
      · exact hx'
    obtain hjob | hattempt := hinterferes.order_matters ((h.loses worker).perm hfirst.symm)
      (hlast.trans hfirst.symm) hx'
    · refine hjob ?_
      have hjob₁ := hsame₁.jobs y.2.job
      have hjob₂ := hsame₂.jobs y.2.job
      rw [hboard₁, Board.jobState_rename] at hjob₁
      rw [hboard₂, Board.jobState_rename] at hjob₂
      rw [hjob₁, hjob₂]
    · refine hattempt ?_
      have hattempt₁ := hsame₁.attempts y.1
      have hattempt₂ := hsame₂.attempts y.1
      rw [hboard₁, Board.attemptState_rename] at hattempt₁
      rw [hboard₂, Board.attemptState_rename] at hattempt₂
      rw [hattempt₁, hattempt₂]
  · intro hcalm σ
    obtain ⟨t', L, hperm, -, hok', hboard⟩ := recoverSession_renamed h hok σ
    refine ⟨t', hok', .of_board ?_⟩
    obtain ⟨-, fenced, hfenced, rfl⟩ := recoverSession_iff.mp hok
    obtain ⟨u, hu, hboard'⟩ := fences_total sha now h.unwritten (h.loses worker)
    obtain rfl := Except.ok.inj (hfenced.symm.trans hu)
    show t'.board = fenced.board.rename σ
    rw [hboard, hboard', (h.loses worker).fences_perm hperm.symm hcalm]

/-- The session of two attempts is replaced. Both jobs are tried again, so the
order in which they are fenced does not show. -/
theorem sample_recovery_order : ∃ (w : World) (t : Store), Reachable Sample.sha w ∧
    (workerAttempts w.store 1).length = 2 ∧
    recoverSession Sample.sha w.store (60 * second) 1 1 2 = .ok t ∧
      ∀ σ : Equiv.Perm Uuid, ∃ t', recoverSession Sample.sha (w.store.renameJobs σ) (60 * second)
        1 1 2 = .ok t' ∧ t.SameStates σ t' := by
  obtain ⟨w, hw, hp⟩ := Sample.reaches Sample.assigned_reachable
    [(second, .submitJob 2 "l" (String.ofList (List.replicate 64 '0')) Sample.job []),
      (second, .acquire second second Sample.identity ⟨1, 2⟩ ⟨false⟩ 2)] (fun w : World =>
    decide ((workerAttempts w.store 1).length = 2) &&
    (recoverSession Sample.sha w.store (60 * second) 1 1 2).toOption.isSome &&
    (workerAttempts w.store 1).all (fun x => (w.store.jobs.lookup x.2.job).any (fun j : JobRow =>
      decide ((fenceOutcome Sample.sha j x.2 x.1 (60 * second)).jobState ≠ .failed))))
    (by decide +kernel)
  simp only [Bool.and_eq_true, decide_eq_true_eq, Option.isSome_iff_exists, toOption_eq_some,
    List.all_eq_true, Option.any_eq_true] at hp
  obtain ⟨⟨htwo, t, ht⟩, hretried⟩ := hp
  refine ⟨w, t, hw, htwo, ht, (recovery_order_free hw ht).mpr fun x hx y hy h => ?_⟩
  obtain ⟨-, j, k, z, row, hj, hk, hfailed, -⟩ := h
  obtain ⟨j', hj', hwaits⟩ := hretried x hx
  obtain rfl := Option.mem_unique hj hj'
  exact hwaits hfailed

namespace Sample

/-- Session 2 has the second attempt of job 1 and the first of job 2. -/
def retried : List (Time × Op) :=
  seated 1 second ++
    [(second, .submitSweep 1 (· + 1) "k" (String.ofList (List.replicate 64 '0')) (sweep false) []),
      (second, .acquire second second identity ⟨1, 1⟩ ⟨false⟩ 1)] ++ returns ++
    [(50 * second, .acquire (50 * second) (50 * second) identity ⟨2, 3⟩ ⟨false⟩ 2),
      (50 * second, .acquire (50 * second) (50 * second) identity ⟨2, 4⟩ ⟨false⟩ 3)]

end Sample

/-- A session is lost with the last attempt of one child and the first of
another. Fenced in this order the second child waits for its retry, and in the
other order it is cancelled. -/
theorem recovery_order_shows : ¬ ∀ (w : World) (now : Time) (worker fromSession toSession : Uuid)
    (t : Store), Reachable Sample.sha w →
    recoverSession Sample.sha w.store now worker fromSession toSession = .ok t →
    ∀ σ : Equiv.Perm Uuid, ∃ t', recoverSession Sample.sha (w.store.renameJobs σ) now worker
      fromSession toSession = .ok t' ∧ t.SameStates σ t' := by
  intro hclaim
  obtain ⟨w, hw, hp⟩ := Sample.reaches Sample.world_reachable Sample.retried (fun w : World =>
    (recoverSession Sample.sha w.store (100 * second) 1 2 3).toOption.any (fun t : Store =>
      (t.jobs.lookup 2).any (fun j : JobRow => decide (j.state = .retryWait))) &&
    (recoverSession Sample.sha (w.store.renameJobs (Equiv.swap 1 2)) (100 * second) 1 2
      3).toOption.any (fun t : Store =>
        (t.jobs.lookup 1).any (fun j : JobRow => decide (j.state = .cancelled))))
          (by decide +kernel)
  simp only [Bool.and_eq_true, Option.any_eq_true, decide_eq_true_eq] at hp
  obtain ⟨⟨t, ht, j, hj, hwaits⟩, t', ht', k, hk, hcancelled⟩ := hp
  obtain ⟨u, hu, hsame⟩ := hclaim w _ _ _ _ t hw (toOption_eq_some.mp ht) (Equiv.swap 1 2)
  obtain rfl := Except.ok.inj ((toOption_eq_some.mp ht').symm.trans hu)
  have hstate := hsame.jobs 2
  rw [Equiv.swap_apply_right] at hstate
  have hsame' : (t'.jobs.lookup 1).map JobRow.state = (t.jobs.lookup 2).map JobRow.state := hstate
  rw [hj, hk, Option.map_some, Option.map_some, hwaits, hcancelled] at hsame'
  exact absurd hsame' (by decide)

end Dispatch
