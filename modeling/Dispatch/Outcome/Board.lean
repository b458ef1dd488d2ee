import Dispatch.Outcome.Fence

/-!
# The board of a recovery

A session that is replaced leaves its attempts behind, and recovery fences them
one after the other. What matters for the order in which it does so is a small
part of the store, and of that part only what a lookup reads: the jobs, the
attempts, the reservations and the sweeps, each as a function of its key. On
this **board** a fence is a total function (`Board.fence`), and a recovery is a
fold of it (`Board.fences`).

Two fences commute unless one of them **interferes** with the other: the first
fails its job for good in a fail-fast sweep, and the second is of a sibling that
either would be retried, and waits for that failure to cancel it, or is stopped
while it runs. Without interference the board after a recovery does not depend
on the order (`Board.Loses.fences_perm`).
-/

namespace Dispatch

open Txn

variable {id job : Uuid} {L : List (Uuid × AttemptRow)} {out : FenceOutcome}

variable {sha : Uuid → ℕ} {s s' : Store} {now : Time}

/-- **The rows a fence reads or writes**, as functions of their keys. -/
@[ext] structure Board where
  jobs : Uuid → Option JobRow
  attempts : Uuid → Option AttemptRow
  reservations : Uuid → Option ReservationRow
  sweeps : Uuid → Option SweepRow

/-- The board of a store. -/
def Store.board (s : Store) : Board where
  jobs id := s.jobs.lookup id
  attempts id := s.attempts.lookup id
  reservations id := s.reservations.lookup id
  sweeps id := s.sweeps.lookup id

/-- The failure of `j` stops `k`. -/
def Board.Stops (b : Board) (j k : JobRow) : Prop :=
  ∃ x row, j.sweep = some x ∧ b.sweeps x.1 = some row ∧ row.failFast = true ∧
    k.sweep.map Prod.fst = some x.1 ∧
    (k.state.isQueued = true ∨ k.state = .active ∧ row.cancelRunningOnFailure = true)

open scoped Classical in
/-- What a fence with the outcome `out` of the job `job`, whose row is `j`, makes
of a job. -/
noncomputable def Board.turn (b : Board) (job : Uuid) (j : JobRow) (out : FenceOutcome) (id : Uuid)
    (k : JobRow) : JobRow :=
  if id = job then { k.fence out with eventSequence := k.eventSequence + 1 }
  else if out.jobState = .failed ∧ b.Stops j k then k.stop
  else k

/-- **A fence on the board.** -/
noncomputable def Board.fence (sha : Uuid → ℕ) (now : Time) (b : Board) (x : Uuid × AttemptRow) :
    Board :=
  match b.jobs x.2.job with
  | none => b
  | some j =>
    let out := fenceOutcome sha j x.2 x.1 now
    { b with
      jobs := fun id => (b.jobs id).map (b.turn x.2.job j out id)
      attempts := fun id => (b.attempts id).map (fun a => if id = x.1 then a.fence out now else a)
      reservations := fun id => (b.reservations id).map (fun r =>
        if id = x.1 then { r with state := .quarantined } else r) }

section

variable {b : Board} {x y : Uuid × AttemptRow} {j k : JobRow}

theorem Board.fence_of (hj : b.jobs x.2.job = some j) :
    b.fence sha now x = { b with
      jobs := fun id => (b.jobs id).map (b.turn x.2.job j (fenceOutcome sha j x.2 x.1 now) id)
      attempts := fun id => (b.attempts id).map (fun a =>
        if id = x.1 then a.fence (fenceOutcome sha j x.2 x.1 now) now else a)
      reservations := fun id => (b.reservations id).map (fun r =>
        if id = x.1 then { r with state := .quarantined } else r) } := by
  unfold Board.fence
  rw [hj]

@[simp] theorem Board.fence_sweeps (b : Board) (x : Uuid × AttemptRow) :
    (b.fence sha now x).sweeps = b.sweeps := by
  unfold Board.fence
  split <;> rfl

theorem Board.Stops.congr {b' : Board} {j' k' : JobRow} (h : b.Stops j k)
    (hsweeps : b'.sweeps = b.sweeps) (hj : j'.sweep = j.sweep) (hk : k'.sweep = k.sweep)
    (hstate : k'.state = k.state) : b'.Stops j' k' := by
  obtain ⟨x, row, hx, hrow, hfast, hmember, hstops⟩ := h
  exact ⟨x, row, hj.trans hx, by rw [hsweeps]; exact hrow, hfast, by rw [hk]; exact hmember,
    by rw [hstate]; exact hstops⟩

/-- A job that has ended, or has been stopped, is not stopped. -/
theorem Board.not_stops (hqueued : k.state.isQueued = false) (hactive : k.state ≠ .active) :
    ¬ b.Stops j k := by
  rintro ⟨x, row, -, -, -, -, hwaits | ⟨hruns, -⟩⟩
  · exact Bool.noConfusion (hqueued.symm.trans hwaits)
  · exact hactive hruns

theorem Board.not_stops_stop (b : Board) (j k : JobRow) : ¬ b.Stops j k.stop := by
  refine Board.not_stops ?_ ?_
  all_goals
    unfold JobRow.stop
    split_ifs <;> simp [JobState.isQueued]

/-! ## Attempts left behind -/

/-- **An attempt that was left behind** by its session, and its job. -/
structure Board.Lost (b : Board) (x : Uuid × AttemptRow) (j : JobRow) : Prop where
  job : b.jobs x.2.job = some j
  current : j.currentAttempt = some x.1
  attempt : b.attempts x.1 = some x.2
  reserved : ∃ r, b.reservations x.1 = some r ∧ r.state = .active
  valid : j.spec.isValid = true
  runs : j.state = .active ∧ j.cancelRequested = false ∨
    j.state = .cancelling ∧ j.cancelRequested = true

theorem Board.Lost.ne (hx : b.Lost x j) (hy : b.Lost y k) (hne : x.2.job ≠ y.2.job) : x.1 ≠ y.1 :=
  fun heq => hne (by
    have hrow := hx.attempt
    rw [heq, hy.attempt] at hrow
    rw [Option.some.inj hrow])

/-- What runs is stopped while it runs. -/
theorem Board.Lost.stops (hy : b.Lost y k) (h : b.Stops j k) :
    k.state = .active ∧ k.cancelRequested = false := by
  obtain hruns | ⟨hstate, -⟩ := hy.runs
  · exact hruns
  · exact absurd h (Board.not_stops (by rw [hstate]; rfl) (by rw [hstate]; nofun))

/-- Another fence leaves a lost attempt lost, and may stop its job. -/
theorem Board.Lost.fence (hx : b.Lost x j) (hy : b.Lost y k) (hne : x.2.job ≠ y.2.job) :
    (b.fence sha now x).Lost y
      (b.turn x.2.job j (fenceOutcome sha j x.2 x.1 now) y.2.job k) := by
  have hid := hx.ne hy hne
  rw [Board.fence_of hx.job]
  obtain ⟨r, hr, hheld⟩ := hy.reserved
  have hjob : ∀ k', b.turn x.2.job j (fenceOutcome sha j x.2 x.1 now) y.2.job k = k' →
      k'.currentAttempt = k.currentAttempt ∧ k'.spec = k.spec ∧
        (k'.state = .active ∧ k'.cancelRequested = false ∨
          k'.state = .cancelling ∧ k'.cancelRequested = true) := by
    rintro _ rfl
    unfold Board.turn
    rw [if_neg (Ne.symm hne)]
    split_ifs with hstops
    · refine ⟨rfl, rfl, .inr ⟨?_, rfl⟩⟩
      unfold JobRow.stop
      rw [if_pos (hy.stops hstops.2).1]
    · exact ⟨rfl, rfl, hy.runs⟩
  obtain ⟨hcurrent, hspec, hruns⟩ := hjob _ rfl
  constructor
  · show Option.map _ (b.jobs y.2.job) = _
    rw [hy.job]
    rfl
  · rw [hcurrent, hy.current]
  · show Option.map _ (b.attempts y.1) = _
    rw [hy.attempt, Option.map_some, if_neg (Ne.symm hid)]
  · refine ⟨r, ?_, hheld⟩
    show Option.map _ (b.reservations y.1) = _
    rw [hr, Option.map_some, if_neg (Ne.symm hid)]
  · rw [hspec]
    exact hy.valid
  · exact hruns

/-! ## Interference -/

/-- **The fence of `x` interferes with the fence of `y`.** -/
def Board.Interferes (sha : Uuid → ℕ) (now : Time) (b : Board) (x y : Uuid × AttemptRow) : Prop :=
  x.2.job ≠ y.2.job ∧ ∃ j k z row, b.jobs x.2.job = some j ∧ b.jobs y.2.job = some k ∧
    (fenceOutcome sha j x.2 x.1 now).jobState = .failed ∧
    j.sweep = some z ∧ b.sweeps z.1 = some row ∧ row.failFast = true ∧
    k.sweep.map Prod.fst = some z.1 ∧ k.cancelRequested = false ∧
    ((fenceOutcome sha k y.2 y.1 now).jobState = .retryWait ∨ row.cancelRunningOnFailure = true)

/-- Without interference a failure does not stop what is still to be fenced. -/
theorem Board.Lost.spared (hx : b.Lost x j) (hy : b.Lost y k) (hne : x.2.job ≠ y.2.job)
    (hnot : ¬ b.Interferes sha now x y) :
    ¬ ((fenceOutcome sha j x.2 x.1 now).jobState = .failed ∧ b.Stops j k) := by
  rintro ⟨hfailed, hstops⟩
  obtain ⟨hactive, huncancelled⟩ := hy.stops hstops
  obtain ⟨z, row, hz, hrow, hfast, hmember, hwaits | ⟨-, hcancels⟩⟩ := hstops
  · rw [hactive] at hwaits
    exact Bool.noConfusion hwaits
  · exact hnot ⟨hne, j, k, z, row, hx.job, hy.job, hfailed, hz, hrow, hfast, hmember, huncancelled,
      .inr hcancels⟩

/-- What a fence makes of its job. -/
theorem fenceOutcome_jobState (sha : Uuid → ℕ) (j : JobRow) (a : AttemptRow) (attempt : Uuid)
    (now : Time) :
    (fenceOutcome sha j a attempt now).jobState = .cancelled ∧ j.cancelRequested = true ∨
      ((fenceOutcome sha j a attempt now).jobState = .failed ∨
        (fenceOutcome sha j a attempt now).jobState = .retryWait) ∧ j.cancelRequested = false := by
  unfold fenceOutcome
  cases hset : j.cancelRequested with
  | true => exact .inl ⟨rfl, rfl⟩
  | false =>
    refine .inr ⟨?_, rfl⟩
    rw [if_neg Bool.false_ne_true]
    split
    · exact .inl rfl
    · split_ifs
      · exact .inr rfl
      · exact .inl rfl

/-- Without interference a failure does not stop what was fenced before. -/
theorem Board.Lost.spared_after (hx : b.Lost x j) (hy : b.Lost y k) (hne : y.2.job ≠ x.2.job)
    (hnot : ¬ b.Interferes sha now y x) {k' : JobRow} (hsweep : k'.sweep = j.sweep)
    (hstate : k'.state = (fenceOutcome sha j x.2 x.1 now).jobState) :
    ¬ ((fenceOutcome sha k y.2 y.1 now).jobState = .failed ∧ b.Stops k k') := by
  rintro ⟨hfailed, hstops⟩
  obtain ⟨hended, -⟩ | ⟨hended | hwaits, huncancelled⟩ :=
    fenceOutcome_jobState sha j x.2 x.1 now
  · exact Board.not_stops (by rw [hstate, hended]; rfl) (by rw [hstate, hended]; nofun) hstops
  · exact Board.not_stops (by rw [hstate, hended]; rfl) (by rw [hstate, hended]; nofun) hstops
  · obtain ⟨z, row, hz, hrow, hfast, hmember, -⟩ := hstops
    rw [hsweep] at hmember
    exact hnot ⟨hne, k, j, z, row, hy.job, hx.job, hfailed, hz, hrow, hfast, hmember, huncancelled,
      .inl hwaits⟩

/-! ## Fences commute -/

theorem Board.turn_self (b : Board) (job : Uuid) (j : JobRow) (out : FenceOutcome) (k : JobRow) :
    b.turn job j out job k = { k.fence out with eventSequence := k.eventSequence + 1 } := by
  unfold Board.turn
  rw [if_pos rfl]

theorem Board.turn_of_not (hid : id ≠ job) (hnot : ¬ (out.jobState = .failed ∧ b.Stops j k)) :
    b.turn job j out id k = k := by
  unfold Board.turn
  rw [if_neg hid, if_neg hnot]

theorem Board.turn_of_stops (hid : id ≠ job) (hstops : out.jobState = .failed ∧ b.Stops j k) :
    b.turn job j out id k = k.stop := by
  unfold Board.turn
  rw [if_neg hid, if_pos hstops]

theorem Board.turn_congr {b' : Board} (hsweeps : b'.sweeps = b.sweeps) : b'.turn = b.turn := by
  funext job j out id k
  have hstops : b'.Stops j k = b.Stops j k :=
    propext ⟨fun h => h.congr hsweeps.symm rfl rfl rfl, fun h => h.congr hsweeps rfl rfl rfl⟩
  unfold Board.turn
  rw [hstops]

/-- The siblings of two failures are stopped once. -/
theorem Board.turn_turn {job' : Uuid} {j j' k : JobRow} {out' : FenceOutcome} (hid : id ≠ job)
    (hid' : id ≠ job') :
    b.turn job' j' out' id (b.turn job j out id k) = b.turn job j out id (b.turn job' j' out' id k)
    := by
  by_cases hstops : out.jobState = .failed ∧ b.Stops j k <;>
    by_cases hstops' : out'.jobState = .failed ∧ b.Stops j' k
  · rw [Board.turn_of_stops hid hstops, Board.turn_of_stops hid' hstops',
      Board.turn_of_not hid' fun h => b.not_stops_stop j' k h.2,
      Board.turn_of_not hid fun h => b.not_stops_stop j k h.2]
  · rw [Board.turn_of_not hid' hstops', Board.turn_of_stops hid hstops,
      Board.turn_of_not hid' fun h => b.not_stops_stop j' k h.2]
  · rw [Board.turn_of_not hid hstops, Board.turn_of_stops hid' hstops',
      Board.turn_of_not hid fun h => b.not_stops_stop j k h.2]
  · rw [Board.turn_of_not hid hstops, Board.turn_of_not hid' hstops', Board.turn_of_not hid hstops]

/-- **Fences that do not interfere commute.** -/
theorem Board.fence_comm (hx : b.Lost x j) (hy : b.Lost y k) (hne : x.2.job ≠ y.2.job)
    (hxy : ¬ b.Interferes sha now x y) (hyx : ¬ b.Interferes sha now y x) :
    (b.fence sha now x).fence sha now y = (b.fence sha now y).fence sha now x := by
  have hid := hx.ne hy hne
  have hkeeps : b.turn x.2.job j (fenceOutcome sha j x.2 x.1 now) y.2.job k = k :=
    Board.turn_of_not (Ne.symm hne) (hx.spared hy hne hxy)
  have hkeeps' : b.turn y.2.job k (fenceOutcome sha k y.2 y.1 now) x.2.job j = j :=
    Board.turn_of_not hne (hy.spared hx (Ne.symm hne) hyx)
  have hy' : (b.fence sha now x).Lost y k := by
    rw [← hkeeps]
    exact hx.fence hy hne
  have hx' : (b.fence sha now y).Lost x j := by
    rw [← hkeeps']
    exact hy.fence hx (Ne.symm hne)
  rw [Board.fence_of hy'.job, Board.fence_of hx'.job, Board.turn_congr (Board.fence_sweeps b x),
    Board.turn_congr (Board.fence_sweeps b y), Board.fence_of hx.job, Board.fence_of hy.job]
  simp only [Option.map_map]
  congr 1
  · funext id
    cases hrow : b.jobs id with
    | none => rfl
    | some l =>
      simp only [Option.map_some, Function.comp_apply, Option.some.injEq]
      by_cases hidx : id = x.2.job
      · subst hidx
        obtain rfl := Option.mem_unique hx.job hrow
        rw [hkeeps', Board.turn_self]
        exact Board.turn_of_not hne (hx.spared_after hy (Ne.symm hne) hyx rfl rfl)
      by_cases hidy : id = y.2.job
      · subst hidy
        obtain rfl := Option.mem_unique hy.job hrow
        rw [hkeeps, Board.turn_self]
        refine (Board.turn_of_not (Ne.symm hne) ?_).symm
        exact hy.spared_after hx hne hxy rfl rfl
      · exact Board.turn_turn hidx hidy
  · funext id
    congr 1
    funext a
    by_cases hidx : id = x.1
    · simp only [Function.comp_apply, if_pos hidx, if_neg (hidx ▸ hid)]
    · simp only [Function.comp_apply, if_neg hidx]
  · funext id
    congr 1
    funext r
    by_cases hidx : id = x.1
    · simp only [Function.comp_apply, if_pos hidx, if_neg (hidx ▸ hid)]
    · simp only [Function.comp_apply, if_neg hidx]

/-! ## A recovery -/

/-- **What a recovery finds**: attempts that were left behind, of different
jobs. -/
structure Board.Loses (b : Board) (L : List (Uuid × AttemptRow)) : Prop where
  jobs : (L.map (·.2.job)).Nodup
  lost : ∀ x ∈ L, ∃ j, b.Lost x j

/-- No two of the fences interfere. -/
def Board.Calm (sha : Uuid → ℕ) (now : Time) (b : Board) (L : List (Uuid × AttemptRow)) : Prop :=
  ∀ x ∈ L, ∀ y ∈ L, ¬ b.Interferes sha now x y

/-- One fence after the other. -/
noncomputable def Board.fences (sha : Uuid → ℕ) (now : Time) (b : Board)
    (L : List (Uuid × AttemptRow)) : Board :=
  L.foldl (Board.fence sha now) b

theorem Board.Loses.ne (h : b.Loses (x :: L)) (hy : y ∈ L) : x.2.job ≠ y.2.job := by
  intro heq
  refine (List.nodup_cons.mp (List.map_cons ▸ h.jobs)).1 ?_
  rw [heq]
  exact List.mem_map_of_mem hy

theorem Board.Loses.fence (h : b.Loses (x :: L)) : (b.fence sha now x).Loses L := by
  obtain ⟨j, hx⟩ := h.lost x List.mem_cons_self
  refine ⟨(List.nodup_cons.mp (List.map_cons ▸ h.jobs)).2, fun y hy => ?_⟩
  obtain ⟨k, hk⟩ := h.lost y (List.mem_cons_of_mem x hy)
  exact ⟨_, hx.fence hk (h.ne hy)⟩

theorem Board.Loses.perm {L' : List (Uuid × AttemptRow)} (h : b.Loses L) (hperm : L.Perm L') :
    b.Loses L' where
  jobs := (hperm.map _).nodup_iff.mp h.jobs
  lost x hx := h.lost x (hperm.mem_iff.mpr hx)

/-- A fence that interferes with neither of two leaves them as they were. -/
theorem Board.Calm.fence (h : b.Calm sha now (x :: L)) (hlost : b.Loses (x :: L)) :
    (b.fence sha now x).Calm sha now L := by
  obtain ⟨i, hx⟩ := hlost.lost x List.mem_cons_self
  have hkeeps : ∀ y ∈ L, (b.fence sha now x).jobs y.2.job = b.jobs y.2.job := by
    intro y hy
    obtain ⟨k, hk⟩ := hlost.lost y (List.mem_cons_of_mem x hy)
    rw [(hx.fence hk (hlost.ne hy)).job, hk.job, Board.turn_of_not (Ne.symm (hlost.ne hy))
      (hx.spared hk (hlost.ne hy) (h x List.mem_cons_self y (List.mem_cons_of_mem x hy)))]
  rintro y hy z hz ⟨hne, j, k, w, row, hj, hk, hrest⟩
  rw [hkeeps y hy] at hj
  rw [hkeeps z hz] at hk
  rw [Board.fence_sweeps] at hrest
  exact h y (List.mem_cons_of_mem x hy) z (List.mem_cons_of_mem x hz)
    ⟨hne, j, k, w, row, hj, hk, hrest⟩

/-- **Without interference the order does not matter.** -/
theorem Board.Loses.fences_perm {L' : List (Uuid × AttemptRow)} (hperm : L.Perm L') (h : b.Loses L)
    (hcalm : b.Calm sha now L) : b.fences sha now L = b.fences sha now L' := by
  -- The two invariants go along: they hold of the board after each fence.
  induction hperm generalizing b with
  | nil => rfl
  | cons x hperm ih => exact ih h.fence (hcalm.fence h)
  | swap x y L =>
    obtain ⟨j, hy⟩ := h.lost y List.mem_cons_self
    obtain ⟨k, hx⟩ := h.lost x (List.mem_cons_of_mem y List.mem_cons_self)
    have hcomm : (b.fence sha now y).fence sha now x = (b.fence sha now x).fence sha now y :=
      Board.fence_comm hy hx (h.ne List.mem_cons_self)
        (hcalm y List.mem_cons_self x (List.mem_cons_of_mem y List.mem_cons_self))
        (hcalm x (List.mem_cons_of_mem y List.mem_cons_self) y List.mem_cons_self)
    show L.foldl _ ((b.fence sha now y).fence sha now x) = L.foldl _ _
    rw [hcomm]
  | trans hfirst hsecond ih ih' =>
    refine (ih h hcalm).trans (ih' (h.perm hfirst) fun x hx y hy => ?_)
    exact hcalm x (hfirst.mem_iff.mpr hx) y (hfirst.mem_iff.mpr hy)

/-! ## With interference it does -/

/-- Who stops a job stops the siblings that it would stop. -/
theorem Board.Stops.trans {i : JobRow} (h : b.Stops i j) (h' : b.Stops j k) : b.Stops i k := by
  obtain ⟨u, row, hu, hrow, hfast, hmember, -⟩ := h
  obtain ⟨v, row', hv, hrow', -, hmember', hstops⟩ := h'
  have huv : u.1 = v.1 := by
    rw [hv] at hmember
    exact (Option.some.inj hmember).symm
  rw [← huv] at hmember' hrow'
  obtain rfl := Option.mem_unique hrow hrow'
  exact ⟨u, row, hu, hrow, hfast, hmember', hstops⟩

/-- The job of another attempt is stopped by a fence, or left alone. -/
theorem Board.fence_job (b : Board) (x : Uuid × AttemptRow) (hid : id ≠ x.2.job)
    (hk : b.jobs id = some k) : (b.fence sha now x).jobs id = some k ∨
      (b.fence sha now x).jobs id = some k.stop ∧ ∃ j, b.jobs x.2.job = some j ∧
        (fenceOutcome sha j x.2 x.1 now).jobState = .failed ∧ b.Stops j k := by
  cases hj : b.jobs x.2.job with
  | none =>
    left
    unfold Board.fence
    rw [hj]
    exact hk
  | some j =>
    have hrow : (b.fence sha now x).jobs id
        = some (b.turn x.2.job j (fenceOutcome sha j x.2 x.1 now) id k) := by
      rw [Board.fence_of hj]
      show Option.map _ (b.jobs id) = _
      rw [hk, Option.map_some]
    by_cases hstops : (fenceOutcome sha j x.2 x.1 now).jobState = .failed ∧ b.Stops j k
    · rw [Board.turn_of_stops hid hstops] at hrow
      exact .inr ⟨hrow, j, rfl, hstops⟩
    · rw [Board.turn_of_not hid hstops] at hrow
      exact .inl hrow

theorem Board.fence_fails (hj : b.jobs x.2.job = some j) (hk : b.jobs y.2.job = some k)
    (hne : y.2.job ≠ x.2.job) (hfails : (fenceOutcome sha j x.2 x.1 now).jobState = .failed)
    (hstops : b.Stops j k) : (b.fence sha now x).jobs y.2.job = some k.stop := by
  rw [Board.fence_of hj]
  show Option.map _ (b.jobs y.2.job) = _
  rw [hk, Option.map_some, Board.turn_of_stops hne ⟨hfails, hstops⟩]

/-- What nothing stops is still there after the fences of the others. -/
theorem Board.fences_keeps (L : List (Uuid × AttemptRow)) (hnever : ∀ j, ¬ b.Stops j k)
    (hk : b.jobs id = some k) (hothers : ∀ x ∈ L, id ≠ x.2.job) :
    (b.fences sha now L).jobs id = some k := by
  induction L generalizing b with
  | nil => exact hk
  | cons x L ih =>
    refine ih (fun j hstops => hnever j (hstops.congr (Board.fence_sweeps b x).symm rfl rfl rfl)) ?_
      fun y hy => hothers y (List.mem_cons_of_mem x hy)
    obtain hrow | ⟨-, j, -, -, hstops⟩ := b.fence_job x (hothers x List.mem_cons_self) hk
    · exact hrow
    · exact absurd hstops (hnever j)

theorem Board.fences_stopped (L : List (Uuid × AttemptRow)) (hk : b.jobs id = some k.stop)
    (hothers : ∀ x ∈ L, id ≠ x.2.job) : (b.fences sha now L).jobs id = some k.stop :=
  Board.fences_keeps L (fun j => b.not_stops_stop j k) hk hothers

/-- **A failure among the fences stops the sibling**, unless another one has
stopped it before. -/
theorem Board.fences_stop (hx : x ∈ L) (hjobs : (L.map (·.2.job)).Nodup)
    (hothers : ∀ z ∈ L, y.2.job ≠ z.2.job) (hj : b.jobs x.2.job = some j)
    (hk : b.jobs y.2.job = some k) (hfails : (fenceOutcome sha j x.2 x.1 now).jobState = .failed)
    (hstops : b.Stops j k) : (b.fences sha now L).jobs y.2.job = some k.stop := by
  -- Until the failure comes, neither of the two was stopped or the sibling was.
  induction L generalizing b with
  | nil => exact absurd hx List.not_mem_nil
  | cons z L ih =>
    have hothers' : ∀ z ∈ L, y.2.job ≠ z.2.job := fun w hw => hothers w (List.mem_cons_of_mem z hw)
    have hz := hothers z List.mem_cons_self
    obtain ⟨hnew, hjobs'⟩ := List.nodup_cons.mp (List.map_cons ▸ hjobs)
    show ((b.fence sha now z).fences sha now L).jobs y.2.job = _
    obtain rfl | hx' := List.mem_cons.mp hx
    · exact Board.fences_stopped L (Board.fence_fails hj hk hz hfails hstops) hothers'
    · have hxz : x.2.job ≠ z.2.job := by
        intro heq
        rw [← heq] at hnew
        exact hnew (List.mem_map_of_mem hx')
      obtain hrow | ⟨-, i, hi, hfailed, hstopped⟩ := b.fence_job z hxz hj
      · obtain hrow' | ⟨hrow', -⟩ := b.fence_job z hz hk
        · exact ih hx' hjobs' hothers' hrow hrow'
            (hstops.congr (Board.fence_sweeps b z) rfl rfl rfl)
        · exact Board.fences_stopped L hrow' hothers'
      · exact Board.fences_stopped L (Board.fence_fails hi hk hz hfailed (hstopped.trans hstops))
          hothers'

/-- The states of a job and of an attempt. -/
def Board.jobState (b : Board) (job : Uuid) : Option JobState := (b.jobs job).map (·.state)

/-- The state of an attempt. -/
def Board.attemptState (b : Board) (attempt : Uuid) : Option AttemptState :=
  (b.attempts attempt).map (·.state)

/-- The fences of others leave an attempt as it is. -/
theorem Board.fences_attempt (L : List (Uuid × AttemptRow)) (hothers : ∀ x ∈ L, id ≠ x.1) :
    (b.fences sha now L).attempts id = b.attempts id := by
  induction L generalizing b with
  | nil => rfl
  | cons x L ih =>
    refine (ih fun y hy => hothers y (List.mem_cons_of_mem x hy)).trans ?_
    unfold Board.fence
    split
    · rfl
    · show Option.map _ (b.attempts id) = _
      simp only [if_neg (hothers x List.mem_cons_self), Option.map_id']

/-- The rows of an attempt and of its job after its fence. -/
theorem Board.fence_self (sha : Uuid → ℕ) (now : Time) (hj : b.jobs x.2.job = some j)
    (hx : b.attempts x.1 = some x.2) :
    (b.fence sha now x).jobs x.2.job = some { j.fence (fenceOutcome sha j x.2 x.1 now) with
        eventSequence := j.eventSequence + 1 } ∧
      (b.fence sha now x).attempts x.1
        = some (x.2.fence (fenceOutcome sha j x.2 x.1 now) now) := by
  rw [Board.fence_of hj]
  constructor
  · show Option.map _ (b.jobs x.2.job) = _
    rw [hj, Option.map_some, Board.turn_self]
  · show Option.map _ (b.attempts x.1) = _
    rw [hx, Option.map_some, if_pos rfl]

theorem Board.fences_append (b : Board) (L L' : List (Uuid × AttemptRow)) :
    b.fences sha now (L ++ L') = (b.fences sha now L).fences sha now L' :=
  List.foldl_append

/-- An attempt whose job was not cancelled does not end as cancelled. -/
theorem fenceOutcome_attemptState (a : AttemptRow) (attempt : Uuid) (now : Time)
    (hcancelled : j.cancelRequested = false) :
    (fenceOutcome sha j a attempt now).attemptState ≠ .cancelled := by
  unfold fenceOutcome
  rw [hcancelled, if_neg Bool.false_ne_true]
  split
  · nofun
  · split_ifs <;> nofun

/-- **Two fences that interfere show their order**, in the state of the job or
of the attempt: first of all the attempt `y` ends otherwise than last. -/
theorem Board.Interferes.order_matters {first last : List (Uuid × AttemptRow)}
    (h : b.Interferes sha now x y) (hfirst : b.Loses (y :: first))
    (hperm : (last ++ [y]).Perm (y :: first)) (hx : x ∈ first) :
    (b.fences sha now (y :: first)).jobState y.2.job
        ≠ (b.fences sha now (last ++ [y])).jobState y.2.job ∨
      (b.fences sha now (y :: first)).attemptState y.1
        ≠ (b.fences sha now (last ++ [y])).attemptState y.1 := by
  obtain ⟨hne, j, k, z, row, hj, hk, hfails, hz, hrow, hfast, hmember, huncancelled, heffect⟩ := h
  obtain ⟨k', hlost⟩ := hfirst.lost y List.mem_cons_self
  obtain rfl := Option.mem_unique hk hlost.job
  have hactive : k.state = .active := by
    obtain ⟨hactive, -⟩ | ⟨-, hset⟩ := hlost.runs
    · exact hactive
    · exact Bool.noConfusion (huncancelled.symm.trans hset)
  have hrest : last.Perm first := by
    have hcons : (y :: last).Perm (y :: first) :=
      (List.perm_append_singleton y last).symm.trans hperm
    exact hcons.cons_inv
  have hjobs : ∀ w ∈ first, y.2.job ≠ w.2.job := fun w hw => hfirst.ne hw
  have hattempts : ∀ w ∈ first, y.1 ≠ w.1 := by
    intro w hw
    obtain ⟨l, hl⟩ := hfirst.lost w (List.mem_cons_of_mem y hw)
    exact hlost.ne hl (hjobs w hw)
  have hnodup : (first.map (·.2.job)).Nodup := (List.nodup_cons.mp (List.map_cons ▸ hfirst.jobs)).2
  have hjobs' : ∀ w ∈ last, y.2.job ≠ w.2.job := fun w hw => hjobs w (hrest.mem_iff.mp hw)
  have hkept : (b.fences sha now last).attempts y.1 = some y.2 := by
    rw [Board.fences_attempt last fun w hw => hattempts w (hrest.mem_iff.mp hw), hlost.attempt]
  have hself := Board.fence_self sha now hk hlost.attempt
  rw [Board.fences_append]
  show (((b.fence sha now y).fences sha now first).jobState y.2.job
      ≠ ((b.fences sha now last).fence sha now y).jobState y.2.job) ∨
    ((b.fence sha now y).fences sha now first).attemptState y.1
      ≠ ((b.fences sha now last).fence sha now y).attemptState y.1
  cases hcancels : row.cancelRunningOnFailure with
  | true =>
    -- Last, the attempt finds its job cancelled by the failure.
    right
    have hstopped := Board.fences_stop (hrest.mem_iff.mpr hx) ((hrest.map _).nodup_iff.mpr hnodup)
      hjobs' hj hk hfails ⟨z, row, hz, hrow, hfast, hmember, .inr ⟨hactive, hcancels⟩⟩
    have hended := Board.fence_self sha now hstopped hkept
    unfold Board.attemptState
    rw [Board.fences_attempt first hattempts, hself.2, hended.2]
    intro heq
    refine fenceOutcome_attemptState y.2 y.1 now huncancelled ((Option.some.inj heq).trans ?_)
    exact congrArg Verdict.attempt (fenceOutcome_cancelled y.2 y.1 now rfl)
  | false =>
    -- First, the attempt leaves its job waiting for the failure that cancels it.
    left
    have hretried : (fenceOutcome sha k y.2 y.1 now).jobState = .retryWait := by
      obtain hretried | hset := heffect
      · exact hretried
      · exact Bool.noConfusion (hcancels.symm.trans hset)
    have hnever : ∀ i, ¬ b.Stops i k := by
      rintro i ⟨u, row', -, hrow', -, hmember', hwaits | ⟨-, hset⟩⟩
      · rw [hactive] at hwaits
        exact Bool.noConfusion hwaits
      · rw [hmember, Option.some.injEq] at hmember'
        rw [← hmember', hrow, Option.some.injEq] at hrow'
        rw [← hrow', hcancels] at hset
        exact Bool.noConfusion hset
    have hlast := Board.fence_self sha now (Board.fences_keeps last hnever hk hjobs') hkept
    set out := fenceOutcome sha k y.2 y.1 now with hout
    have hx' : (b.fence sha now y).jobs x.2.job = some j := by
      obtain hrow' | ⟨-, i, hi, hfailed, -⟩ := b.fence_job y hne hj
      · exact hrow'
      · obtain rfl := Option.mem_unique hk hi
        rw [← hout, hretried] at hfailed
        exact JobState.noConfusion hfailed
    have hstops : (b.fence sha now y).Stops j
        { k.fence out with eventSequence := k.eventSequence + 1 } := by
      refine ⟨z, row, hz, ?_, hfast, hmember, .inl ?_⟩
      · rw [Board.fence_sweeps]
        exact hrow
      · show out.jobState.isQueued = true
        rw [hretried]
        rfl
    have hstopped := Board.fences_stop hx hnodup hjobs hx' hself.1 hfails hstops
    unfold Board.jobState
    rw [hstopped, hlast.1]
    show some (if out.jobState = .active then JobState.cancelling else .cancelled)
      ≠ some out.jobState
    rw [hretried]
    decide

end

/-! ## The fences of a store -/

theorem Store.board_stops {x : Uuid × ℕ} {row : SweepRow} {f k : JobRow} (hx : f.sweep = some x)
    (hrow : s.sweeps.lookup x.1 = some row) : s.board.Stops f k ↔ row.failFast = true ∧
      k.sweep.map Prod.fst = some x.1 ∧
      (k.state.isQueued = true ∨ k.state = .active ∧ row.cancelRunningOnFailure = true) := by
  constructor
  · rintro ⟨y, row', hy, hrow', hrest⟩
    obtain rfl := Option.mem_unique hx hy
    obtain rfl := Option.mem_unique hrow hrow'
    exact hrest
  · intro hrest
    exact ⟨x, row, hx, hrow, hrest⟩

/-- The jobs after a failure. -/
theorem applySweepFailFast_board {failed : Uuid} {f k : JobRow}
    (h : applySweepFailFast s now failed = .ok s') (hf : s.jobs.lookup failed = some f)
    (hfailed : f.state = .failed) (hid : id ≠ failed) (hk : s.jobs.lookup id = some k) :
    (s.board.Stops f k → s'.jobs.lookup id = some k.stop) ∧
      (¬ s.board.Stops f k → s'.jobs.lookup id = some k) := by
  unfold applySweepFailFast at h
  constructor
  · rintro ⟨x, row, hx, hrow, hfast, hstops⟩
    rw [failFastPolicy_of hf hfailed hx hrow, if_pos hfast] at h
    simp only [bind_ok, pure_ok] at h
    obtain ⟨events, -, rfl⟩ := h
    rw [Table.lookup_update, hk, Option.map_some,
      if_pos (failFastCandidate_iff.mpr ⟨hid, hstops⟩)]
  · intro hnot
    split at h
    · rw [← pure_ok.mp h]
      exact hk
    · rename_i sweep cancelRunning hpolicy
      obtain ⟨_, place, row, hf', -, hsweep, hrow, hfast, rfl⟩ := failFastPolicy_eq_some hpolicy
      obtain rfl := Option.mem_unique hf hf'
      simp only [bind_ok, pure_ok] at h
      obtain ⟨events, -, rfl⟩ := h
      rw [Table.lookup_update, hk, Option.map_some, if_neg]
      intro hcandidate
      exact hnot ((Store.board_stops hsweep hrow).mpr
        ⟨hfast, (failFastCandidate_iff.mp hcandidate).2⟩)

theorem Store.Unwritten.applySweepFailFast {failed : Uuid} (h : s.Unwritten)
    (hstop : applySweepFailFast s now failed = .ok s') : s'.Unwritten := by
  intro id k' n hk' hn
  cases hk : s.jobs.lookup id with
  | none => exact absurd (hk'.symm.trans (applySweepFailFast_none hstop hk).1) (by simp)
  | some k =>
    obtain ⟨hsame, hevents⟩ | ⟨sweep, cancelRunning, -, -, hstopped, hevents⟩ :=
      applySweepFailFast_job hstop hk
    · obtain rfl := Option.mem_unique hk' hsame
      rw [hevents]
      exact h id k' n hk hn
    · obtain rfl := Option.mem_unique hk' hstopped
      have hlater : k.eventSequence + 1 < n := hn
      rw [hevents, if_neg hlater.ne']
      exact h id k n hk (Nat.lt_of_succ_lt hlater)

/-- The rows of a fence before the sweep is stopped. -/
theorem fence_logged {attempt : Uuid} {author : Option Uuid} {body : EventBody} {logged : Store}
    (h : (s.fence job attempt out now).appendEvent now job author body = .ok logged) :
    (∀ id, logged.jobs.lookup id = (s.jobs.lookup id).map (fun k =>
        if id = job then { k.fence out with eventSequence := k.eventSequence + 1 } else k)) ∧
      (∀ id, logged.attempts.lookup id = (s.attempts.lookup id).map (fun a =>
        if id = attempt then a.fence out now else a)) ∧
      (∀ id, logged.reservations.lookup id = (s.reservations.lookup id).map (fun r =>
        if id = attempt then { r with state := .quarantined } else r)) ∧
      logged.sweeps = s.sweeps := by
  obtain ⟨row, events, -, -, rfl⟩ := Store.appendEvent_eq_ok h
  refine ⟨fun id => ?_, fun id => Table.lookup_update .., fun id => Table.lookup_update .., rfl⟩
  show AList.lookup id ((s.jobs.modify job _).modify job _) = _
  rw [Table.modify_eq_update, Table.modify_eq_update, Table.update_update, Table.lookup_update]
  congr 1
  funext k
  split_ifs <;> rfl

/-- The jobs after a fence and the stop of the sweep. -/
theorem fence_turn {j : JobRow} {logged : Store}
    (hlast : (if out.jobState = .failed then applySweepFailFast logged now job else pure logged)
      = .ok s') (hjobs : ∀ id, logged.jobs.lookup id = (s.jobs.lookup id).map (fun k =>
      if id = job then { k.fence out with eventSequence := k.eventSequence + 1 } else k))
    (hsweeps : logged.sweeps = s.sweeps) (hj : s.jobs.lookup job = some j) (id : Uuid) :
    s'.jobs.lookup id = (s.jobs.lookup id).map (s.board.turn job j out id) := by
  have hboard : logged.board.sweeps = s.board.sweeps := by
    funext x
    exact congrArg (AList.lookup x) hsweeps
  have hrow := hjobs id
  cases hk : s.jobs.lookup id with
  | none =>
    rw [hk, Option.map_none] at hrow
    split_ifs at hlast
    · exact (applySweepFailFast_none hlast hrow).1
    · rw [← pure_ok.mp hlast]
      exact hrow
  | some k =>
    rw [hk, Option.map_some] at hrow
    rw [Option.map_some]
    by_cases hid : id = job
    · -- The job that failed is not one of its own siblings.
      subst hid
      rw [if_pos rfl] at hrow
      rw [Board.turn_self]
      split_ifs at hlast
      · obtain ⟨hsame, -⟩ | ⟨sweep, cancelRunning, -, hcandidate, -⟩ :=
          applySweepFailFast_job hlast hrow
        · exact hsame
        · exact absurd rfl (failFastCandidate_iff.mp hcandidate).1
      · rw [← pure_ok.mp hlast]
        exact hrow
    · rw [if_neg hid] at hrow
      split_ifs at hlast with hfailed
      · have hf := hjobs job
        rw [hj, Option.map_some, if_pos rfl] at hf
        obtain ⟨hstop, hkeep⟩ := applySweepFailFast_board hlast hf hfailed hid hrow
        by_cases hstops : s.board.Stops j k
        · rw [Board.turn_of_stops hid ⟨hfailed, hstops⟩]
          exact hstop (hstops.congr hboard rfl rfl rfl)
        · rw [Board.turn_of_not hid fun h => hstops h.2]
          exact hkeep fun h => hstops (h.congr hboard.symm rfl rfl rfl)
      · rw [Board.turn_of_not hid fun h => hfailed h.1, ← pure_ok.mp hlast]
        exact hrow

/-- **The fence of a store is the fence of its board.** -/
theorem fenceLostAttempt_board {x : Uuid × AttemptRow}
    (h : fenceLostAttempt sha s now x.2.job x.1 = .ok s') (hx : s.attempts.lookup x.1 = some x.2) :
    s'.board = s.board.fence sha now x := by
  obtain ⟨j, a, r, logged, hj, -, ha, -, -, hlogged, hlast⟩ := fenceLostAttempt_eq_ok h
  obtain rfl := Option.mem_unique hx ha
  set out := fenceOutcome sha j x.2 x.1 now with hout
  obtain ⟨hjobs, hattempts, hreservations, hsweeps⟩ := fence_logged hlogged
  have hrest : s'.attempts = logged.attempts ∧ s'.reservations = logged.reservations ∧
      s'.sweeps = logged.sweeps := by
    split_ifs at hlast
    · rw [applySweepFailFast_rest hlast]
      exact ⟨rfl, rfl, rfl⟩
    · rw [pure_ok.mp hlast]
      exact ⟨rfl, rfl, rfl⟩
  rw [Board.fence_of hj]
  apply Board.ext
  · funext id
    exact fence_turn hlast hjobs hsweeps hj id
  · funext id
    show s'.attempts.lookup id = _
    rw [hrest.1, hattempts]
    rfl
  · funext id
    show s'.reservations.lookup id = _
    rw [hrest.2.1, hreservations]
    rfl
  · funext id
    show s'.sweeps.lookup id = _
    rw [hrest.2.2, hsweeps]
    rfl

theorem fenceLostAttempt_unwritten {attempt : Uuid} (hunwritten : s.Unwritten)
    (h : fenceLostAttempt sha s now job attempt = .ok s') : s'.Unwritten := by
  obtain ⟨j, a, r, logged, -, -, -, -, -, hlogged, hlast⟩ := fenceLostAttempt_eq_ok h
  have hended := hunwritten.fence job attempt (fenceOutcome sha j a attempt now) now
  split_ifs at hlast
  · exact (hended.appendEvent hlogged).applySweepFailFast hlast
  · rw [← pure_ok.mp hlast]
    exact hended.appendEvent hlogged

/-- **The fences of a recovery succeed**, and do on the board what they do
there. -/
theorem fences_total (sha : Uuid → ℕ) (now : Time) (hunwritten : s.Unwritten)
    (hloses : s.board.Loses L) : ∃ t,
      L.foldlM (fun s x => fenceLostAttempt sha s now x.2.job x.1) s = .ok t ∧
        t.board = s.board.fences sha now L := by
  induction L generalizing s with
  | nil => exact ⟨s, rfl, rfl⟩
  | cons x L ih =>
    obtain ⟨j, hx⟩ := hloses.lost x List.mem_cons_self
    obtain ⟨r, hr, hheld⟩ := hx.reserved
    obtain ⟨u, hu⟩ := fenceLostAttempt_total hunwritten now hx.job hx.current hx.attempt hx.valid hr
      hheld
    have hboard := fenceLostAttempt_board hu hx.attempt
    obtain ⟨t, hfold, ht⟩ := ih (fenceLostAttempt_unwritten hunwritten hu) (hboard ▸ hloses.fence)
    refine ⟨t, ?_, ?_⟩
    · rw [List.foldlM_cons, hu]
      exact hfold
    · rw [ht, hboard]
      rfl

end Dispatch
