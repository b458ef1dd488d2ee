import Dispatch.Store.Phases

/-!
# The end of a container

A container that is asked to stop is given a grace period, and then it is
killed. What the worker may spend on it is what is left of its authority, and
three cleanup budgets of that are kept back: one for the request to stop, one
for the kill and one for the inspection after it. Every wait has a timeout, so
the time spent is bounded by the sum of these, whatever the daemon does.

The worker says that a container is gone only when the daemon has said so: the
runtime answers a request to stop only after an inspection, and after a kill
the supervisor inspects the container itself.
-/

namespace Dispatch

/-- The states of a container, as the daemon names them. -/
inductive ContainerState where
  | created
  | running
  | paused
  | restarting
  | removing
  | stopping
  | exited
  | dead
  deriving DecidableEq, Repr

/-- What an inspection tells of a container, as far as its end is concerned. -/
structure ContainerStatus where
  running : Bool
  state : ContainerState
  deriving DecidableEq, Repr

/-- Why a call of the runtime fails. -/
inductive RuntimeError where
  | configuration
  | unsupported
  | identity
  | authority
  | deadline
  | transport
  | daemon (status : ℕ)
  | terminal
  | inventoryLimit
  deriving DecidableEq, Repr

/-- **A call**: when it ends, if ever, and with what. -/
structure RuntimeCall (α : Type) where
  took : Option Time
  answer : Except RuntimeError α

namespace RuntimeCall

variable {α β : Type}

/-- One call after another; an error is passed on. -/
def andThen (x : RuntimeCall α) (f : α → RuntimeCall β) : RuntimeCall β :=
  match x.answer with
  | .error e => ⟨x.took, .error e⟩
  | .ok a => ⟨x.took.bind (fun t => (f a).took.map (t + ·)), (f a).answer⟩

theorem andThen_eq_ok {x : RuntimeCall α} {f : α → RuntimeCall β} {b : β} :
    (x.andThen f).answer = .ok b ↔ ∃ a, x.answer = .ok a ∧ (f a).answer = .ok b := by
  unfold andThen
  cases hx : x.answer with
  | error e => simp
  | ok a => simp

/-- A result that is there at once. -/
def done (answer : Except RuntimeError α) : RuntimeCall α := ⟨some 0, answer⟩

/-- `timeout`: the answer if it is there in time, and the time spent. -/
def timeout (limit : Time) (x : RuntimeCall α) : Option (Except RuntimeError α) × Time :=
  match x.took with
  | some t => if t ≤ limit then (some x.answer, t) else (none, limit)
  | none => (none, limit)

/-- `bounded`: a call that fails after its own timeout. -/
def bounded (limit : Time) (x : RuntimeCall α) : RuntimeCall α :=
  ⟨some (x.timeout limit).2, (x.timeout limit).1.getD (.error .deadline)⟩

theorem timeout_snd_le (limit : Time) (x : RuntimeCall α) : (x.timeout limit).2 ≤ limit := by
  unfold timeout
  split
  · split_ifs with ht
    · exact ht
    · exact le_refl _
  · exact le_refl _

theorem answer_of_timeout {limit : Time} {x : RuntimeCall α} {r : Except RuntimeError α}
    (h : (x.timeout limit).1 = some r) : x.answer = r := by
  unfold timeout at h
  split at h
  · split_ifs at h
    exact Option.some.inj h
  · cases h

end RuntimeCall

/-! ## The supervisor -/

/-- What the supervisor asks of the runtime. -/
inductive RuntimeRequest where
  | stop (grace : ℕ)
  | kill
  | inspect
  deriving DecidableEq, Repr

/-- The calls of the runtime that a termination makes. -/
structure Runtime where
  stop : ℕ → RuntimeCall Unit
  kill : RuntimeCall Unit
  inspect : RuntimeCall ContainerStatus

/-- What becomes of a termination: whether the container is confirmed to be
gone, the time spent, and what was asked of the runtime, in order. -/
structure Termination where
  confirmed : Bool
  spent : Time
  requests : List RuntimeRequest
  deriving DecidableEq, Repr

/-- `CLEANUP_BUDGET`: five seconds. -/
def cleanupBudget : Time := 5 * second

/-- What an inspection proves; a stalled daemon is uncertainty, and no evidence. -/
def confirms : Option (Except RuntimeError ContainerStatus) → Bool
  | some (.ok status) =>
    !status.running && (decide (status.state = .exited) || decide (status.state = .dead))
  | some (.error (.daemon 404)) => true
  | _ => false

/-- Immediate kill, and one look. -/
def terminate (runtime : Runtime) : Termination where
  confirmed := confirms (runtime.inspect.timeout cleanupBudget).1
  spent := (runtime.kill.timeout cleanupBudget).2 + (runtime.inspect.timeout cleanupBudget).2
  requests := [.kill, .inspect]

/-- The grace period that is left of a request, in whole seconds. -/
def grantedGrace (requestedGrace : ℕ) (remaining : Time) : ℕ :=
  min requestedGrace (min ((remaining - 3 * cleanupBudget) / second) 300)

/-- Stop with what is left of the grace period, and kill if that does not succeed.
-/
def terminateRequested (runtime : Runtime) (requestedGrace : ℕ) (remaining : Time) : Termination :=
  let grace := grantedGrace requestedGrace remaining
  if 0 < grace then
    let stopped := (runtime.stop grace).timeout (grace * second + cleanupBudget)
    let killed := terminate runtime
    match stopped.1 with
    | some (.ok ()) => ⟨true, stopped.2, [.stop grace]⟩
    | _ => ⟨killed.confirmed, stopped.2 + killed.spent, .stop grace :: killed.requests⟩
  else terminate runtime

/-! ## The runtime -/

/-- What the daemon answers. Inspections are numbered in the order a termination
may make them. -/
structure Daemon where
  inspect : ℕ → RuntimeCall ContainerStatus
  stopContainer : ℕ → RuntimeCall Unit
  killContainer : RuntimeCall Unit

/-- `RPC_TIMEOUT`: five seconds. -/
def rpcTimeout : Time := 5 * second

/-- `stop` of the runtime: it succeeds after an inspection that finds the
container not running. -/
def Daemon.stop (d : Daemon) (grace : ℕ) : RuntimeCall Unit :=
  if 300 < grace then .done (.error .configuration) else
    (d.inspect 0).andThen fun status =>
      if status.running = false then .done (.ok ()) else
        ((d.stopContainer grace).bounded (rpcTimeout + grace * second)).andThen fun _ =>
          (d.inspect 1).andThen fun status =>
            .done (if status.running then .error .transport else .ok ())

/-- `kill` of the runtime: nothing is asked of a container that is not running. -/
def Daemon.kill (d : Daemon) : RuntimeCall Unit :=
  (d.inspect 2).andThen fun status =>
    if status.running = false then .done (.ok ()) else d.killContainer.bounded rpcTimeout

/-- The runtime over a daemon. -/
def Daemon.runtime (d : Daemon) : Runtime := ⟨d.stop, d.kill, d.inspect 3⟩

/-- The daemon says that the container is not running, or that there is none. -/
def Daemon.SaysGone (d : Daemon) : Prop :=
  ∃ n, (∃ status, (d.inspect n).answer = .ok status ∧ status.running = false) ∨
    (d.inspect n).answer = .error (.daemon 404)

theorem Daemon.saysGone_of_stop {d : Daemon} {grace : ℕ} (h : (d.stop grace).answer = .ok ()) :
    d.SaysGone := by
  unfold Daemon.stop at h
  split_ifs at h
  · cases h
  · obtain ⟨status, hstatus, h⟩ := RuntimeCall.andThen_eq_ok.mp h
    split_ifs at h with hgone
    · exact ⟨0, .inl ⟨status, hstatus, hgone⟩⟩
    · obtain ⟨-, -, h⟩ := RuntimeCall.andThen_eq_ok.mp h
      obtain ⟨after, hafter, h⟩ := RuntimeCall.andThen_eq_ok.mp h
      refine ⟨1, .inl ⟨after, hafter, ?_⟩⟩
      by_contra hrunning
      rw [if_pos ((Bool.not_eq_false _).mp hrunning)] at h
      cases h

theorem Daemon.saysGone_of_confirms {d : Daemon}
    (h : confirms ((d.inspect 3).timeout cleanupBudget).1 = true) : d.SaysGone := by
  unfold confirms at h
  split at h
  · rename_i status hanswer
    rw [Bool.and_eq_true, Bool.not_eq_true'] at h
    exact ⟨3, .inl ⟨status, RuntimeCall.answer_of_timeout hanswer, h.1⟩⟩
  · rename_i hanswer
    exact ⟨3, .inr (RuntimeCall.answer_of_timeout hanswer)⟩
  · cases h

/-! ## The time it takes -/

theorem terminate_spent_le (runtime : Runtime) : (terminate runtime).spent ≤ 2 * cleanupBudget :=
  (Nat.add_le_add (RuntimeCall.timeout_snd_le _ _) (RuntimeCall.timeout_snd_le _ _)).trans
    (Nat.two_mul cleanupBudget).ge

/-- The grace that is granted leaves three budgets. -/
theorem grantedGrace_le (requestedGrace : ℕ) {remaining : Time}
    (h : 3 * cleanupBudget ≤ remaining) :
    grantedGrace requestedGrace remaining * second + 3 * cleanupBudget ≤ remaining := by
  have hwhole : (remaining - 3 * cleanupBudget) / second * second ≤ remaining - 3 * cleanupBudget :=
    Nat.div_mul_le_self _ _
  have hgrace : grantedGrace requestedGrace remaining ≤ (remaining - 3 * cleanupBudget) / second :=
    (min_le_right _ _).trans (min_le_left _ _)
  calc grantedGrace requestedGrace remaining * second + 3 * cleanupBudget
      ≤ (remaining - 3 * cleanupBudget) + 3 * cleanupBudget :=
        Nat.add_le_add_right ((Nat.mul_le_mul_right second hgrace).trans hwhole) _
    _ = remaining := Nat.sub_add_cancel h

theorem grantedGrace_eq_zero {requestedGrace : ℕ} {remaining : Time}
    (h : remaining < 3 * cleanupBudget) : grantedGrace requestedGrace remaining = 0 := by
  unfold grantedGrace
  rw [Nat.sub_eq_zero_of_le h.le, Nat.zero_div, Nat.zero_min, Nat.min_zero]

/-- **A graceful termination stays inside the authority.** Whatever the daemon
answers and when, with any grace requested and any authority left:

* when three cleanup budgets are left, the time spent is at most what is left;
* otherwise the container is killed at once, with no grace, in two budgets;
* the grace passed to the runtime is at most the one requested;
* the container is confirmed to be gone only if the daemon has said so. -/
theorem termination_within_authority (d : Daemon) (requestedGrace : ℕ) (remaining : Time) :
    (3 * cleanupBudget ≤ remaining →
      (terminateRequested d.runtime requestedGrace remaining).spent ≤ remaining) ∧
    (remaining < 3 * cleanupBudget →
      (terminateRequested d.runtime requestedGrace remaining).requests = [.kill, .inspect] ∧
      (terminateRequested d.runtime requestedGrace remaining).spent ≤ 2 * cleanupBudget) ∧
    (∀ grace, .stop grace ∈ (terminateRequested d.runtime requestedGrace remaining).requests →
      grace ≤ requestedGrace) ∧
    ((terminateRequested d.runtime requestedGrace remaining).confirmed = true → d.SaysGone) := by
  have hkilled := terminate_spent_le d.runtime
  by_cases hgrace : 0 < grantedGrace requestedGrace remaining
  · have hle : 3 * cleanupBudget ≤ remaining := by
      by_contra hlt
      rw [grantedGrace_eq_zero (not_le.mp hlt)] at hgrace
      exact absurd hgrace (lt_irrefl 0)
    have hgranted : grantedGrace requestedGrace remaining ≤ requestedGrace := min_le_left _ _
    have hstopped := RuntimeCall.timeout_snd_le (grantedGrace requestedGrace remaining * second +
      cleanupBudget) (d.runtime.stop (grantedGrace requestedGrace remaining))
    have htotal := grantedGrace_le requestedGrace hle
    unfold terminateRequested
    simp only [if_pos hgrace]
    split
    · rename_i hanswer
      refine ⟨fun _ => hstopped.trans (.trans ?_ htotal), fun hlt => absurd hle (not_le.mpr hlt),
        fun grace hmem => ?_, fun _ => Daemon.saysGone_of_stop
        (RuntimeCall.answer_of_timeout hanswer)⟩
      · exact Nat.add_le_add_left (Nat.le_mul_of_pos_left _ (by decide)) _
      · cases List.mem_singleton.mp hmem
        exact hgranted
    · refine ⟨fun _ => .trans ?_ htotal, fun hlt => absurd hle (not_le.mpr hlt),
        fun grace hmem => ?_, Daemon.saysGone_of_confirms⟩
      · calc _ ≤ (grantedGrace requestedGrace remaining * second + cleanupBudget)
              + 2 * cleanupBudget := Nat.add_le_add hstopped hkilled
          _ = grantedGrace requestedGrace remaining * second + 3 * cleanupBudget := by omega
      · obtain heq | hmem := List.mem_cons.mp hmem
        · cases heq
          exact hgranted
        · exact absurd hmem (by simp [terminate])
  · have hkill : terminateRequested d.runtime requestedGrace remaining = terminate d.runtime :=
      if_neg hgrace
    rw [hkill]
    refine ⟨fun hle => hkilled.trans ((Nat.mul_le_mul_right _ (by decide)).trans hle),
      fun _ => ⟨rfl, hkilled⟩, fun grace hmem => ?_, Daemon.saysGone_of_confirms⟩
    exact absurd hmem (by simp [terminate])

end Dispatch
