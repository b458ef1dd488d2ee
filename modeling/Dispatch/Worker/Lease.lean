import Dispatch.Api.Leases

/-!
# Authority windows

A worker measures its authority on its own boot clock. A window starts when
the request was sent, not when the answer arrived, and ends five seconds before
the lease it was told of, so that neither the delay of an answer nor the
difference of two clocks makes it outlive the lease.

`decodeRenewals` builds the windows of a renewal. The windows of assignments
are built by the same `fromGrant`.
-/

namespace Dispatch

/-- Nanoseconds on the boot clock of a host. -/
abbrev MonoTime : Type := ℕ

/-- Why a window gives no authority. -/
inductive LeaseError where
  | invalid
  | clock
  | expired
  deriving DecidableEq, Repr

/-- The largest `Duration`. -/
def maxDuration : ℕ := 2 ^ 64 * second - 1

/-- **A window of authority** on the boot clock: from when a request was sent to its
deadline. -/
structure AuthorityWindow where
  sent : MonoTime
  deadline : MonoTime
  deriving DecidableEq, Repr

namespace AuthorityWindow

/-- What is left of a window. -/
def remainingAt (w : AuthorityWindow) (now : MonoTime) : Except LeaseError MonoTime :=
  if now < w.sent then .error .clock
  else if w.deadline ≤ now then .error .expired
  else .ok (w.deadline - now)

/-- **The window of a grant.** -/
def fromGrant (sent received : MonoTime) (leaseMs phaseMs : ℕ) :
    Except LeaseError AuthorityWindow :=
  if received < sent then .error .clock
  else if leaseMs = 0 ∨ 30000 < leaseMs ∨ phaseMs = 0 ∨ 604800000 < phaseMs then .error .invalid
  else if leaseMs < 5000 then .error .expired
  else
    let deadline := sent + min (leaseMs - 5000) phaseMs * millisecond
    if maxDuration < deadline then .error .invalid
    else
      match remainingAt ⟨sent, deadline⟩ received with
      | .ok _ => .ok ⟨sent, deadline⟩
      | .error e => .error e

/-- The window has time left. -/
def isLive (w : AuthorityWindow) (now : MonoTime) : Bool := (w.remainingAt now).isOk

theorem isLive_iff {w : AuthorityWindow} {now : MonoTime} :
    w.isLive now = true ↔ w.sent ≤ now ∧ now < w.deadline := by
  unfold isLive remainingAt
  split_ifs with hclock hexpired
  · simp [Except.isOk, Except.toBool, not_le.mpr hclock]
  · simp [Except.isOk, Except.toBool, not_lt.mpr hexpired]
  · simp [Except.isOk, Except.toBool, not_lt.mp hclock, not_le.mp hexpired]

/-- The five seconds that are taken off the lease. -/
theorem margin_le (sent leaseMs phaseMs : ℕ) (h : 5000 ≤ leaseMs) :
    sent + min (leaseMs - 5000) phaseMs * millisecond + 5 * second ≤
      sent + leaseMs * millisecond := by
  unfold millisecond second
  omega

/-- **A window starts at the request and ends five seconds early.** -/
theorem fromGrant_eq_ok {sent received : MonoTime} {leaseMs phaseMs : ℕ} {w : AuthorityWindow}
    (h : fromGrant sent received leaseMs phaseMs = .ok w) :
    w.sent = sent ∧ sent ≤ received ∧ leaseMs ≤ 30000 ∧
      w.deadline + 5 * second ≤ sent + leaseMs * millisecond := by
  unfold fromGrant at h
  split_ifs at h with hclock hbounds hshort
  simp only at h
  split_ifs at h
  split at h
  · obtain rfl := Except.ok.inj h
    refine ⟨rfl, not_lt.mp hclock, by omega, ?_⟩
    exact margin_le sent leaseMs phaseMs (not_lt.mp hshort)
  · exact absurd h (by simp)

end AuthorityWindow

/-! ## Renewals -/

/-- The status codes of the control plane's RPC layer. -/
inductive RpcCode where
  | aborted
  | alreadyExists
  | cancelled
  | deadlineExceeded
  | failedPrecondition
  | internal
  | invalidArgument
  | notFound
  | permissionDenied
  | resourceExhausted
  | unauthenticated
  | unavailable
  deriving DecidableEq, Repr

/-- Why a call of the control plane failed. -/
inductive ClientError where
  | configuration
  | connection
  | deadline
  | response
  | clock
  | random
  | rpc (code : RpcCode) (message : String)
  deriving DecidableEq, Repr

/-- What a worker makes of one member of a renewal. -/
inductive RenewalOutcome where
  | renewed (identity : AttemptAuthority) (authority : AuthorityWindow)
  | rejected (identity : AttemptAuthority) (decision : Decision)
  | expired (identity : AttemptAuthority)
  deriving DecidableEq, Repr

/-- One member of `decode_renewals`. -/
def decodeRenewal (sent received : MonoTime) (g : LeaseResult) (expected : AttemptAuthority) :
    Except ClientError RenewalOutcome :=
  if g.authority ≠ expected then .error .response
  else if g.decision = .accepted then
    match AuthorityWindow.fromGrant sent received g.remainingMs g.phaseRemainingMs with
    | .ok window => .ok (.renewed g.authority window)
    | .error .expired => .ok (.expired g.authority)
    | .error .clock => .error .clock
    | .error .invalid => .error .response
  else if g.remainingMs = 0 ∧ g.phaseRemainingMs = 0 then .ok (.rejected g.authority g.decision)
  else .error .response

/-- **`decode_renewals`**: the results must answer the members in order. -/
def decodeRenewals (attempts : List AttemptAuthority) (results : List LeaseResult)
    (sent received : MonoTime) : Except ClientError (List RenewalOutcome) :=
  if results.length ≠ attempts.length then .error .response
  else (results.zip attempts).mapM (fun x => decodeRenewal sent received x.1 x.2)

/-- A renewed member was accepted, and its window is the one of its result. -/
theorem decodeRenewal_renewed {sent received : MonoTime} {g : LeaseResult}
    {expected identity : AttemptAuthority} {window : AuthorityWindow}
    (h : decodeRenewal sent received g expected = .ok (.renewed identity window)) :
    g.authority = identity ∧ g.decision = .accepted ∧
      AuthorityWindow.fromGrant sent received g.remainingMs g.phaseRemainingMs = .ok window := by
  unfold decodeRenewal at h
  split_ifs at h with hauthority haccepted hnothing
  · split at h
    · rename_i w hw
      obtain ⟨rfl, rfl⟩ := RenewalOutcome.renewed.inj (Except.ok.inj h)
      exact ⟨rfl, haccepted, hw⟩
    all_goals exact absurd h (by simp)
  · exact absurd (Except.ok.inj h) (by simp)

end Dispatch
