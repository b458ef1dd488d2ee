import Dispatch.Store.Recovery

/-!
# Registration and heartbeats

A worker process registers a session, replacing the one before it through
recovery, and then reports its health and its containers. Registration makes
an identity, not a right to run: the host becomes eligible only by a heartbeat
that shows no unknown container, no lost attempt and no reservation whose
physical end is still unproven. A heartbeat is also where quarantined
capacity of earlier sessions comes back.
-/

namespace Dispatch

open Txn

/-! ## Registration -/

/-- A request to begin a session. -/
structure Registration where
  requestID : Uuid
  claims : RegistrationClaims
  deriving DecidableEq

/-- What a registration is answered. -/
structure Session where
  workerID : Uuid
  sessionID : Uuid
  generation : ℕ
  cleanupRequired : Bool
  deriving DecidableEq, Repr

/-- `unicode.IsControl`. -/
def isControl (c : Char) : Bool :=
  decide (c.toNat < 32) || (decide (127 ≤ c.toNat) && decide (c.toNat < 160))

/-- `validateWorkerConfiguration`: resources, slots and labels within their bounds.
-/
def validateWorkerConfiguration (r : Resources) (slots : ℤ) (labels : Table String String) :
    Bool :=
  between r.cpuMillis 1 1024000 && between r.memoryMiB 1 16777216 &&
    between r.scratchMiB 1 1073741824 && between slots 1 1000 &&
    decide (labels.entries.length ≤ 64) && decide (labels.lookup "os" = some "linux") &&
    (decide (labels.lookup "architecture" = some "amd64") ||
      decide (labels.lookup "architecture" = some "arm64")) &&
    labels.entries.all (fun e => namePattern e.1 && decide (0 < e.2.utf8ByteSize) &&
      decide (e.2.utf8ByteSize ≤ 256) && !e.2.toList.any isControl)

/-- The capabilities a worker may claim. -/
def knownCapabilities : List String :=
  ["docker.v1", "cpu.hard", "memory.hard", "pids.hard", "scratch.soft", "scratch.quota"]

/-- Distinct known capabilities, the four hard ones and exactly one scratch
mode. -/
def validCapabilities (caps : List String) : Bool :=
  decide (5 ≤ caps.length) && decide (caps.length ≤ 6) && decide caps.Nodup &&
    caps.all (fun c => decide (c ∈ knownCapabilities)) &&
    ["docker.v1", "cpu.hard", "memory.hard", "pids.hard"].all (fun c => decide (c ∈ caps)) &&
    decide (("scratch.soft" ∈ caps) ≠ ("scratch.quota" ∈ caps))

/-- The identity of a registration: its claims, capabilities sorted. -/
def Registration.hash (r : Registration) : Except StoreError RegistrationClaims := do
  require (canonicalUUID r.requestID ∧ canonicalUUID r.claims.sessionID ∧
    r.claims.protocolVersion = 1) .invalid
  require (validateWorkerConfiguration r.claims.resources r.claims.slots r.claims.labels) .invalid
  require (validCapabilities r.claims.capabilities) .invalid
  pure { r.claims with capabilities := r.claims.capabilities.insertionSort (· ≤ ·) }

/-- `maps.Equal`. -/
def sameLabels (a b : Table String String) : Bool :=
  decide (a.entries.length = b.entries.length) &&
    a.entries.all (fun e => decide (b.lookup e.1 = some e.2))

/-- `recordRegistration`: the request becomes an alias of its session. -/
def Store.recordRegistration (s : Store) (worker request : Uuid) (hash : RegistrationClaims) :
    Store :=
  if (s.registrations.lookup (worker, request)).isSome then s
  else { s with registrations := AList.insert (worker, request) hash s.registrations }

/-- `COALESCE(max(generation),0)+1` over the sessions of a worker. -/
def nextGeneration (s : Store) (worker : Uuid) : ℕ :=
  ((s.sessions.select (fun _ ss => decide (ss.worker = worker))).map
    (fun x => x.2.generation)).foldr max 0 + 1

/-- The new session's claims on the worker row. -/
def WorkerRow.register (w : WorkerRow) (now : Time) (c : RegistrationClaims) : WorkerRow :=
  { w with
    currentSession := some c.sessionID
    state := .registering
    reconciliationComplete := false
    runtimeHealthy := false
    diskPressure := false
    lastHeartbeat := some now
    resources := c.resources
    slots := c.slots
    capabilities := c.capabilities }

/-- The insertion of a new session and its claims. -/
def installSession (s : Store) (now : Time) (worker request : Uuid) (hash : RegistrationClaims) :
    Except StoreError (Store × Session) := do
  let generation := nextGeneration s worker
  let sessions ← orThrow (s.sessions.insertNew hash.sessionID
    ⟨worker, generation, now, none, hash, 0, none, none⟩) .conflict
  let installed := { s with
    sessions := sessions
    workers := s.workers.modify worker (·.register now hash) }
  pure (installed.recordRegistration worker request hash,
    ⟨worker, hash.sessionID, generation, true⟩)

/-- **Registration of a session.** -/
def registerSession (sha : Uuid → ℕ) (s : Store) (now : Time) (id : WorkerIdentity)
    (r : Registration) : Except StoreError (Store × Session) := do
  let hash ← r.hash
  require (canonicalUUID id.workerID ∧ canonicalUUID id.credentialID) .unauthorized
  authorizeWorkerTx s id
  let w ← orThrow (s.workers.lookup id.workerID) .database
  let c := r.claims
  require (c.resources.cpuMillis ≤ w.limit.cpuMillis ∧ c.resources.memoryMiB ≤ w.limit.memoryMiB ∧
    c.resources.scratchMiB ≤ w.limit.scratchMiB ∧ c.slots ≤ w.slotLimit ∧
    sameLabels c.labels w.limitLabels) .invalid
  require (∀ saved ∈ s.registrations.lookup (id.workerID, r.requestID), saved = hash) .conflict
  match s.sessions.lookup c.sessionID with
  | some ss =>
    if ss.worker = id.workerID then
      require (ss.fencedAt = none ∧ w.currentSession = some c.sessionID) .fenced
      require (ss.registrationHash = hash) .conflict
      pure (s.recordRegistration id.workerID r.requestID hash,
        ⟨id.workerID, c.sessionID, ss.generation, !w.reconciliationComplete⟩)
    else
      -- The id belongs to another worker: the insertion below violates the key.
      throw .conflict
  | none =>
    match w.currentSession with
    | some current =>
      let recovered ← recoverSession sha s now id.workerID current c.sessionID
      installSession recovered now id.workerID r.requestID hash
    | none => installSession s now id.workerID r.requestID hash

/-! ## Heartbeats -/

/-- A heartbeat of a session. -/
structure HeartbeatReport where
  requestID : Uuid
  claims : HeartbeatClaims
  deriving DecidableEq, Repr

/-- What a heartbeat is answered: whether to drain or to reconcile, and what to
stop. -/
structure HeartbeatResult where
  drain : Bool
  reconcile : Bool
  stop : List AttemptAuthority
  deriving DecidableEq, Repr

/-- Every record names this worker and a distinct container. -/
def validInventory (worker : Uuid) (inventory : List ExecutionRecord) : Bool :=
  decide (inventory.map ExecutionRecord.containerID).Nodup &&
    inventory.all (fun r =>
      let a := r.authority
      decide (a.workerID = worker) && canonicalUUID a.jobID && canonicalUUID a.attemptID &&
        canonicalUUID a.sessionID && decide (1 ≤ a.generation) && hashPattern r.containerID)

/-- The claims of a heartbeat in normal form, of which the source keeps the hash. -/
def HeartbeatReport.hash (h : HeartbeatReport) (worker : Uuid) :
    Except StoreError HeartbeatClaims := do
  require (canonicalUUID h.requestID ∧ canonicalUUID h.claims.sessionID ∧ 1 ≤ h.claims.sequence ∧
    h.claims.inventory.length ≤ 1024) .invalid
  require (validInventory worker h.claims.inventory) .invalid
  pure { h.claims with
    inventory := h.claims.inventory.insertionSort (fun a b => a.containerID ≤ b.containerID) }

/-- What a heartbeat reads of an attempt, its job and its session. -/
structure HeartbeatAttempt where
  authority : AttemptAuthority
  state : AttemptState
  reservation : ReservationState
  leaseExpiry : Time
  current : Option Uuid
  fenced : Option Time
  cancelled : Bool
  deriving DecidableEq, Repr

/-- The attempt still has the authority its container runs under. -/
def HeartbeatAttempt.authorized (a : HeartbeatAttempt) (session : Uuid) (now : Time) : Bool :=
  a.state.isActive && decide (a.current = some a.authority.attemptID) &&
    decide (a.authority.sessionID = session) && a.fenced.isNone &&
    decide (now < a.leaseExpiry) && !a.cancelled

/-- The row of the heartbeat query for one attempt. -/
def heartbeatAttempt (s : Store) (id : Uuid) (a : AttemptRow) : Option HeartbeatAttempt := do
  let j ← s.jobs.lookup a.job
  let r ← s.reservations.lookup id
  let ss ← s.sessions.lookup a.session
  pure ⟨a.authority id, a.state, r.state, a.leaseExpiresAt, j.currentAttempt, ss.fencedAt,
    j.cancelRequested⟩

/-- The attempts a heartbeat looks at: the worker's active and quarantined
ones, and those it reports. -/
def heartbeatAttempts (s : Store) (worker : Uuid) (inventory : List ExecutionRecord) :
    List HeartbeatAttempt :=
  (s.attempts.select (fun _ a => decide (a.worker = worker))).filterMap (fun (id, a) =>
    (heartbeatAttempt s id a).filter (fun h => h.state.isActive ||
      decide (h.reservation = .quarantined) ||
      decide (id ∈ inventory.map (fun r => r.authority.attemptID))))

/-- The order of the stop list: by attempt, session, generation and job. -/
def stopOrder (a b : AttemptAuthority) : Bool :=
  if a.attemptID ≠ b.attemptID then decide (a.attemptID < b.attemptID)
  else if a.sessionID ≠ b.sessionID then decide (a.sessionID < b.sessionID)
  else if a.generation ≠ b.generation then decide (a.generation < b.generation)
  else decide (a.jobID ≤ b.jobID)

/-- The authorities a heartbeat asks to stop: containers without authority,
and active attempts that lost it. -/
def stopSet (attempts : List HeartbeatAttempt) (inventory : List ExecutionRecord)
    (session : Uuid) (now : Time) : List AttemptAuthority :=
  let reported := inventory.filter (fun r =>
    !attempts.any (fun a => decide (a.authority = r.authority) && a.authorized session now))
  let lost := attempts.filter (fun a => a.state.isActive && !a.authorized session now)
  ((reported.map ExecutionRecord.authority
    ++ lost.map HeartbeatAttempt.authority).dedup).insertionSort (fun a b => stopOrder a b)

/-- Something about the report has to be cleared up before the host is
trusted. -/
def reportUnclear (attempts : List HeartbeatAttempt) (c : HeartbeatClaims) (now : Time) : Bool :=
  !c.reconciliationComplete ||
    attempts.any (fun a => decide (a.state = .running) &&
      !(c.inventory.any (fun r => decide (r.authority.attemptID = a.authority.attemptID)))) ||
    !(stopSet attempts c.inventory c.sessionID now).isEmpty

/-- A quarantined reservation whose attempt an earlier, fenced session ran. -/
def releasable (c : HeartbeatClaims) (a : HeartbeatAttempt) : Bool :=
  decide (a.reservation = .quarantined) && decide (a.authority.sessionID ≠ c.sessionID) &&
    a.fenced.isSome && !a.state.isActive

/-- The attempts whose capacity a report gives back. -/
def releasedAttempts (attempts : List HeartbeatAttempt) (c : HeartbeatClaims) (replay : Bool)
    (now : Time) : List Uuid :=
  if !replay && c.runtimeHealthy && !reportUnclear attempts c now then
    (attempts.filter (releasable c)).map (fun a => a.authority.attemptID)
  else []

/-- Quarantined capacity that the report leaves quarantined. -/
def quarantineLeft (attempts : List HeartbeatAttempt) (released : List Uuid) : Bool :=
  attempts.any (fun a => decide (a.reservation = .quarantined) &&
    decide (a.authority.attemptID ∉ released))

/-- The state of a worker after a report. -/
def reportedState (c : HeartbeatClaims) (reconciled drain : Bool) : WorkerState :=
  if !c.runtimeHealthy || c.diskPressure then .quarantined
  else if !reconciled then .registering
  else if drain then .draining
  else .ready

/-- `UPDATE reservations … released` and `UPDATE attempts … cleanup_pending`
for the attempts released. -/
def Store.release (s : Store) (released : List Uuid) : Store :=
  { s with
    reservations := s.reservations.update (fun id r =>
      if id ∈ released then { r with state := .released } else r)
    attempts := s.attempts.update (fun id a =>
      if id ∈ released then { a with cleanupPending := false } else a) }

/-- **A heartbeat.** -/
def recordHeartbeat (s : Store) (now : Time) (id : WorkerIdentity) (h : HeartbeatReport) :
    Except StoreError (Store × HeartbeatResult) := do
  require (canonicalUUID id.workerID ∧ canonicalUUID id.credentialID) .unauthorized
  let hash ← h.hash id.workerID
  authorizeWorkerTx s id
  let c := h.claims
  let attempts := heartbeatAttempts s id.workerID c.inventory
  let w ← orThrow (s.workers.lookup id.workerID) .fenced
  let ss ← orThrow (s.sessions.lookup c.sessionID) .fenced
  require (isCurrentSession s id.workerID c.sessionID) .fenced
  require (ss.heartbeatSequence ≤ c.sequence) .staleHeartbeat
  let replay := decide (c.sequence = ss.heartbeatSequence)
  require (replay → ss.heartbeatRequest = some h.requestID ∧ ss.heartbeatHash = some hash) .conflict
  let stop := stopSet attempts c.inventory c.sessionID now
  let released := releasedAttempts attempts c replay now
  let needsReconcile := reportUnclear attempts c now || quarantineLeft attempts released
  if replay then
    pure (s, ⟨w.drainRequested || decide (w.state ≠ .ready),
      !w.reconciliationComplete || needsReconcile, stop⟩)
  else
    let reconciled := !needsReconcile && c.runtimeHealthy
    let state := reportedState c reconciled w.drainRequested
    let freed := s.release released
    pure ({ freed with
        sessions := s.sessions.modify c.sessionID (fun ss => { ss with
          heartbeatSequence := c.sequence
          heartbeatRequest := some h.requestID
          heartbeatHash := some hash })
        workers := s.workers.modify id.workerID (fun w => { w with
          state := state
          reconciliationComplete := reconciled
          runtimeHealthy := c.runtimeHealthy
          diskPressure := c.diskPressure
          lastHeartbeat := some now }) },
      ⟨w.drainRequested || decide (state ≠ .ready), !reconciled || needsReconcile, stop⟩)

/-- What a first report of its number releases. -/
def HeartbeatReport.released (h : HeartbeatReport) (s : Store) (now : Time) (worker : Uuid) :
    List Uuid :=
  releasedAttempts (heartbeatAttempts s worker h.claims.inventory) h.claims false now

/-- A first report of its number clears the host. -/
def HeartbeatReport.reconciled (h : HeartbeatReport) (s : Store) (now : Time) (worker : Uuid) :
    Bool :=
  !(reportUnclear (heartbeatAttempts s worker h.claims.inventory) h.claims now ||
    quarantineLeft (heartbeatAttempts s worker h.claims.inventory) (h.released s now worker)) &&
    h.claims.runtimeHealthy

/-- The writes of a first report of its number. -/
def Store.report (s : Store) (now : Time) (worker : Uuid) (h : HeartbeatReport)
    (hash : HeartbeatClaims) (drain : Bool) : Store :=
  { s.release (h.released s now worker) with
    sessions := s.sessions.modify h.claims.sessionID (fun ss => { ss with
      heartbeatSequence := h.claims.sequence
      heartbeatRequest := some h.requestID
      heartbeatHash := some hash })
    workers := s.workers.modify worker (fun w => { w with
      state := reportedState h.claims (h.reconciled s now worker) drain
      reconciliationComplete := h.reconciled s now worker
      runtimeHealthy := h.claims.runtimeHealthy
      diskPressure := h.claims.diskPressure
      lastHeartbeat := some now }) }

/-- **What a heartbeat does**: it comes from the current session, and it
repeats the last report and changes nothing or is the first of its number. -/
theorem recordHeartbeat_cases {s s' : Store} {now : Time} {id : WorkerIdentity}
    {h : HeartbeatReport} {result : HeartbeatResult}
    (hok : recordHeartbeat s now id h = .ok (s', result)) :
    ∃ w ss hash, s.workers.lookup id.workerID = some w ∧
      s.sessions.lookup h.claims.sessionID = some ss ∧
      isCurrentSession s id.workerID h.claims.sessionID = true ∧ h.hash id.workerID = .ok hash ∧
      (s' = s ∧ h.claims.sequence = ss.heartbeatSequence ∨
        ss.heartbeatSequence < h.claims.sequence ∧
          s' = s.report now id.workerID h hash w.drainRequested) := by
  simp only [recordHeartbeat, bind_ok, orThrow_ok, require_ok] at hok
  obtain ⟨-, -, hash, hhash, -, -, w, hw, ss, hss, -, hcurrent, -, hle, -, -, hok⟩ := hok
  refine ⟨w, ss, hash, hw, hss, hcurrent, hhash, ?_⟩
  split_ifs at hok with hreplay
  · obtain ⟨rfl, -⟩ := pure_pair_ok.mp hok
    exact .inl ⟨rfl, of_decide_eq_true hreplay⟩
  · obtain ⟨rfl, -⟩ := pure_pair_ok.mp hok
    rw [Bool.not_eq_true] at hreplay
    refine .inr ⟨lt_of_le_of_ne hle fun heq => of_decide_eq_false hreplay heq.symm, ?_⟩
    simp only [hreplay]
    rfl

/-! ## Drain -/

/-- An operator of a project the worker serves asks it to drain. The
operator's token is checked before the transaction is modelled. -/
def requestWorkerDrain (s : Store) (project worker : Uuid) : Except StoreError Store := do
  let p ← orThrow (s.projects.lookup project) .unauthorized
  require (p.enabled = true) .unauthorized
  let w ← orThrow (s.workers.lookup worker) .notFound
  require (s.workerProjects.lookup (worker, project)).isSome .notFound
  if w.drainRequested then pure s
  else pure { s with
    workers := s.workers.modify worker (fun w => { w with
      drainRequested := true
      state := if w.state = .ready then .draining else w.state }) }

end Dispatch
