import Dispatch.Admission.Keys
import Dispatch.Lib.Once

/-!
# Concurrent submissions

Jobs and sweeps are submitted in transactions that take no cluster lock, so any
number of them run at once. Each reads its project's row under a shared lock,
which no change of the project gets past, and inserts its key. An insert of a
key that another open transaction has inserted waits for that transaction to
end; an insert of a committed key does nothing, and the transaction goes on to
read what the key names. Whatever else a transaction wrote is seen by others
only when it commits, and disappears with it when it does not.

`Desk` is the store with the transactions that are open and the readers that
have found their key and have yet to read the children. `Desk.Step` lets them
interleave with each other, with retries of sweeps, which do run under the
cluster lock, and with every other transaction. The answers that were given are
recorded; no step reads that record. The discipline the answers follow is
`Once`.
-/

namespace Dispatch

open Txn

variable {sha : Uuid → ℕ} {now : Time} {s s' : Store}

variable {x : Uuid × ProjectRow} {reply : Reply} {id : Uuid}

/-! ## Submissions -/

/-- A request to submit a job or a sweep. -/
inductive Submission where
  | job (id : Uuid) (key requestHash : String) (job : Job) (bindings : List DatasetBinding)
  | sweep (id : Uuid) (fresh : ℕ → Uuid) (key requestHash : String) (sweep : Sweep)
      (bindings : List DatasetBinding)

namespace Submission

/-- The transaction as a whole. -/
def op : Submission → Op
  | .job id key requestHash document bindings => .submitJob id key requestHash document bindings
  | .sweep id fresh key requestHash document bindings =>
    .submitSweep id fresh key requestHash document bindings

/-- The project a submission is for, by its name. -/
def projectName : Submission → String
  | .job _ _ _ document _ => document.metadata.project
  | .sweep _ _ _ _ document _ => document.metadata.project

/-- The endpoint a submission comes in at. -/
def endpoint : Submission → Endpoint
  | .job .. => .jobs
  | .sweep .. => .sweeps

/-- The idempotency key of a submission. -/
def key : Submission → String
  | .job _ key _ _ _ => key
  | .sweep _ _ key _ _ _ => key

/-- The hash of a submission's body. -/
def requestHash : Submission → String
  | .job _ _ requestHash _ _ => requestHash
  | .sweep _ _ _ requestHash _ _ => requestHash

/-- What is checked before the transaction begins. -/
def check : Submission → Except StoreError Unit
  | .job _ key requestHash document bindings => do
    require (validKey key ∧ hashPattern requestHash) .invalid
    require document.isValid .invalid
    require (resolved document bindings) .invalid
  | .sweep _ _ key requestHash document bindings => do
    require (validKey key ∧ hashPattern requestHash) .invalid
    let _ ← orThrow document.expand.toOption .invalid
    require (resolved document.jobTemplate bindings) .invalid

/-- What the key of the request names; its children are read by a statement of
their own. -/
def find (s : Store) : Submission → Except StoreError Uuid
  | .job _ key requestHash document _ => do
    let record ← lookupSubmission s document.metadata.project key requestHash
    pure record.id
  | .sweep _ _ key requestHash document _ => do
    let record ← lookupSweepSubmission s document.metadata.project key requestHash
    pure record.id

variable {r : Submission}

theorem op_submits (r : Submission) : r.op.submits = true := by cases r <;> rfl

theorem op_keyed (h : projectNamed s r.projectName = some x) :
    r.op.keyed s = some ((x.1, r.endpoint, r.key), r.requestHash) := by
  cases r <;> exact congrArg (Option.map _) h

/-- A submission that succeeds has passed its checks. -/
theorem check_of_exec (h : r.op.exec sha s now = .ok (s', reply)) :
    r.check = .ok () := by
  cases r with
  | job id key requestHash document bindings =>
    simp only [op, Op.exec, submitJobResolved, bind_ok, require_ok] at h
    obtain ⟨_, ⟨-, hkey, -, hvalid, -, hresolved, -⟩, -⟩ := h
    simp only [check, bind_ok, require_ok]
    exact ⟨(), hkey, (), hvalid, hresolved⟩
  | sweep id fresh key requestHash document bindings =>
    simp only [op, Op.exec, submitSweepResolved, bind_ok, require_ok] at h
    obtain ⟨_, ⟨-, hkey, children, hexpand, -, hresolved, -⟩, -⟩ := h
    simp only [check, bind_ok, require_ok]
    exact ⟨(), hkey, children, hexpand, hresolved⟩

/-- **What a request finds under a key that was saved**: what the key names if
its hash is that of the first request, and a conflict otherwise. -/
theorem find_saved {saved : IdempotencyRow}
    (hproject : projectNamed s r.projectName = some x)
    (hsaved : s.idempotency.lookup (x.1, r.endpoint, r.key) = some saved)
    (hmade : s.Made (x.1, r.endpoint, r.key) saved.response) :
    r.find s = if saved.requestHash = r.requestHash then .ok saved.response
      else .error .conflict := by
  cases r with
  | job id key requestHash document bindings =>
    obtain ⟨j, hj⟩ := Option.ne_none_iff_exists'.mp hmade
    have hproject' : projectNamed s document.metadata.project = some x := hproject
    have hsaved' : s.idempotency.lookup (x.1, .jobs, key) = some saved := hsaved
    simp only [find, lookupSubmission, hproject', orThrow_some, ok_bind, hsaved', hj, require,
      Submission.requestHash]
    by_cases hhash : saved.requestHash = requestHash
    · simp only [if_pos hhash]
      exact (if_pos hhash).symm
    · simp only [if_neg hhash]
      exact (if_neg hhash).symm
  | sweep id fresh key requestHash document bindings =>
    obtain ⟨row, hrow⟩ := Option.ne_none_iff_exists'.mp hmade
    have hproject' : projectNamed s document.metadata.project = some x := hproject
    have hsaved' : s.idempotency.lookup (x.1, .sweeps, key) = some saved := hsaved
    simp only [find, lookupSweepSubmission, hproject', orThrow_some, ok_bind, hsaved', hrow,
      require, Submission.requestHash]
    by_cases hhash : saved.requestHash = requestHash
    · simp only [if_pos hhash]
      exact (if_pos hhash).symm
    · simp only [if_neg hhash]
      exact (if_neg hhash).symm

/-- What is found is what the key names. -/
theorem find_eq_ok
    (hproject : projectNamed s r.projectName = some x) (h : r.find s = .ok id) :
    s.idempotency.lookup (x.1, r.endpoint, r.key) = some ⟨r.requestHash, id⟩ := by
  cases r with
  | job id key requestHash document bindings =>
    simp only [find, bind_ok, pure_ok] at h
    obtain ⟨record, hrecord, rfl⟩ := h
    exact (Store.receipt_eq_some.mp (lookupSubmission_receipt hproject hrecord).2).1
  | sweep id fresh key requestHash document bindings =>
    simp only [find, bind_ok, pure_ok] at h
    obtain ⟨record, hrecord, rfl⟩ := h
    exact (Store.receipt_eq_some.mp (lookupSweepSubmission_receipt hproject hrecord).2).1

end Submission

/-! ## The desk -/

/-- How far a transaction has come: it has read its project, it has inserted its
key, or it has found its key committed. -/
inductive Stage where
  | reading
  | holding
  | refused
  deriving DecidableEq

/-- A submission between its first statement and its end, with the row of its
project. -/
structure Transaction where
  request : Submission
  project : Uuid × ProjectRow
  stage : Stage

/-- The key of a transaction: its project, its endpoint and the idempotency key it
was sent with. -/
def Transaction.key (t : Transaction) : Uuid × Endpoint × String :=
  (t.project.1, t.request.endpoint, t.request.key)

/-- The keys that open transactions have inserted. -/
def heldKeys (ts : Multiset Transaction) : Multiset (Uuid × Endpoint × String) :=
  (ts.filter (fun t => t.stage = .holding)).map Transaction.key

/-- A request that has found what its key names. -/
structure Reader where
  key : Uuid × Endpoint × String
  requestHash : String
  id : Uuid
  deriving DecidableEq

/-- **The store and the submissions under way.** -/
structure Desk where
  world : World
  transactions : Multiset Transaction
  readers : Multiset Reader
  answers : List (Once.Answer (Uuid × Endpoint × String) Receipt)

/-- **One step of the desk**: a commit of something else, a retry, or one statement
of a submission under way. -/
inductive Desk.Step (sha : Uuid → ℕ) : Desk → Desk → Prop where
  /-- A transaction that submits nothing commits. It does not get past the lock
  on the projects that submissions have read. -/
  | transact (d : Desk) (op : Op) (now : Time) (s' : Store) (reply : Reply)
      (hop : op.submits = false) (hle : d.world.clock ≤ now)
      (hexec : op.exec sha d.world.store now = .ok (s', reply))
      (hlocks : ∀ t ∈ d.transactions, projectNamed s' t.request.projectName = some t.project) :
      Step sha d { d with world := ⟨s', now⟩ }
  /-- A sweep is retried under the cluster lock. -/
  | retry (d : Desk) (id : Uuid) (fresh : ℕ → Uuid) (project sweep : Uuid) (key : String)
      (now : Time) (s' : Store) (record : SweepRetryRecord) (hle : d.world.clock ≤ now)
      (hexec : retrySweep d.world.store now id fresh project sweep key = .ok (s', record)) :
      Step sha d { d with
        world := ⟨s', now⟩
        answers := ⟨(project, .retry sweep, key),
          ⟨toString sweep, record.id, record.children.map Prod.fst⟩, !record.replayed⟩ ::
          d.answers }
  | begin (d : Desk) (request : Submission) (project : Uuid × ProjectRow)
      (hcheck : request.check = .ok ())
      (hproject : projectNamed d.world.store request.projectName = some project) :
      Step sha d { d with transactions := ⟨request, project, .reading⟩ ::ₘ d.transactions }
  /-- The insert of a key returns: no other open transaction has inserted it. -/
  | claim (w : World) (ts : Multiset Transaction) (readers : Multiset Reader)
      (answers : List (Once.Answer (Uuid × Endpoint × String) Receipt)) (t : Transaction)
      (hstage : t.stage = .reading) (hwait : t.key ∉ heldKeys ts) :
      Step sha ⟨w, t ::ₘ ts, readers, answers⟩
        ⟨w, { t with
          stage := if (w.store.idempotency.lookup t.key).isNone then .holding else .refused } ::ₘ
            ts,
          readers, answers⟩
  /-- The rest of the transaction succeeds, and it commits. -/
  | commit (w : World) (ts : Multiset Transaction) (readers : Multiset Reader)
      (answers : List (Once.Answer (Uuid × Endpoint × String) Receipt)) (t : Transaction)
      (now : Time) (s' : Store) (reply : Reply) (id : Uuid) (children : List Uuid)
      (hstage : t.stage = .holding) (hle : w.clock ≤ now)
      (hexec : t.request.op.exec sha w.store now = .ok (s', reply))
      (hnamed : reply.named = some (id, children)) :
      Step sha ⟨w, t ::ₘ ts, readers, answers⟩
        ⟨⟨s', now⟩, ts, readers, ⟨t.key, ⟨t.request.requestHash, id, children⟩, true⟩ :: answers⟩
  /-- A transaction that found its key committed reads what the key names. -/
  | replay (w : World) (ts : Multiset Transaction) (readers : Multiset Reader)
      (answers : List (Once.Answer (Uuid × Endpoint × String) Receipt)) (t : Transaction)
      (id : Uuid) (hstage : t.stage = .refused) (hfound : t.request.find w.store = .ok id) :
      Step sha ⟨w, t ::ₘ ts, readers, answers⟩
        ⟨w, ts, ⟨t.key, t.request.requestHash, id⟩ ::ₘ readers, answers⟩
  /-- The key is looked up outside of any transaction. -/
  | peek (d : Desk) (request : Submission) (project : Uuid × ProjectRow) (id : Uuid)
      (hproject : projectNamed d.world.store request.projectName = some project)
      (hfound : request.find d.world.store = .ok id) :
      Step sha d { d with
        readers := ⟨(project.1, request.endpoint, request.key), request.requestHash, id⟩ ::ₘ
          d.readers }
  /-- The children are read, and the request is answered. -/
  | answer (w : World) (ts : Multiset Transaction) (readers : Multiset Reader)
      (answers : List (Once.Answer (Uuid × Endpoint × String) Receipt)) (r : Reader) :
      Step sha ⟨w, ts, r ::ₘ readers, answers⟩
        ⟨w, ts, readers,
          ⟨r.key, ⟨r.requestHash, r.id, w.store.children r.key.2.1 r.id⟩, false⟩ :: answers⟩
  /-- A transaction ends without a commit, for whatever reason. -/
  | rollback (w : World) (ts : Multiset Transaction) (readers : Multiset Reader)
      (answers : List (Once.Answer (Uuid × Endpoint × String) Receipt)) (t : Transaction) :
      Step sha ⟨w, t ::ₘ ts, readers, answers⟩ ⟨w, ts, readers, answers⟩
  | lose (w : World) (ts : Multiset Transaction) (readers : Multiset Reader)
      (answers : List (Once.Answer (Uuid × Endpoint × String) Receipt)) (r : Reader) :
      Step sha ⟨w, ts, r ::ₘ readers, answers⟩ ⟨w, ts, readers, answers⟩

/-- Any number of steps. -/
abbrev Desk.Later (sha : Uuid → ℕ) : Desk → Desk → Prop :=
  Relation.ReflTransGen (Desk.Step sha)

/-- **What runs reach**: a provisioned control plane, and any number of
submissions and other transactions. -/
def Desk.Reachable (sha : Uuid → ℕ) (d : Desk) : Prop :=
  ∃ projects workers credentials workerProjects clock, Desk.Later sha
    ⟨⟨Store.provisioned projects workers credentials workerProjects, clock⟩, 0, 0, []⟩ d

/-- The keys of a desk. -/
def Desk.once (d : Desk) : Once (Uuid × Endpoint × String) Receipt where
  saved := d.world.store.receipt
  held := heldKeys d.transactions
  answers := d.answers

/-- **What holds at the desk.** -/
structure Desk.Sound (sha : Uuid → ℕ) (d : Desk) : Prop where
  reached : Dispatch.Reachable sha d.world
  locked : ∀ t ∈ d.transactions, projectNamed d.world.store t.request.projectName = some t.project
  refused : ∀ t ∈ d.transactions, t.stage = .refused → d.world.store.receipt t.key ≠ none
  readers : ∀ r ∈ d.readers, d.world.store.idempotency.lookup r.key = some ⟨r.requestHash, r.id⟩
  once : d.once.Sound

variable {d d' : Desk}

theorem heldKeys_holding {t : Transaction} (h : t.stage = .holding) (ts : Multiset Transaction) :
    heldKeys (t ::ₘ ts) = t.key ::ₘ heldKeys ts := by
  rw [heldKeys, Multiset.filter_cons_of_pos ts h, Multiset.map_cons]
  rfl

theorem heldKeys_free {t : Transaction} (h : t.stage ≠ .holding) (ts : Multiset Transaction) :
    heldKeys (t ::ₘ ts) = heldKeys ts := by
  rw [heldKeys, Multiset.filter_cons_of_neg ts h]
  rfl

/-- Submissions do not hold the keys of retries. -/
theorem retry_not_held (project sweep : Uuid) (key : String) (ts : Multiset Transaction) :
    (project, Endpoint.retry sweep, key) ∉ heldKeys ts := by
  intro hmem
  obtain ⟨t, -, hkey⟩ := Multiset.mem_map.mp hmem
  have hendpoint : t.request.endpoint = .retry sweep := congrArg (fun k => k.2.1) hkey
  cases hr : t.request <;> simp [hr, Submission.endpoint] at hendpoint

/-- Submissions leave the projects alone. -/
theorem Op.exec_projectNamed {op : Op} (hsubmits : op.submits = true)
    (hexec : op.exec sha s now = .ok (s', reply)) (name : String) :
    projectNamed s' name = projectNamed s name := by
  have hprojects : s'.projects = s.projects := by
    refine op.exec_writes hexec .projects ?_
    cases op with
    | submitJob | submitSweep | retrySweep => simp only [Op.footprint]; decide
    | _ => exact absurd hsubmits (by simp [Op.submits])
  rw [projectNamed, projectNamed, hprojects]

/-- **A transaction commits at the desk**, and what was promised stands. -/
theorem Desk.Sound.exec (h : d.Sound sha) {op : Op}
    (hle : d.world.clock ≤ now) (hexec : op.exec sha d.world.store now = .ok (s', reply))
    {ts : Multiset Transaction} {answers : List (Once.Answer (Uuid × Endpoint × String) Receipt)}
    (hts : ts ≤ d.transactions)
    (hlocked : ∀ t ∈ d.transactions, projectNamed s' t.request.projectName = some t.project)
    (honce : Once.Steps d.once ⟨s'.receipt, heldKeys ts, answers⟩) :
    Desk.Sound sha ⟨⟨s', now⟩, ts, d.readers, answers⟩ where
  reached := h.reached.step ⟨hle, op, reply, hexec⟩
  locked t ht := hlocked t (Multiset.mem_of_le hts ht)
  refused t ht hstage hnone := by
    obtain ⟨v, hv⟩ := Option.ne_none_iff_exists'.mp (h.refused t (Multiset.mem_of_le hts ht) hstage)
    exact absurd ((h.reached.receipt_stands hle hexec hv).symm.trans hnone) (by simp)
  readers r hr := h.reached.exec_extends hexec _ _ (h.readers r hr)
  once := honce.sound h.once

/-- A key that an open transaction has inserted is not committed. -/
theorem Desk.Sound.uncommitted (h : d.Sound sha) {t : Transaction} (ht : t ∈ d.transactions)
    (hstage : t.stage = .holding) : d.world.store.receipt t.key = none :=
  h.once.free t.key (Multiset.mem_map_of_mem _ (Multiset.mem_filter.mpr ⟨ht, hstage⟩))

/-- **A transaction that holds its key makes** what its request is answered
with. -/
theorem Desk.Sound.makes (h : d.Sound sha) {t : Transaction} (ht : t ∈ d.transactions)
    (hstage : t.stage = .holding) {children : List Uuid}
    (hexec : t.request.op.exec sha d.world.store now = .ok (s', reply))
    (hnamed : reply.named = some (id, children)) :
    d.world.store.Makes s' t.key ⟨t.request.requestHash, id, children⟩ := by
  obtain ⟨key, requestHash, id', children', replayed, hkey, hnamed', hserves⟩ :=
    h.reached.exec_serves h.reached.keyed hexec t.request.op_submits
  obtain ⟨rfl, rfl⟩ := Prod.mk.inj (Option.some.inj
    ((Submission.op_keyed (h.locked t ht)).symm.trans hkey))
  obtain ⟨rfl, rfl⟩ := Prod.mk.inj (Option.some.inj (hnamed.symm.trans hnamed'))
  obtain ⟨-, -, hreceipt⟩ | ⟨-, hmakes⟩ := hserves
  · exact absurd (hreceipt.symm.trans (h.uncommitted ht hstage)) (by simp)
  · exact hmakes

/-- **A retry is answered** like any other request. -/
theorem Desk.Sound.retried (h : d.Sound sha) {project sweep : Uuid} {fresh : ℕ → Uuid}
    {key : String} {record : SweepRetryRecord} (hle : d.world.clock ≤ now)
    (hexec : retrySweep d.world.store now id fresh project sweep key = .ok (s', record)) :
    Once.Steps d.once ⟨s'.receipt, heldKeys d.transactions, ⟨(project, .retry sweep, key),
      ⟨toString sweep, record.id, record.children.map Prod.fst⟩, !record.replayed⟩ ::
      d.answers⟩ := by
  have hop : (Op.retrySweep id fresh project sweep key).exec sha d.world.store now
      = .ok (s', .sweepRetry record) := by
    rw [Op.exec, hexec]
    rfl
  have hserves := retrySweep_serves (fun _ _ _ hnone => h.reached.not_child hnone)
    (h.reached.keyed.retries project sweep key) hexec
  obtain ⟨hreplayed, rfl, hreceipt⟩ | ⟨hreplayed, hmakes⟩ := hserves
  · rw [hreplayed]
    exact .single (.read _ _ _ _ _ hreceipt)
  · rw [hreplayed, h.reached.receipt_made hle hop hmakes]
    -- Under the cluster lock the key is claimed and saved at once.
    exact .tail (.single (.claim _ _ _ _ (Store.receipt_eq_none.mpr hmakes.free)
      (retry_not_held project sweep key d.transactions))) (.save _ _ _ _ _)

/-- The insert of a key, on the keys. -/
theorem Desk.claim_steps (w : World) (ts : Multiset Transaction) (readers : Multiset Reader)
    (answers : List (Once.Answer (Uuid × Endpoint × String) Receipt)) {t : Transaction}
    (hstage : t.stage = .reading) (hwait : t.key ∉ heldKeys ts) :
    Once.Steps (Desk.once ⟨w, t ::ₘ ts, readers, answers⟩) (Desk.once ⟨w, { t with
      stage := if (w.store.idempotency.lookup t.key).isNone then .holding else .refused } ::ₘ ts,
      readers, answers⟩) := by
  have hbefore : heldKeys (t ::ₘ ts) = heldKeys ts := heldKeys_free (by simp [hstage]) ts
  simp only [Desk.once, hbefore]
  split_ifs with hfree
  · have hheld : heldKeys ({ t with stage := .holding } ::ₘ ts) = t.key ::ₘ heldKeys ts :=
      heldKeys_holding (t := { t with stage := .holding }) rfl ts
    rw [hheld]
    exact .single (.claim _ _ _ _ (Store.receipt_eq_none.mpr (Option.isNone_iff_eq_none.mp hfree))
      hwait)
  · have hheld : heldKeys ({ t with stage := .refused } ::ₘ ts) = heldKeys ts :=
      heldKeys_free (t := { t with stage := .refused }) (by simp) ts
    rw [hheld]
    exact .refl

/-- **Every step keeps the promises.** -/
theorem Desk.Step.sound (hstep : Desk.Step sha d d') (h : d.Sound sha) : d'.Sound sha := by
  cases hstep with
  | transact _ op now s' reply hop hle hexec hlocks =>
    refine h.exec hle hexec le_rfl hlocks ?_
    rw [h.reached.receipt_same hle hexec hop]
    exact .refl
  | retry _ id fresh project sweep key now s' record hle hexec =>
    have hop : (Op.retrySweep id fresh project sweep key).exec sha d.world.store now
        = .ok (s', .sweepRetry record) := by
      rw [Op.exec, hexec]
      rfl
    exact h.exec hle hop le_rfl (fun t ht => (Op.exec_projectNamed rfl hop _).trans (h.locked t ht))
      (h.retried hle hexec)
  | begin _ request project hcheck hproject =>
    refine ⟨h.reached, fun t ht => ?_, fun t ht hstage => ?_, h.readers, ?_⟩
    · obtain rfl | ht := Multiset.mem_cons.mp ht
      · exact hproject
      · exact h.locked t ht
    · obtain rfl | ht := Multiset.mem_cons.mp ht
      · exact absurd hstage (by simp)
      · exact h.refused t ht hstage
    · have hheld := heldKeys_free (t := ⟨request, project, .reading⟩) (by simp) d.transactions
      simp only [Desk.once, hheld]
      exact h.once
  | claim w ts readers answers t hstage hwait =>
    refine ⟨h.reached, fun t' ht' => ?_, fun t' ht' hrefused => ?_, h.readers,
      (Desk.claim_steps w ts readers answers hstage hwait).sound h.once⟩
    · obtain rfl | ht' := Multiset.mem_cons.mp ht'
      · exact h.locked t (Multiset.mem_cons_self t ts)
      · exact h.locked t' (Multiset.mem_cons_of_mem ht')
    · obtain rfl | ht' := Multiset.mem_cons.mp ht'
      · intro hnone
        have hfree : w.store.idempotency.lookup t.key = none := Store.receipt_eq_none.mp hnone
        simp [hfree] at hrefused
      · exact h.refused t' (Multiset.mem_cons_of_mem ht') hrefused
  | commit w ts readers answers t now s' reply id children hstage hle hexec hnamed =>
    have ht : t ∈ t ::ₘ ts := Multiset.mem_cons_self t ts
    have hmakes := h.makes ht hstage hexec hnamed
    refine h.exec hle hexec (Multiset.le_cons_self ts t) (fun t' ht' =>
      (Op.exec_projectNamed t.request.op_submits hexec _).trans (h.locked t' ht')) ?_
    rw [h.reached.receipt_made hle hexec hmakes, Desk.once, heldKeys_holding hstage]
    exact .single (.save _ _ _ _ _)
  | replay w ts readers answers t id hstage hfound =>
    have ht : t ∈ t ::ₘ ts := Multiset.mem_cons_self t ts
    refine ⟨h.reached, fun t' ht' => h.locked t' (Multiset.mem_cons_of_mem ht'),
      fun t' ht' => h.refused t' (Multiset.mem_cons_of_mem ht'), fun r hr => ?_, ?_⟩
    · obtain rfl | hr := Multiset.mem_cons.mp hr
      · exact Submission.find_eq_ok (h.locked t ht) hfound
      · exact h.readers r hr
    · have honce := h.once
      simp only [Desk.once, heldKeys_free (t := t) (by simp [hstage])] at honce
      exact honce
  | peek _ request project id hproject hfound =>
    refine ⟨h.reached, h.locked, h.refused, fun r hr => ?_, h.once⟩
    obtain rfl | hr := Multiset.mem_cons.mp hr
    · exact Submission.find_eq_ok hproject hfound
    · exact h.readers r hr
  | answer w ts readers answers r =>
    have hsaved := h.readers r (Multiset.mem_cons_self r readers)
    refine ⟨h.reached, h.locked, h.refused, fun r' hr' =>
      h.readers r' (Multiset.mem_cons_of_mem hr'), Once.Step.sound (.read _ _ _ _ _ ?_) h.once⟩
    exact Store.receipt_eq_some.mpr ⟨hsaved, rfl⟩
  | rollback w ts readers answers t =>
    refine ⟨h.reached, fun t' ht' => h.locked t' (Multiset.mem_cons_of_mem ht'),
      fun t' ht' => h.refused t' (Multiset.mem_cons_of_mem ht'), h.readers, ?_⟩
    have honce := h.once
    by_cases hstage : t.stage = .holding
    · simp only [Desk.once, heldKeys_holding hstage] at honce
      exact Once.Step.sound (.release _ _ _ _) honce
    · simp only [Desk.once, heldKeys_free hstage] at honce
      exact honce
  | lose w ts readers answers r =>
    exact ⟨h.reached, h.locked, h.refused, fun r' hr' =>
      h.readers r' (Multiset.mem_cons_of_mem hr'), h.once⟩

theorem Desk.Later.sound (hlater : Desk.Later sha d d') (h : d.Sound sha) :
    d'.Sound sha := by
  induction hlater with
  | refl => exact h
  | tail _ hstep ih => exact hstep.sound ih

theorem Desk.Reachable.sound (h : d.Reachable sha) : d.Sound sha := by
  obtain ⟨projects, workers, credentials, workerProjects, clock, hlater⟩ := h
  refine Desk.Later.sound hlater ⟨.start _ _ _ _ _, fun t ht => absurd ht (Multiset.notMem_zero t),
    fun t ht => absurd ht (Multiset.notMem_zero t),
    fun r hr => absurd hr (Multiset.notMem_zero r), ?_⟩
  exact ⟨Multiset.nodup_zero, fun k hk => absurd hk (Multiset.notMem_zero k),
    fun a ha => absurd ha List.not_mem_nil, List.nodup_nil⟩

/-! ## Idempotent submission -/

/-- **Only a creation that is answered writes** anything for a submission. -/
theorem Desk.Step.writes (hstep : Desk.Step sha d d') (h : d.Sound sha) :
    d'.world.store = d.world.store ∨
      (∃ (op : Op) (reply : Reply), op.submits = false ∧
        op.exec sha d.world.store d'.world.clock = .ok (d'.world.store, reply)) ∨
      ∃ a, a.saved = true ∧ d'.answers = a :: d.answers ∧
        d.world.store.Makes d'.world.store a.key a.value := by
  cases hstep with
  | transact _ op now s' reply hop hle hexec hlocks => exact .inr (.inl ⟨op, reply, hop, hexec⟩)
  | retry _ id fresh project sweep key now s' record hle hexec =>
    have hserves := retrySweep_serves (fun _ _ _ hnone => h.reached.not_child hnone)
      (h.reached.keyed.retries project sweep key) hexec
    obtain ⟨-, hsame, -⟩ | ⟨hreplayed, hmakes⟩ := hserves
    · exact .inl hsame
    · exact .inr (.inr ⟨_, by simp [hreplayed], rfl, hmakes⟩)
  | commit w ts readers answers t now s' reply id children hstage hle hexec hnamed =>
    exact .inr (.inr ⟨_, rfl, rfl, h.makes (Multiset.mem_cons_self t ts) hstage hexec hnamed⟩)
  | _ => exact .inl rfl

/-- What a transaction that was refused its key finds. -/
theorem Desk.Sound.find_refused (h : d.Sound sha) {t : Transaction} (ht : t ∈ d.transactions)
    (hstage : t.stage = .refused) : ∃ v, d.world.store.receipt t.key = some v ∧
      t.request.find d.world.store = if v.requestHash = t.request.requestHash then .ok v.id
        else .error .conflict := by
  obtain ⟨v, hv⟩ := Option.ne_none_iff_exists'.mp (h.refused t ht hstage)
  have hsaved := (Store.receipt_eq_some.mp hv).1
  exact ⟨v, hv, Submission.find_saved (h.locked t ht) hsaved (h.reached.keyed.made _ _ hsaved)⟩

/-- An insert returns with the key or without it. -/
theorem Desk.Step.inserted (w : World) (ts : Multiset Transaction) (readers : Multiset Reader)
    (answers : List (Once.Answer (Uuid × Endpoint × String) Receipt)) {t : Transaction}
    {next : Stage} (hstage : t.stage = .reading) (hwait : t.key ∉ heldKeys ts)
    (hnext : (if (w.store.idempotency.lookup t.key).isNone then Stage.holding else .refused)
      = next) : Desk.Step sha ⟨w, t ::ₘ ts, readers, answers⟩
      ⟨w, { t with stage := next } ::ₘ ts, readers, answers⟩ :=
  hnext ▸ .claim w ts readers answers t hstage hwait

/-- **A submission can succeed** when no open transaction holds its key and
nothing of its own stands in the way, whatever failed before it. -/
theorem Desk.Sound.succeeds (h : d.Sound sha) {request : Submission}
    {project : Uuid × ProjectRow}
    (hproject : projectNamed d.world.store request.projectName = some project)
    (hfree : (project.1, request.endpoint, request.key) ∉ heldKeys d.transactions)
    (hle : d.world.clock ≤ now)
    (hexec : request.op.exec sha d.world.store now = .ok (s', reply)) :
    ∃ d' a, Desk.Later sha d d' ∧ a ∈ d'.answers ∧
      a.key = (project.1, request.endpoint, request.key) ∧
      a.value.requestHash = request.requestHash ∧
      reply.named = some (a.value.id, a.value.children) := by
  obtain ⟨w, ts, readers, answers⟩ := d
  obtain ⟨key, requestHash, id, children, replayed, hkey, hnamed, hserves⟩ :=
    h.reached.exec_serves h.reached.keyed hexec request.op_submits
  obtain ⟨rfl, rfl⟩ := Prod.mk.inj (Option.some.inj
    ((Submission.op_keyed hproject).symm.trans hkey))
  have hbegin : Desk.Step sha ⟨w, ts, readers, answers⟩
      ⟨w, ⟨request, project, .reading⟩ ::ₘ ts, readers, answers⟩ :=
    .begin ⟨w, ts, readers, answers⟩ request project (Submission.check_of_exec hexec) hproject
  have hinserted := fun next => @Desk.Step.inserted sha w ts readers answers
    ⟨request, project, .reading⟩ next rfl hfree
  obtain ⟨-, -, hreceipt⟩ | ⟨-, hmakes⟩ := hserves
  · -- The key is committed: the transaction reads what it names, and the children.
    obtain ⟨hsaved, hchildren⟩ := Store.receipt_eq_some.mp hreceipt
    have hfound : request.find w.store = .ok id := by
      rw [Submission.find_saved hproject hsaved (h.reached.keyed.made _ _ hsaved), if_pos rfl]
    have hrefused := hinserted .refused (if_neg (by simp [Transaction.key, hsaved]))
    refine ⟨_, _, .tail (.tail (.tail (.single hbegin) hrefused)
      (.replay w ts readers answers ⟨request, project, .refused⟩ id rfl hfound))
      (.answer w ts readers answers _), List.mem_cons_self, rfl, rfl, ?_⟩
    rw [hnamed]
    exact congrArg (fun c => some (id, c)) hchildren.symm
  · have hholding := hinserted .holding (if_pos (by simp [Transaction.key, hmakes.free]))
    exact ⟨_, _, .tail (.tail (.single hbegin) hholding) (.commit w ts readers answers
      ⟨request, project, .holding⟩ now s' reply id children rfl hle hexec hnamed),
      List.mem_cons_self, rfl, rfl, hnamed⟩

/-- **Submission is idempotent.** Whatever submissions run at once: every answer
under a key is what the key names, and it names something; all answers under a
key are one, and at most one of them is a creation; a transaction that found
its key committed is told what it names or, with another hash, of a conflict; a
submission writes something only where it creates what it answers; and one
whose key is not held by an open transaction still succeeds when its own
document, its project and its inputs let it. -/
theorem submission_idempotent (h : d.Reachable sha) :
    (∀ a ∈ d.answers, d.world.store.receipt a.key = some a.value ∧
      d.world.store.Made a.key a.value.id) ∧
    (∀ a ∈ d.answers, ∀ a' ∈ d.answers, a.key = a'.key → a.value = a'.value) ∧
    ((d.answers.filter Once.Answer.saved).map Once.Answer.key).Nodup ∧
    (∀ t ∈ d.transactions, t.stage = .refused → ∃ v, d.world.store.receipt t.key = some v ∧
      t.request.find d.world.store = if v.requestHash = t.request.requestHash then .ok v.id
        else .error .conflict) ∧
    (∀ d', d.Step sha d' → d'.world.store = d.world.store ∨
      (∃ (op : Op) (reply : Reply), op.submits = false ∧
        op.exec sha d.world.store d'.world.clock = .ok (d'.world.store, reply)) ∨
      ∃ a, a.saved = true ∧ d'.answers = a :: d.answers ∧
        d.world.store.Makes d'.world.store a.key a.value) ∧
    ∀ (request : Submission) project now s' reply,
      projectNamed d.world.store request.projectName = some project →
      (project.1, request.endpoint, request.key) ∉ heldKeys d.transactions →
      d.world.clock ≤ now → request.op.exec sha d.world.store now = .ok (s', reply) →
      ∃ d' a, Desk.Later sha d d' ∧ a ∈ d'.answers ∧
        a.key = (project.1, request.endpoint, request.key) ∧
        a.value.requestHash = request.requestHash ∧
        reply.named = some (a.value.id, a.value.children) := by
  have hsound := h.sound
  refine ⟨fun a ha => ?_, fun a ha a' ha' => hsound.once.agree ha ha', hsound.once.once,
    fun t ht hstage => hsound.find_refused ht hstage, fun d' hstep => hstep.writes hsound,
    fun request project now s' reply hproject hfree hle hexec =>
      hsound.succeeds hproject hfree hle hexec⟩
  have hreceipt := hsound.once.answers a ha
  exact ⟨hreceipt, hsound.reached.keyed.made _ _ (Store.receipt_eq_some.mp hreceipt).1⟩

namespace Sample

/-- A submission of the job with the hash of as many `c`s. -/
def submission (id : Uuid) (c : Char) : Submission :=
  .job id "k" (String.ofList (List.replicate 64 c)) job []

end Sample

/-- Two submissions under one key run at once: the first to insert the key makes
its job, and the other, whose hash is another, is refused. -/
theorem sample_idempotent : ∃ d t, Desk.Reachable Sample.sha d ∧ t ∈ d.transactions ∧
    t.request.find d.world.store = .error .conflict ∧
    (d.answers.filter Once.Answer.saved).map Once.Answer.key = [(1, .jobs, "k")] := by
  obtain ⟨⟨s, reply⟩, hexec, hcheck⟩ : ∃ x : Store × Reply,
      ((Sample.submission 1 '0').op.exec Sample.sha Sample.world.store second).toOption = some x ∧
        (decide (x.2.named = some (1, [])) &&
          (x.1.idempotency.lookup (1, .jobs, "k")).isSome) = true := by
    rw [← Option.any_eq_true]
    decide +kernel
  simp only [Bool.and_eq_true, decide_eq_true_eq] at hcheck
  set p : Uuid × ProjectRow := (1, ⟨"p", 4000, 4096, 4, true⟩) with hp
  have hproject : projectNamed Sample.world.store "p" = some p := by decide +kernel
  set t : Transaction := ⟨Sample.submission 1 '0', p, .reading⟩ with ht
  set u : Transaction := ⟨Sample.submission 2 '1', p, .reading⟩ with hu
  have hbegin : Desk.Step Sample.sha ⟨Sample.world, 0, 0, []⟩ ⟨Sample.world, {u}, 0, []⟩ :=
    .begin ⟨Sample.world, 0, 0, []⟩ (Sample.submission 2 '1') p (by decide +kernel) hproject
  have hbegin' : Desk.Step Sample.sha ⟨Sample.world, {u}, 0, []⟩
      ⟨Sample.world, t ::ₘ {u}, 0, []⟩ :=
    .begin ⟨Sample.world, {u}, 0, []⟩ (Sample.submission 1 '0') p (by decide +kernel) hproject
  have hclaim : Desk.Step Sample.sha ⟨Sample.world, t ::ₘ {u}, 0, []⟩
      ⟨Sample.world, { t with stage := .holding } ::ₘ {u}, 0, []⟩ :=
    .inserted _ _ _ _ rfl (by simp [heldKeys, hu]) (by decide +kernel)
  have hcommit : Desk.Step Sample.sha ⟨Sample.world, { t with stage := .holding } ::ₘ {u}, 0, []⟩
      ⟨⟨s, second⟩, {u}, 0,
        [⟨(1, .jobs, "k"), ⟨(Sample.submission 1 '0').requestHash, 1, []⟩, true⟩]⟩ :=
    .commit _ _ _ _ _ second s reply 1 [] rfl (Nat.zero_le _) (toOption_eq_some.mp hexec) hcheck.1
  have hrefuse : Desk.Step Sample.sha
      ⟨⟨s, second⟩, u ::ₘ 0, 0,
        [⟨(1, .jobs, "k"), ⟨(Sample.submission 1 '0').requestHash, 1, []⟩, true⟩]⟩
      ⟨⟨s, second⟩, { u with stage := .refused } ::ₘ 0, 0,
        [⟨(1, .jobs, "k"), ⟨(Sample.submission 1 '0').requestHash, 1, []⟩, true⟩]⟩ := by
    refine .inserted _ _ _ _ rfl (by simp [heldKeys]) (if_neg fun hnone => ?_)
    obtain ⟨saved, hsaved⟩ := Option.isSome_iff_exists.mp hcheck.2
    exact absurd ((congrArg Option.isNone hsaved).symm.trans hnone) (by simp)
  have hreached : Desk.Reachable Sample.sha _ :=
    ⟨_, _, _, _, _, .tail (.tail (.tail (.tail (.single hbegin) hbegin') hclaim) hcommit) hrefuse⟩
  obtain ⟨hanswers, -, -, hrefused, -⟩ := submission_idempotent hreached
  refine ⟨_, { u with stage := .refused }, hreached, Multiset.mem_cons_self _ 0, ?_, rfl⟩
  obtain ⟨v, hv, hfound⟩ := hrefused { u with stage := .refused } (Multiset.mem_cons_self _ 0) rfl
  -- The key names the job of the first submission, so that its hash is the first one's.
  obtain rfl := Option.some.inj ((hanswers _ List.mem_cons_self).1.symm.trans hv)
  exact hfound.trans (if_neg (by decide +kernel))

end Dispatch
