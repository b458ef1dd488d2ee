import Dispatch.Files.Steps

/-!
# Uploads and artifacts

What an attempt may upload is bounded, and what is published as an artifact of
an upload is one version whose bytes were read back and compared with the
declaration.

Reading the bytes and completing a multipart upload are done between two
transactions, with no lock held. `Gateway` keeps the calls that are between
their transactions: any number of them at once, each of which may be lost at
any time, while other transactions commit. Which objects were read back with
success is recorded in `Gateway.verified`; no transaction reads that record.
-/

namespace Dispatch

open Txn

variable {sha : Uuid → ℕ} {op : Op} {authority : AttemptAuthority} {f f' : Files}

variable {w : World} {reply : Reply} {g g' : Gateway}

/-! ## Limits -/

/-- **The files are in order**: limits are met, an upload has one artifact, and
the artifact of a multipart upload is the version its completion stored. -/
structure Files.Sound (f : Files) : Prop where
  within : ∀ attempt, f.Within attempt
  intents : ∀ attempt, (f.finalizationsOf attempt).length ≤ maxAttemptFinalizations
  known : ∀ id x, f.finalizations.lookup id = some x → ∃ u, f.uploads.lookup x.upload = some u
  once : ∀ id id' a a', f.artifacts.lookup id = some a → f.artifacts.lookup id' = some a' →
    a.upload = a'.upload → id = id'
  stored : ∀ id a, f.artifacts.lookup id = some a → ∃ u, f.uploads.lookup a.upload = some u ∧
    (1 < u.claims.partCount → ∃ m, f.multipartCompletions.lookup a.upload = some m ∧
      m.objectVersion = some a.objectVersion)

/-- The uploads of other attempts are what they were. -/
theorem Files.uploadsOf_declare {upload attempt : Uuid} {u : UploadRow}
    (hfree : f.uploads.lookup upload = none) (hother : u.claims.authority.attemptID ≠ attempt) :
    { f with uploads := AList.insert upload u f.uploads }.uploadsOf attempt
      = f.uploadsOf attempt := by
  rw [Files.uploadsOf, Table.select_insert u _ hfree, decide_eq_false hother]
  rfl

/-- An upload that was not known has no finalizations. -/
theorem Files.Sound.finalizationsOf_declare (h : f.Sound) {upload : Uuid} (u : UploadRow)
    (hfree : f.uploads.lookup upload = none) (attempt : Uuid) :
    { f with uploads := AList.insert upload u f.uploads }.finalizationsOf attempt
      = f.finalizationsOf attempt := by
  refine Table.select_congr fun id x hx => ?_
  obtain ⟨u', hu'⟩ := h.known id x hx
  simp only [Table.Extends.insert u hfree _ _ hu', hu']

/-- The finalizations of other attempts are what they were. -/
theorem Files.finalizationsOf_claim {id attempt : Uuid} {x : FinalizationRow} {u : UploadRow}
    (hfree : f.finalizations.lookup id = none) (hu : f.uploads.lookup x.upload = some u)
    (hother : u.claims.authority.attemptID ≠ attempt) :
    { f with finalizations := AList.insert id x f.finalizations }.finalizationsOf attempt
      = f.finalizationsOf attempt := by
  rw [Files.finalizationsOf, Table.select_insert x _ hfree]
  simp only [hu, decide_eq_false hother]
  rfl

/-- A completion keeps the version it has stored. -/
theorem Files.Sound.stored_later (h : f.Sound) (hlater : f.Later f') {id : Uuid} {a : ArtifactRow}
    (ha : f.artifacts.lookup id = some a) : ∃ u, f'.uploads.lookup a.upload = some u ∧
      (1 < u.claims.partCount → ∃ m, f'.multipartCompletions.lookup a.upload = some m ∧
        m.objectVersion = some a.objectVersion) := by
  obtain ⟨u, hu, hversion⟩ := h.stored id a ha
  refine ⟨u, hlater.uploads _ _ hu, fun hparts => ?_⟩
  obtain ⟨m, hm, hv⟩ := hversion hparts
  obtain ⟨m', hm', hkept⟩ := hlater.multipartCompletions _ m hm
  exact ⟨m', hm', hkept.version _ hv⟩

/-- **An entry keeps the files in order.** -/
theorem Files.Step.sound (hstep : Files.Step op authority f f') (h : f.Sound) : f'.Sound := by
  have hstored := fun id a => @Files.Sound.stored_later f f' h hstep.later id a
  cases hstep with
  | declare upload u hfree hmine hwithin =>
    refine ⟨fun attempt => ?_, fun attempt => ?_, fun id x hx => ?_, h.once, hstored⟩
    · by_cases hattempt : u.claims.authority.attemptID = attempt
      · rw [← hattempt, hmine]
        exact hwithin
      · rw [Files.Within, Files.uploadsOf_declare hfree hattempt]
        exact h.within attempt
    · rw [h.finalizationsOf_declare u hfree]
      exact h.intents attempt
    · obtain ⟨u', hu'⟩ := h.known id x hx
      exact ⟨u', Table.Extends.insert u hfree _ _ hu'⟩
  | claim id x hmine hfree hwithin =>
    obtain ⟨u, hu, rfl⟩ := hmine
    refine ⟨h.within, fun attempt => ?_, fun id' x' hx' => ?_, h.once, hstored⟩
    · by_cases hattempt : u.claims.authority.attemptID = attempt
      · exact hattempt ▸ hwithin
      · rw [Files.finalizationsOf_claim hfree hu hattempt]
        exact h.intents attempt
    · simp only [Table.lookup_insert_ite] at hx'
      split_ifs at hx'
      · obtain rfl := Option.some.inj hx'
        exact ⟨u, hu⟩
      · exact h.known id' x' hx'
  | verify artifact row u hu hmine hfree hfirst hop hversion =>
    refine ⟨h.within, h.intents, h.known, fun id id' a a' ha ha' hsame => ?_, fun id a ha => ?_⟩
    · simp only [Table.lookup_insert_ite] at ha ha'
      split_ifs at ha ha' with hid hid' hid'
      · exact hid.trans hid'.symm
      · obtain rfl := Option.some.inj ha
        exact absurd hsame.symm (hfirst id' a' ha')
      · obtain rfl := Option.some.inj ha'
        exact absurd hsame (hfirst id a ha)
      · exact h.once id id' a a' ha ha' hsame
    · simp only [Table.lookup_insert_ite] at ha
      split_ifs at ha
      · obtain rfl := Option.some.inj ha
        exact ⟨u, hu, hversion⟩
      · exact h.stored id a ha
  | _ => exact ⟨h.within, h.intents, h.known, h.once, hstored⟩

theorem Files.Steps.sound (hsteps : Files.Steps op authority f f') (h : f.Sound) : f'.Sound := by
  induction hsteps with
  | refl => exact h
  | tail _ hstep ih => exact hstep.sound ih

theorem Reachable.files (h : Reachable sha w) : w.store.files.Sound := by
  induction h with
  | start =>
    have hbytes : (0 : ℤ) ≤ maxAttemptUploadBytes := by decide
    exact ⟨fun _ => ⟨Nat.zero_le _, hbytes⟩, fun _ => Nat.zero_le _, fun _ _ h => (nomatch h),
      fun _ _ _ _ h => (nomatch h), fun _ _ h => (nomatch h)⟩
  | step hw hstep ih =>
    obtain ⟨-, op, reply, hexec⟩ := hstep
    obtain hsame | ⟨worker, authority, -, -, hsteps⟩ := op.exec_files hexec
    · exact hsame ▸ ih
    · exact hsteps.sound ih

/-! ## Calls -/

/-- **A call between its two transactions**: while the object store works for
it, and when it has answered. -/
inductive UploadCall where
  | verifying (id : WorkerIdentity) (r : FinalizeUploadRequest)
  | verified (id : WorkerIdentity) (r : FinalizeUploadRequest)
  | completing (id : WorkerIdentity) (r : MultipartCompletionRequest)
  | completed (id : WorkerIdentity) (r : MultipartCompletionRequest) (version : String)
  deriving DecidableEq

/-- `FinalizeUpload` has the object verified only when the first transaction
was accepted and found no artifact. -/
def FinalizeUploadResult.continues (x : FinalizeUploadResult) : Bool :=
  decide (x.decision = .accepted) && x.artifact.isNone

/-- `CompleteMultipartUpload` has the parts put together only when the first
transaction was accepted and found no stored version. -/
def MultipartCompletionResult.continues (x : MultipartCompletionResult) : Bool :=
  decide (x.decision = .accepted) && x.version.isNone

/-- The transactions of these two calls. -/
def Op.ofCall : Op → Bool
  | .finalizeUpload .. | .completeMultipart .. => true
  | _ => false

/-- **The control plane with its calls in flight.** -/
structure Gateway where
  world : World
  calls : List UploadCall
  /-- The objects that were read back and found as declared. -/
  verified : List ArtifactObject

/-- A transaction that commits, with its answer. -/
def World.Commits (sha : Uuid → ℕ) (op : Op) (reply : Reply) (w w' : World) : Prop :=
  w.clock ≤ w'.clock ∧ op.exec sha w.store w'.clock = .ok (w'.store, reply)

theorem World.Commits.step {w' : World} (h : w.Commits sha op reply w') :
    World.Step sha w w' :=
  ⟨h.1, op, reply, h.2⟩

/-- **What happens at the gateway**, one transaction or one answer of the object
store at a time. -/
inductive Gateway.Step (sha : Uuid → ℕ) : Gateway → Gateway → Prop where
  | transact (g : Gateway) (w : World) (op : Op) (reply : Reply) (hop : op.ofCall = false)
      (h : g.world.Commits sha op reply w) : Step sha g { g with world := w }
  | finalize (g : Gateway) (w : World) (seen : Store) (id : WorkerIdentity)
      (r : FinalizeUploadRequest) (finalization artifact : Uuid) (x : FinalizeUploadResult)
      (h : g.world.Commits sha (.finalizeUpload seen id r false finalization artifact)
        (.finalization x) w) :
      Step sha g { g with
        world := w
        calls := if x.continues then .verifying id r :: g.calls else g.calls }
  | verify (g : Gateway) (id : WorkerIdentity) (r : FinalizeUploadRequest)
      (hcall : .verifying id r ∈ g.calls) :
      Step sha g { g with
        calls := .verified id r :: g.calls.erase (.verifying id r)
        verified := r.claims.object :: g.verified }
  | publish (g : Gateway) (w : World) (seen : Store) (id : WorkerIdentity)
      (r : FinalizeUploadRequest) (finalization artifact : Uuid) (reply : Reply)
      (hcall : .verified id r ∈ g.calls)
      (h : g.world.Commits sha (.finalizeUpload seen id r true finalization artifact) reply w) :
      Step sha g { g with world := w, calls := g.calls.erase (.verified id r) }
  | complete (g : Gateway) (w : World) (seen : Store) (id : WorkerIdentity)
      (r : MultipartCompletionRequest) (x : MultipartCompletionResult)
      (h : g.world.Commits sha (.completeMultipart seen id r none) (.multipart x) w) :
      Step sha g { g with
        world := w
        calls := if x.continues then .completing id r :: g.calls else g.calls }
  | assemble (g : Gateway) (id : WorkerIdentity) (r : MultipartCompletionRequest)
      (version : String) (hcall : .completing id r ∈ g.calls) :
      Step sha g { g with
        calls := .completed id r version :: g.calls.erase (.completing id r) }
  | store (g : Gateway) (w : World) (seen : Store) (id : WorkerIdentity)
      (r : MultipartCompletionRequest) (version : String) (reply : Reply)
      (hcall : .completed id r version ∈ g.calls)
      (h : g.world.Commits sha (.completeMultipart seen id r (some version)) reply w) :
      Step sha g { g with world := w, calls := g.calls.erase (.completed id r version) }
  /-- The object store refuses, a transaction fails, or the process dies. -/
  | lose (g : Gateway) (call : UploadCall) : Step sha g { g with calls := g.calls.erase call }

/-- A later state of the gateway. -/
abbrev Gateway.Later (sha : Uuid → ℕ) : Gateway → Gateway → Prop :=
  Relation.ReflTransGen (Gateway.Step sha)

/-- **What the gateway can reach** from a provisioned control plane. -/
def Gateway.Reachable (sha : Uuid → ℕ) (g : Gateway) : Prop :=
  ∃ projects workers credentials workerProjects clock, Gateway.Later sha
    ⟨⟨Store.provisioned projects workers credentials workerProjects, clock⟩, [], []⟩ g

/-- A step of the gateway is a transaction or leaves the world as it is. -/
theorem Gateway.Step.world (h : Gateway.Step sha g g') :
    World.Later sha g.world g'.world := by
  cases h with
  | transact w op reply hop h => exact .single h.step
  | finalize w seen id r finalization artifact x h => exact .single h.step
  | publish w seen id r finalization artifact reply hcall h => exact .single h.step
  | complete w seen id r x h => exact .single h.step
  | store w seen id r version reply hcall h => exact .single h.step
  | _ => exact .refl

theorem Gateway.Later.world (h : Gateway.Later sha g g') :
    World.Later sha g.world g'.world := by
  induction h with
  | refl => exact .refl
  | tail _ hstep ih => exact ih.trans hstep.world

theorem Gateway.Reachable.world (h : g.Reachable sha) :
    Dispatch.Reachable sha g.world := by
  obtain ⟨projects, workers, credentials, workerProjects, clock, hlater⟩ := h
  exact (Dispatch.Reachable.start projects workers credentials workerProjects clock).later
    hlater.world

/-! ## What was verified -/

/-- The object an artifact stands for. -/
def ArtifactRow.object (a : ArtifactRow) (u : UploadRow) : ArtifactObject :=
  ⟨u.key a.upload, a.objectVersion, u.claims.sizeBytes, u.claims.sha256⟩

/-- **A new artifact** is that of a request that comes after a verification. -/
theorem Files.Steps.artifact (h : Files.Steps op authority f f') {id : Uuid} {a : ArtifactRow}
    (ha : f'.artifacts.lookup id = some a) :
    f.artifacts.lookup id = some a ∨ ∃ u seen identity r finalization,
      f'.uploads.lookup a.upload = some u ∧
      op = .finalizeUpload seen identity r true finalization id ∧ r.claims.object = a.object u := by
  induction h with
  | refl => exact .inl ha
  | tail _ hstep ih =>
    have hlater := hstep.later
    cases hstep with
    | verify artifact row u hu hmine hfree hfirst hop hversion =>
      simp only [Table.lookup_insert_ite] at ha
      split_ifs at ha with hid
      · obtain rfl := Option.some.inj ha
        obtain ⟨seen, identity, r, finalization, rfl, hobject⟩ := hop
        exact .inr ⟨u, seen, identity, r, finalization, hu, hid ▸ rfl, hobject⟩
      · exact ih ha
    | _ =>
      refine (ih ha).imp_right ?_
      rintro ⟨u, seen, identity, r, finalization, hu, hrest⟩
      exact ⟨u, seen, identity, r, finalization, hlater.uploads _ _ hu, hrest⟩

/-- **What the gateway publishes was verified.** -/
structure Gateway.Sound (g : Gateway) : Prop where
  published : ∀ id r, UploadCall.verified id r ∈ g.calls → r.claims.object ∈ g.verified
  artifacts : ∀ id a, g.world.store.artifacts.lookup id = some a →
    ∃ u, g.world.store.uploads.lookup a.upload = some u ∧ a.object u ∈ g.verified

/-- A transaction publishes nothing, or an object that its call has verified. -/
theorem Gateway.Sound.commits (h : g.Sound)
    (hcommits : g.world.Commits sha op reply w)
    (hop : ∀ seen identity r finalization artifact,
      op = .finalizeUpload seen identity r true finalization artifact →
      r.claims.object ∈ g.verified) :
    ∀ id a, w.store.artifacts.lookup id = some a →
      ∃ u, w.store.uploads.lookup a.upload = some u ∧ a.object u ∈ g.verified := by
  intro id a ha
  obtain hsame | ⟨worker, authority, -, -, hsteps⟩ := op.exec_files hcommits.2
  · obtain ⟨u, hu, hverified⟩ := h.artifacts id a
      ((congrArg (fun f => AList.lookup id (Files.artifacts f)) hsame).symm.trans ha)
    exact ⟨u, (congrArg (fun f => AList.lookup a.upload (Files.uploads f)) hsame).trans hu,
      hverified⟩
  · obtain hold | ⟨u, seen, identity, r, finalization, hu, rfl, hobject⟩ := hsteps.artifact ha
    · obtain ⟨u, hu, hverified⟩ := h.artifacts id a hold
      exact ⟨u, hsteps.later.uploads _ _ hu, hverified⟩
    · exact ⟨u, hu, hobject ▸ hop _ _ _ _ _ rfl⟩

theorem Gateway.Step.sound (hstep : Gateway.Step sha g g') (h : g.Sound) :
    g'.Sound := by
  cases hstep with
  | transact w op reply hop hcommits =>
    refine ⟨h.published, h.commits hcommits ?_⟩
    rintro seen identity r finalization artifact rfl
    exact absurd hop (by simp [Op.ofCall])
  | finalize w seen id r finalization artifact x hcommits =>
    refine ⟨fun id' r' hcall => ?_, h.commits hcommits (by simp)⟩
    dsimp only at hcall
    split_ifs at hcall
    · exact h.published id' r' (by simpa using hcall)
    · exact h.published id' r' hcall
  | verify id r hcall =>
    refine ⟨fun id' r' hcall' => ?_, fun artifact a ha => ?_⟩
    · obtain hnew | hold := List.mem_cons.mp hcall'
      · obtain ⟨-, rfl⟩ := UploadCall.verified.inj hnew
        exact List.mem_cons_self
      · exact List.mem_cons_of_mem _ (h.published id' r' (List.mem_of_mem_erase hold))
    · obtain ⟨u, hu, hverified⟩ := h.artifacts artifact a ha
      exact ⟨u, hu, List.mem_cons_of_mem _ hverified⟩
  | publish w seen id r finalization artifact reply hcall hcommits =>
    refine ⟨fun id' r' hcall' => h.published id' r' (List.mem_of_mem_erase hcall'),
      h.commits hcommits ?_⟩
    rintro _ _ r' _ _ hop
    obtain ⟨-, -, rfl, -⟩ := Op.finalizeUpload.inj hop
    exact h.published id r hcall
  | complete w seen id r x hcommits =>
    refine ⟨fun id' r' hcall => ?_, h.commits hcommits (by simp)⟩
    dsimp only at hcall
    split_ifs at hcall
    · exact h.published id' r' (by simpa using hcall)
    · exact h.published id' r' hcall
  | assemble id r version hcall =>
    exact ⟨fun id' r' hcall' => h.published id' r' (by simpa using hcall'), h.artifacts⟩
  | store w seen id r version reply hcall hcommits =>
    exact ⟨fun id' r' hcall' => h.published id' r' (List.mem_of_mem_erase hcall'),
      h.commits hcommits (by simp)⟩
  | lose call =>
    exact ⟨fun id r hcall => h.published id r (List.mem_of_mem_erase hcall), h.artifacts⟩

theorem Gateway.Reachable.sound (h : g.Reachable sha) : g.Sound := by
  obtain ⟨projects, workers, credentials, workerProjects, clock, hlater⟩ := h
  induction hlater with
  | refl => exact ⟨fun _ _ h => (nomatch h), fun _ _ h => (nomatch h)⟩
  | tail _ hstep ih => exact hstep.sound ih

/-- **Uploads and artifacts are sound** in everything the gateway reaches, with
any number of calls between their transactions:

- the uploads and the finalizations of an attempt are within their limits;
- an upload has at most one artifact, and the object it stands for, with the
  declared key, size and hash, was read back with success; the version of a
  multipart upload is the one its completion has stored;
- whatever happens later, the backend of a multipart upload, the hash of each
  part and the stored version stay what they were when they were first written,
  as do uploads, finalizations and artifacts. -/
theorem upload_integrity {g : Gateway} (h : g.Reachable sha) :
    (∀ attempt, (g.world.store.files.uploadsOf attempt).length ≤ 1024 ∧
      ((g.world.store.files.uploadsOf attempt).map (fun x => x.2.claims.sizeBytes)).sum
        ≤ 8 * 2 ^ 30 ∧
      (g.world.store.files.finalizationsOf attempt).length ≤ 1024) ∧
    (∀ id id' a a', g.world.store.artifacts.lookup id = some a →
      g.world.store.artifacts.lookup id' = some a' → a.upload = a'.upload → id = id') ∧
    (∀ id a, g.world.store.artifacts.lookup id = some a →
      ∃ u, g.world.store.uploads.lookup a.upload = some u ∧ a.object u ∈ g.verified ∧
        (1 < u.claims.partCount → ∃ m,
          g.world.store.multipartCompletions.lookup a.upload = some m ∧
          m.objectVersion = some a.objectVersion)) ∧
    ∀ g', Gateway.Later sha g g' → g.world.store.files.Later g'.world.store.files := by
  have hfiles := h.world.files
  refine ⟨fun attempt => ?_, hfiles.once, fun id a ha => ?_, fun g' hlater => hlater.world.files⟩
  · obtain ⟨hcount, hbytes⟩ := hfiles.within attempt
    exact ⟨hcount, hbytes, hfiles.intents attempt⟩
  · obtain ⟨u, hu, hverified⟩ := h.sound.artifacts id a ha
    obtain ⟨u', hu', hversion⟩ := hfiles.stored id a ha
    obtain rfl := Option.mem_unique hu hu'
    exact ⟨u, hu, hverified, hversion⟩

/-- Transactions of no call can be run at the gateway. -/
theorem Gateway.Later.run {ops : List (Time × Op)}
    (hrun : g.world.run sha ops = .ok w) (hops : ∀ x ∈ ops, x.2.ofCall = false) :
    Gateway.Later sha g { g with world := w } := by
  induction ops generalizing g with
  | nil =>
    obtain rfl := Except.ok.inj hrun
    exact .refl
  | cons x ops ih =>
    obtain ⟨t, op⟩ := x
    simp only [World.run, bind_ok, require_ok] at hrun
    obtain ⟨-, hle, ⟨s, reply⟩, hexec, hrest⟩ := hrun
    obtain ⟨hop, hops⟩ := List.forall_mem_cons.mp hops
    have hstep : Gateway.Step sha g { g with world := ⟨s, t⟩ } :=
      .transact g ⟨s, t⟩ op reply hop ⟨hle, hexec⟩
    exact .head hstep (ih (g := { g with world := ⟨s, t⟩ }) hrest hops)

/-- A finalization that nothing interrupts runs both its transactions. -/
theorem Gateway.Later.finalizeUpload {w' : World} {seen seen' : Store}
    {id : WorkerIdentity} {r : FinalizeUploadRequest} {i i' k k' : Uuid}
    {x : FinalizeUploadResult}
    (hfirst : g.world.Commits sha (.finalizeUpload seen id r false i k)
      (.finalization x) w) (hcontinues : x.continues = true)
    (hsecond : w.Commits sha (.finalizeUpload seen' id r true i' k') reply w') :
    ∃ g', Gateway.Later sha g g' ∧ g'.world = w' := by
  have hclaimed := Gateway.Step.finalize g w seen id r _ _ x hfirst
  rw [if_pos hcontinues] at hclaimed
  have hverified := @Gateway.Step.verify sha
    { g with world := w, calls := .verifying id r :: g.calls } id r List.mem_cons_self
  exact ⟨_, ((Relation.ReflTransGen.single hclaimed).tail hverified).tail
    (.publish _ w' seen' id r _ _ reply List.mem_cons_self hsecond), rfl⟩

/-- Attempt 1 starts and declares its standard output. -/
def Sample.declared : List (Time × Op) :=
  [(second, .phase Sample.seen Sample.identity ⟨1, ⟨⟨1, 1, 1, 1, 1⟩, .starting, "", none⟩⟩),
    (second, .createUpload Sample.seen Sample.identity
      ⟨1, ⟨⟨1, 1, 1, 1, 1⟩, .log, "stdout", 10, Sample.container, 1, 0⟩⟩ 1 1)]

/-- The finalization of that upload. -/
def Sample.finalize : FinalizeUploadRequest :=
  ⟨1, ⟨⟨1, 1, 1, 1, 1⟩, 1, ⟨objectKey 1 1 1 1, "v", 10, Sample.container⟩⟩⟩

/-- A log is verified and published, and what is published was verified. -/
theorem sample_integrity : ∃ (g : Gateway) (a : ArtifactRow) (u : UploadRow),
    g.world.store.artifacts.lookup 1 = some a ∧ g.world.store.uploads.lookup a.upload = some u ∧
    a.object u ∈ g.verified := by
  have hcheck : (Sample.assignedWorld.run Sample.sha Sample.declared).toOption.any (fun w =>
      decide (w.clock ≤ second) && ((Op.finalizeUpload Sample.seen Sample.identity Sample.finalize
        false 1 1).exec Sample.sha w.store second).toOption.any (fun x => match x.2 with
          | .finalization r => r.continues && ((Op.finalizeUpload Sample.seen Sample.identity
              Sample.finalize true 2 1).exec Sample.sha x.1 second).toOption.any (fun y =>
                (y.1.artifacts.lookup 1).isSome)
          | _ => false)) = true := by decide +kernel
  rw [Option.any_eq_true] at hcheck
  obtain ⟨w, hrun, hcheck⟩ := hcheck
  rw [Bool.and_eq_true, decide_eq_true_eq, Option.any_eq_true] at hcheck
  obtain ⟨hle, ⟨s, reply⟩, hfirst, hcheck⟩ := hcheck
  cases reply with
  | finalization r =>
    simp only [Bool.and_eq_true, Option.any_eq_true, toOption_eq_some] at hrun hfirst hcheck
    obtain ⟨hcontinues, ⟨s', reply'⟩, hsecond, hsome⟩ := hcheck
    obtain ⟨a, ha⟩ := Option.isSome_iff_exists.mp hsome
    have hassigned : Gateway.Later Sample.sha ⟨Sample.world, [], []⟩
        ⟨Sample.assignedWorld, [], []⟩ := .run Sample.run_assigned (by decide)
    have hdeclared : Gateway.Later Sample.sha ⟨Sample.assignedWorld, [], []⟩ ⟨w, [], []⟩ :=
      .run hrun (by decide)
    have hclaimed : w.Commits Sample.sha _ _ ⟨s, second⟩ := ⟨hle, hfirst⟩
    have hpublished : World.Commits Sample.sha _ _ ⟨s, second⟩ ⟨s', second⟩ :=
      ⟨Nat.le_refl second, hsecond⟩
    obtain ⟨g, hlater, hworld⟩ :=
      Gateway.Later.finalizeUpload (g := ⟨w, [], []⟩) hclaimed hcontinues hpublished
    have hg : g.Reachable Sample.sha :=
      ⟨_, _, _, _, _, (hassigned.trans hdeclared).trans hlater⟩
    have hrow : g.world.store.artifacts.lookup 1 = some a := hworld ▸ ha
    obtain ⟨u, hu, hobject, -⟩ := (upload_integrity hg).2.2.1 1 a hrow
    exact ⟨g, a, u, hrow, hu, hobject⟩
  | _ => exact absurd hcheck (by simp)

end Dispatch
