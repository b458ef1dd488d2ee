import Dispatch.Worker.Inventory

/-!
# The journal over crashes

The programs of the journal are verified call by call, for every way in which
calls fail. The assertion that holds between any two calls is `Guards D Hs`: a
process that ends there, or a crash, leaves one of the records `Hs`. For a
write `Hs` are the old records and the new ones (`Between`), and for opening the
journal whatever the processes before have left. Between two operations the
journal is `Quiet`: the disk holds its records and nothing is on its way.

A rule is stated for a `Behaviour`, so that one proof serves for calls that may
fail at any time and for calls that fail only when they must.
-/

namespace Dispatch

open Txn Arena

variable {name : FileName} {bytes payload : Bytes} {file : ℕ} {c : Sys}

/-! ## Calls and programs -/

section Programs

/-- What has to hold for a call to be able to succeed. -/
def Sys.Can (d : JournalDisk) : Sys → Prop
  | .list => ∃ entries, d.Lists entries
  | .createNew name => d.visible name = none
  | _ => True

/-- Programs are verified for any behaviour of the calls within `Sys.Does`; `E`
is what the failure of a call that could have succeeded implies. -/
structure Behaviour (E : Prop) where
  does : (c : Sys) → JournalDisk → c.Answer → JournalDisk → Prop
  within : ∀ c d r d', does c d r d' → c.Does d r d'
  fails : ∀ c d d', does c d none d' → c.Can d → E

variable {E : Prop} {B : Behaviour E} {F : JournalDisk → Prop} {d : JournalDisk} {α β : Type}

/-- The weakest precondition of a program of the journal. -/
abbrev Behaviour.wp (B : Behaviour E) (F : JournalDisk → Prop)
    (Q : Except JournalError α → JournalDisk → Prop) (p : Io α) : JournalDisk → Prop :=
  Arena.wp (alone B.does) F Q p.run

/-- Ends in `M`, or fails in `N`. -/
def Ends (M : α → JournalDisk → Prop) (N : JournalError → JournalDisk → Prop) :
    Except JournalError α → JournalDisk → Prop
  | .ok a => M a
  | .error e => N e

variable {M : α → JournalDisk → Prop} {N : JournalError → JournalDisk → Prop}

/-- **The rule of a call.** -/
theorem wp_sys {M : c.Value → JournalDisk → Prop} (hcan : c.Can d)
    (hok : ∀ x d', c.Does d (some x) d' → F d' ∧ M x d')
    (herror : ∀ d', E → c.Does d none d' → F d' ∧ N .io d') : B.wp F (Ends M N) (sys c) d := by
  refine alone_call fun r d' hdoes => ?_
  cases r with
  | none =>
    obtain ⟨hF, hQ⟩ := herror d' (B.fails c d d' hdoes hcan) (B.within _ _ _ _ hdoes)
    exact ⟨hF, alone_pure hQ⟩
  | some x =>
    obtain ⟨hF, hQ⟩ := hok x d' (B.within _ _ _ _ hdoes)
    exact ⟨hF, alone_pure hQ⟩

theorem TakesEffect.cases {d next d' : JournalDisk} {r : Option Unit}
    (h : TakesEffect d next r d') : r ≠ none ∧ d' = next ∨ r = none ∧ (d' = d ∨ d' = next) :=
  h.imp_left (And.imp_left fun hok hnone => Option.some_ne_none () (hok.symm.trans hnone))

/-- The rule of a call that leads from `d` to `d₁`, or stays when it fails. -/
theorem wp_effect {M : c.Value → JournalDisk → Prop} {d₁ : JournalDisk} (hcan : c.Can d)
    (hdoes : ∀ r d', c.Does d r d' → r ≠ none ∧ d' = d₁ ∨ r = none ∧ (d' = d ∨ d' = d₁)) (hF : F d)
    (hF₁ : F d₁) (hM : ∀ x, M x d₁) (hN : E → N .io d) (hN₁ : E → N .io d₁) :
    B.wp F (Ends M N) (sys c) d := by
  refine wp_sys hcan (fun x d' hx => ?_) fun d' hE hx => ?_
  · obtain ⟨-, rfl⟩ | ⟨hnone, -⟩ := hdoes _ d' hx
    · exact ⟨hF₁, hM x⟩
    · exact absurd hnone (by simp)
  · obtain ⟨hsome, -⟩ | ⟨-, rfl | rfl⟩ := hdoes _ d' hx
    · exact absurd rfl hsome
    · exact ⟨hF, hN hE⟩
    · exact ⟨hF₁, hN₁ hE⟩

/-- **The rule of a sequence.** -/
theorem wp_then {p : Io α} {f : α → Io β} {Q : β → JournalDisk → Prop}
    (hp : B.wp F (Ends M N) p d) (hf : ∀ a d', M a d' → B.wp F (Ends Q N) (f a) d') :
    B.wp F (Ends Q N) (p >>= f) d := by
  refine wp_bind hp fun x d' _ hx => ?_
  cases x with
  | ok a => exact hf a d' hx
  | error e => exact alone_pure hx

theorem wp_ofExcept {x : Except JournalError α} (h : Ends M N x d) :
    B.wp F (Ends M N) (Io.ofExcept x) d := alone_pure h

/-- The rule of a check. -/
theorem wp_require {c : Prop} [Decidable c] {e : JournalError} {M : Unit → JournalDisk → Prop}
    (hok : c → M () d) (herror : ¬ c → N e d) :
    B.wp F (Ends M N) (Io.ofExcept (require c e)) d := by
  refine wp_ofExcept ?_
  by_cases hc : c
  · rw [require, if_pos hc]
    exact hok hc
  · rw [require, if_neg hc]
    exact herror hc

theorem wp_pure {a : α} (h : M a d) : B.wp F (Ends M N) (pure a : Io α) d := alone_pure h

theorem wp_lift {p : Prog Sys Sys.Answer α} (h : Arena.wp (alone B.does) F M p d) :
    B.wp F (Ends M N) (ExceptT.lift p) d := wp_bind h fun _ _ _ ha => alone_pure ha

/-! ## One write -/

/-- **What a crash may leave**: the records of one of `Hs`. -/
def Guards (D : Digest) (Hs : Table FileName Bytes → Prop) (d : JournalDisk) : Prop :=
  ∃ bound, bound ≤ d.next ∧
    d.Safe FileName.IsRecord bound (fun h => ∃ held, Hs held ∧ h = frames D held)

/-- **Between two operations of an open journal.** -/
structure Quiet (D : Digest) (held : Table FileName Bytes) (d : JournalDisk) : Prop where
  settled : d.unsynced = []
  shows : d.Shows FileName.IsRecord d.next d.visible (frames D held)
  clear : d.visible .pending = none

variable {D : Digest} {held : Table FileName Bytes} {Hs : Table FileName Bytes → Prop}

theorem guards_of_settled (hsettled : d.unsynced = [])
    (hshows : d.Shows FileName.IsRecord d.next d.visible (frames D held)) (hheld : Hs held) :
    Guards D Hs d := by
  refine ⟨d.next, le_refl _, Disk.safe_of_shows ?_ ⟨held, hheld, rfl⟩ hsettled⟩
  have hvisible : d.visible = d.durable := by
    rw [Disk.visible, hsettled]
    rfl
  exact hvisible ▸ hshows

theorem Quiet.guards (h : Quiet D held d) (hheld : Hs held) : Guards D Hs d :=
  guards_of_settled h.settled h.shows hheld

/-- **A record is on its way** in the temporary file. -/
structure Filling (D : Digest) (Hs : Table FileName Bytes → Prop) (held : Table FileName Bytes)
    (file : ℕ) (bytes : Bytes) (d : JournalDisk) : Prop where
  safe : d.Safe FileName.IsRecord file (fun h => ∃ held, Hs held ∧ h = frames D held)
  shows : d.Shows FileName.IsRecord file d.visible (frames D held)
  pending : d.visible .pending = some file
  bytes : (d.inodes file).bytes = bytes
  next : file < d.next

theorem Filling.guards (h : Filling D Hs held file bytes d) : Guards D Hs d
    := ⟨file, h.next.le, h.safe⟩

theorem pending_not_record : ¬ FileName.IsRecord .pending := fun h => h.2 rfl

theorem lock_not_record : ¬ FileName.IsRecord .lock := fun h => h.1 rfl

/-- The temporary file is created. -/
theorem Quiet.fill (h : Quiet D held d) (hheld : Hs held) :
    Filling D Hs held d.next [] (d.create .pending []) := by
  obtain ⟨bound, hbound, hsafe⟩ := h.guards hheld
  refine ⟨(hsafe.mono hbound fun _ h => h).create pending_not_record (le_refl _) [],
    h.shows.create pending_not_record (le_refl _) [], ?_, ?_, Nat.lt_succ_self _⟩
  · rw [Disk.visible_create, Function.update_self]
  · simp only [Disk.create, Function.update_self]

theorem Filling.write (h : Filling D Hs held file bytes d) (any : Bytes) :
    Filling D Hs held file any (d.write file any) := by
  refine ⟨h.safe.write (le_refl _) any, h.shows.write (le_refl _) any, h.pending, ?_, h.next⟩
  simp only [Disk.write, Function.update_self]

theorem Filling.sync (h : Filling D Hs held file bytes d) :
    Filling D Hs held file bytes (d.syncFile file) ∧ ((d.syncFile file).inodes file).synced = true
    := by
  refine ⟨⟨h.safe.syncFile file, h.shows.syncFile file, h.pending, ?_, h.next⟩, ?_⟩
  · simp only [Disk.syncFile, Function.update_self, h.bytes]
  · simp only [Disk.syncFile, Function.update_self]

/-- **A record on the disk** that may not stay there. -/
structure Renamed (D : Digest) (Hs : Table FileName Bytes → Prop) (held : Table FileName Bytes)
    (d : JournalDisk) : Prop where
  guards : Guards D Hs d
  shows : d.Shows FileName.IsRecord d.next d.visible (frames D held)
  clear : d.visible .pending = none

/-- The temporary file is renamed over the record. -/
theorem Filling.rename (h : Filling D Hs held file (frame D payload) d)
    (hsynced : (d.inodes file).synced = true) (hname : name.IsRecord)
    (hHs : ∀ x, Hs x → Hs (AList.insert name payload x)) :
    Renamed D Hs (AList.insert name payload held) (d.rename .pending name) := by
  have hrename : d.rename .pending name = d.change (.rename .pending name file) := by
    rw [Disk.rename, h.pending]
  have hmoves : ∀ e x, d.Shows FileName.IsRecord (file + 1) e (frames D x) →
      d.Shows FileName.IsRecord (file + 1) ((DirOp.rename .pending name file).apply e)
        (frames D (AList.insert name payload x)) := by
    intro e x hx
    rw [frames_insert, ← h.bytes]
    exact hx.rename pending_not_record (Nat.lt_succ_self _) hsynced
  rw [hrename]
  refine ⟨⟨file + 1, h.next, ?_⟩, ?_, ?_⟩
  · refine (h.safe.mono (Nat.le_succ _) fun _ h => h).change fun e g hg hshows => ?_
    obtain ⟨x, hx, rfl⟩ := hg
    exact ⟨_, ⟨_, hHs x hx, rfl⟩, hmoves e x hshows⟩
  · refine ((hmoves _ held (h.shows.mono (Nat.le_succ _))).mono h.next).congr
      (fun _ _ h => ⟨rfl, h⟩) fun n _ => ?_
    rw [Disk.visible_change]
  · rw [Disk.visible_change]
    have hne : FileName.pending ≠ name := fun heq => hname.2 heq.symm
    simp only [DirOp.apply, Function.update_of_ne hne, Function.update_self]

/-- The directory is synced. -/
theorem Renamed.sync (h : Renamed D Hs held d) : Quiet D held d.sync :=
  ⟨rfl, h.shows.congr (fun _ _ h => ⟨rfl, h⟩) fun _ _ => rfl, h.clear⟩

theorem Guards.mono {Hs' : Table FileName Bytes → Prop} (h : Guards D Hs d)
    (hle : ∀ held, Hs held → Hs' held) : Guards D Hs' d := by
  obtain ⟨bound, hbound, hsafe⟩ := h
  refine ⟨bound, hbound, hsafe.mono (le_refl _) ?_⟩
  rintro _ ⟨held, hheld, rfl⟩
  exact ⟨held, hle held hheld, rfl⟩

theorem Guards.sync (h : Guards D Hs d) : Guards D Hs d.sync := by
  obtain ⟨bound, hbound, hsafe⟩ := h
  exact ⟨bound, hbound, hsafe.sync⟩

/-- An append to the temporary file. -/
theorem wp_append {written : Bytes} (h : Filling D Hs held file written d) :
    B.wp (Guards D Hs) (Ends (fun _ => Filling D Hs held file (written ++ bytes))
      (fun e d' => e = .io ∧ E ∧ Guards D Hs d')) (sys (.append file bytes)) d := by
  refine wp_sys trivial (fun _ d' hdoes => ?_) fun d' hE hdoes => ?_
  · obtain ⟨-, rfl⟩ | ⟨hnone, -⟩ := hdoes
    · rw [h.bytes]
      exact ⟨(h.write _).guards, h.write _⟩
    · exact absurd hnone (by simp)
  · obtain ⟨hsome, -⟩ | ⟨-, any, rfl⟩ := hdoes
    · exact absurd hsome (by simp)
    · exact ⟨(h.write any).guards, rfl, hE, (h.write any).guards⟩

/-- **A replacement**: whatever becomes of it, the old records or the new ones
are left, and when it succeeds the new ones. -/
theorem wp_replace (h : Quiet D held d) (hheld : Hs held) (hname : name.IsRecord)
    (hHs : ∀ x, Hs x → Hs (AList.insert name payload x)) :
    B.wp (Guards D Hs) (Ends (fun _ => Quiet D (AList.insert name payload held))
      (fun e d' => e = .io ∧ E ∧ Guards D Hs d')) (Directory.replace D name payload) d := by
  refine wp_then (M := fun file d' => Filling D Hs held file [] d') ?_ fun file d' hfilling => ?_
  · refine wp_sys h.clear (fun file d' hdoes => ?_) fun d' hE hdoes => ?_
    · obtain ⟨i, hi, -, rfl, rfl⟩ | ⟨hnone, -⟩ := hdoes
      · obtain rfl := Option.some.inj hi
        exact ⟨(h.fill hheld).guards, h.fill hheld⟩
      · exact absurd hnone (by simp)
    · obtain ⟨i, hi, -⟩ | ⟨-, rfl | ⟨-, rfl⟩⟩ := hdoes
      · exact absurd hi (by simp)
      · exact ⟨h.guards hheld, rfl, hE, h.guards hheld⟩
      · exact ⟨(h.fill hheld).guards, rfl, hE, (h.fill hheld).guards⟩
  refine wp_then (wp_append hfilling) fun _ d' hfilling => ?_
  refine wp_then (wp_append hfilling) fun _ d' hfilling => ?_
  refine wp_then (wp_append hfilling) fun _ d' hfilling => ?_
  refine wp_then (wp_append hfilling) fun _ d' hfilling => ?_
  have hframe : [] ++ magic ++ toBeBytes payload.length ++ D.hash payload ++ payload
      = frame D payload := rfl
  rw [hframe] at hfilling
  refine wp_then (M := fun _ d' => Filling D Hs held file (frame D payload) d' ∧
    (d'.inodes file).synced = true) (wp_effect trivial (fun _ _ => TakesEffect.cases)
    hfilling.guards
    hfilling.sync.1.guards (fun _ => hfilling.sync) (fun hE => ⟨rfl, hE, hfilling.guards⟩)
    (fun hE => ⟨rfl, hE, hfilling.sync.1.guards⟩)) fun _ d' hsynced => ?_
  have hrenamed := hsynced.1.rename hsynced.2 hname hHs
  refine wp_then (M := fun _ => Renamed D Hs (AList.insert name payload held))
    (wp_effect trivial (fun _ _ => TakesEffect.cases) hsynced.1.guards hrenamed.guards
    (fun _ => hrenamed)
    (fun hE => ⟨rfl, hE, hsynced.1.guards⟩) (fun hE => ⟨rfl, hE, hrenamed.guards⟩))
    fun _ d' hrenamed => ?_
  exact wp_effect trivial (fun _ _ => TakesEffect.cases) hrenamed.guards hrenamed.guards.sync
    (fun _ => hrenamed.sync) (fun hE => ⟨rfl, hE, hrenamed.guards⟩)
    (fun hE => ⟨rfl, hE, hrenamed.guards.sync⟩)

/-! ## Reading -/

/-- The rule of a call that only reads. -/
theorem wp_look {M : c.Value → JournalDisk → Prop} (hcan : c.Can d)
    (hsame : ∀ r d', c.Does d r d' → d' = d) (hF : F d) (hM : ∀ x, c.Does d (some x) d → M x d)
    (hN : E → N .io d) : B.wp F (Ends M N) (sys c) d := by
  refine wp_sys hcan (fun x d' hdoes => ?_) fun d' hE hdoes => ?_
  · obtain rfl := hsame _ _ hdoes
    exact ⟨hF, hM x hdoes⟩
  · obtain rfl := hsame _ _ hdoes
    exact ⟨hF, hN hE⟩

variable {directory : Directory} {worker : Bytes} {limits : JournalLimits}

theorem wp_healthy {M : Unit → JournalDisk → Prop} (hhealthy : directory.poisoned = false)
    (hF : F d) (hM : M () d) (hN : E → N .io d) : B.wp F (Ends M N) directory.healthy d := by
  rw [Directory.healthy, hhealthy]
  exact wp_look trivial (fun _ _ h => h) hF (fun _ _ => hM) hN

/-- A journal that is open and in order. -/
structure Tidy (D : Digest) (worker : Bytes) (limits : JournalLimits) (held : Table FileName Bytes)
    (d : JournalDisk) : Prop where
  quiet : Quiet D held d
  kept : Kept worker limits held
  fits : Fits worker limits

theorem wp_inventory {M : List (Uuid × ℕ) → JournalDisk → Prop}
    (hhealthy : directory.poisoned = false) (h : Tidy D worker directory.limits held d) (hF : F d)
    (hM : ∀ inventory, inventory.Perm (attemptsIn (sizes held)) → M inventory d)
    (hN : E → N .io d) : B.wp F (Ends M N) directory.inventory d := by
  refine wp_then (M := fun _ d' => d = d') (wp_healthy hhealthy hF rfl hN) ?_
  rintro _ _ rfl
  refine wp_then (M := fun entries d' => d = d' ∧ d.Lists entries) (wp_look
    (exists_lists h.quiet.shows h.quiet.clear h.kept) (fun _ _ h => h.1) hF
    (fun entries hdoes => ⟨rfl, hdoes.2 entries rfl⟩) hN) ?_
  rintro entries _ ⟨rfl, hlists⟩
  obtain ⟨inventory, hcount, hperm⟩ :=
    countEntries_lists h.quiet.shows h.quiet.clear h.kept h.fits.maxBytes_lt hlists
  rw [hcount]
  exact wp_ofExcept (hM inventory hperm)

/-- **A record is read back as it was written.** -/
theorem wp_read {M : Option Bytes → JournalDisk → Prop} (hhealthy : directory.poisoned = false)
    (h : Tidy D worker limits held d) (hname : name.IsRecord) (hF : F d)
    (hM : M (held.lookup name) d) (hN : E → N .io d) : B.wp F (Ends M N) (directory.read D name) d
    := by
  refine wp_then (M := fun _ d' => d = d') (wp_healthy hhealthy hF rfl hN) ?_
  rintro _ _ rfl
  refine wp_then (M := fun x d' => d = d' ∧ x = (held.lookup name).map (frame D)) (wp_look trivial
    (fun _ _ h => h.1) hF (fun x hdoes => ⟨rfl, (hdoes.2 x rfl).trans ?_⟩) hN) ?_
  · exact h.quiet.shows.bytes name hname
  rintro _ _ ⟨rfl, rfl⟩
  cases hlookup : held.lookup name with
  | none => exact wp_pure (hlookup ▸ hM)
  | some payload =>
    refine wp_then (M := fun body d' => d = d' ∧ body = payload) (wp_ofExcept ?_) ?_
    · rw [unframe_frame D (h.kept.length_le h.fits.worker_le hlookup)]
      exact ⟨rfl, rfl⟩
    · rintro _ _ ⟨rfl, rfl⟩
      exact wp_pure (hlookup ▸ hM)

/-! ## Writing -/

/-- Only an attempt, or a record that is too long, is over the limit. -/
def FileName.MayExceed (name : FileName) (payload : Bytes) : Prop :=
  maxPayload < payload.length ∨ ∃ id, name = .attempt id

/-- What the owner of the journal writes to it. -/
def FileName.Writable (worker : Bytes) (name : FileName) (payload : Bytes) : Prop :=
  match name with
  | .identity => payload = worker
  | .session => payload.length ≤ maxSession
  | .attempt id => canonicalUUID id = true
  | _ => False

theorem FileName.Writable.takes (h : name.Writable worker payload)
    (hlength : payload.length ≤ maxPayload) : name.Takes worker payload := by
  cases name with
  | attempt id => exact ⟨h, hlength⟩
  | projectIds => exact h.elim
  | _ => exact h

theorem FileName.Writable.isRecord (h : name.Writable worker payload) : name.IsRecord := by
  cases name with
  | lock => exact h.elim
  | pending => exact h.elim
  | _ => exact ⟨nofun, nofun⟩

theorem wp_checkLimits {M : Unit → JournalDisk → Prop} (hhealthy : directory.poisoned = false)
    (h : Tidy D worker directory.limits held d)
    (htakes : payload.length ≤ maxPayload → name.Takes worker payload)
    (hfounded : name = .identity ∨ held.lookup .identity ≠ none) (hF : F d)
    (hM : Kept worker directory.limits (AList.insert name payload held) → M () d) (hN : E → N .io d)
    (hlimit : name.MayExceed payload → N .limit d) :
    B.wp F (Ends M N) (directory.checkLimits name payload) d := by
  refine wp_then (M := fun _ d' => d = d') (wp_healthy hhealthy hF rfl hN) ?_
  rintro _ _ rfl
  refine wp_then (M := fun _ d' => d = d' ∧ payload.length ≤ maxPayload) (wp_require
    (fun hlength => ⟨rfl, hlength⟩) fun hlength => hlimit (.inl (not_le.mp hlength))) ?_
  rintro _ _ ⟨rfl, hlength⟩
  refine wp_then (M := fun inventory d' => d = d' ∧ inventory.Perm (attemptsIn (sizes held)))
    (wp_inventory hhealthy h hF (fun _ hperm => ⟨rfl, hperm⟩) hN) ?_
  rintro inventory _ ⟨rfl, hperm⟩
  have htakes := htakes hlength
  cases name with
  | attempt id =>
    refine wp_require (fun hroom => hM ?_) fun _ => hlimit (.inr ⟨id, rfl⟩)
    exact h.kept.insert_attempt htakes (hfounded.resolve_left nofun) hperm hroom.1 hroom.2
  | _ => exact wp_pure (hM (h.kept.insert_other htakes hfounded nofun))

/-- The records before a write, or after it. -/
def Between (worker : Bytes) (limits : JournalLimits) (held : Table FileName Bytes)
    (name : FileName) (payload : Bytes) (x : Table FileName Bytes) : Prop :=
  x = held ∨ x = AList.insert name payload held ∧
  Kept worker limits (AList.insert name payload held)

theorem Between.insert {x : Table FileName Bytes}
    (hkept : Kept worker limits (AList.insert name payload held))
    (h : Between worker limits held name payload x) :
    Between worker limits held name payload (AList.insert name payload x) := by
  obtain rfl | ⟨rfl, -⟩ := h
  · exact .inr ⟨rfl, hkept⟩
  · rw [AList.insert_insert]
    exact .inr ⟨rfl, hkept⟩

/-- **What a write leads to.** -/
inductive Wrote (D : Digest) (worker : Bytes) (E : Prop) (directory : Directory)
    (held : Table FileName Bytes) (name : FileName) (payload : Bytes) (d : JournalDisk) :
    Except JournalError Unit × Directory → JournalDisk → Prop
  | done {d' : JournalDisk} (kept : Kept worker directory.limits (AList.insert name payload held))
      (quiet : Quiet D (AList.insert name payload held) d') :
      Wrote D worker E directory held name payload d (.ok (), directory) d'
  | refused {e : JournalError} (why : e = .io ∧ E ∨ e = .limit ∧ name.MayExceed payload) :
      Wrote D worker E directory held name payload d (.error e, directory) d
  | poisoned {d' : JournalDisk} (failed : E)
      (guards : Guards D (Between worker directory.limits held name payload) d') :
      Wrote D worker E directory held name payload d
        (.error .io, { directory with poisoned := true }) d'

theorem wp_write (hhealthy : directory.poisoned = false) (h : Tidy D worker directory.limits held d)
    (hname : name.IsRecord) (htakes : payload.length ≤ maxPayload → name.Takes worker payload)
    (hfounded : name = .identity ∨ held.lookup .identity ≠ none) :
    Arena.wp (alone B.does) (Guards D (Between worker directory.limits held name payload))
      (Wrote D worker E directory held name payload d) (directory.write D name payload) d := by
  have hguards : Guards D (Between worker directory.limits held name payload) d :=
    h.quiet.guards (.inl rfl)
  refine wp_bind (M := Ends
    (fun _ d' => d = d' ∧ Kept worker directory.limits (AList.insert name payload held))
    (fun e d' => d = d' ∧ (e = .io ∧ E ∨ e = .limit ∧ name.MayExceed payload)))
    (wp_checkLimits hhealthy h htakes hfounded hguards (fun hkept => ⟨rfl, hkept⟩)
      (fun hE => ⟨rfl, .inl ⟨rfl, hE⟩⟩) fun hlimit => ⟨rfl, .inr ⟨rfl, hlimit⟩⟩) fun x d' _ hx => ?_
  cases x with
  | error e =>
    obtain ⟨rfl, hwhy⟩ := hx
    exact alone_pure (.refused hwhy)
  | ok _ =>
    obtain ⟨rfl, hkept⟩ := hx
    refine wp_bind (wp_replace h.quiet (.inl rfl) hname fun x => Between.insert hkept)
      fun y d' _ hy => ?_
    cases y with
    | ok _ => exact alone_pure (.done hkept hy)
    | error e =>
      obtain ⟨rfl, hE, hguards⟩ := hy
      exact alone_pure (.poisoned hE hguards)

/-- **The rule of a write that has to succeed.** -/
theorem wp_put {M : Directory → JournalDisk → Prop} (hhealthy : directory.poisoned = false)
    (h : Tidy D worker directory.limits held d) (hname : name.IsRecord)
    (htakes : payload.length ≤ maxPayload → name.Takes worker payload)
    (hfounded : name = .identity ∨ held.lookup .identity ≠ none) (hfits : ¬ name.MayExceed payload)
    (hF : ∀ d', Guards D (Between worker directory.limits held name payload) d' → F d')
    (hM : ∀ d', Kept worker directory.limits (AList.insert name payload held) →
      Quiet D (AList.insert name payload held) d' → M directory d')
    (hN : ∀ d', E → Guards D (Between worker directory.limits held name payload) d' → N .io d') :
    B.wp F (Ends M N) (directory.put D name payload) d := by
  refine wp_then (wp_lift (wp_mono (wp_write hhealthy h hname htakes hfounded) hF fun _ _ _ h => h))
    fun outcome d' hwrote => ?_
  cases hwrote with
  | done hkept hquiet =>
    exact wp_then (M := fun _ => Quiet D _) (wp_ofExcept hquiet) fun _ d' hquiet =>
      wp_pure (hM d' hkept hquiet)
  | refused hwhy =>
    obtain ⟨rfl, hE⟩ | ⟨-, hlong⟩ := hwhy
    · exact wp_then (M := fun _ _ => False) (wp_ofExcept (hN d hE (h.quiet.guards (.inl rfl))))
        fun _ _ h => h.elim
    · exact absurd hlong hfits
  | poisoned hE hguards =>
    exact wp_then (M := fun _ _ => False) (wp_ofExcept (hN d' hE hguards)) fun _ _ h => h.elim

/-- **A poisoned writer** makes no call. -/
theorem write_of_poisoned (D : Digest) (hpoisoned : directory.poisoned = true) (name : FileName)
    (payload : Bytes) :
    directory.write D name payload = .pure (.error .poisoned, directory) := by
  obtain ⟨limits, _⟩ := directory
  obtain rfl : _ = true := hpoisoned
  rfl

/-! ## Opening -/

/-- **After a sync of the directory** one of the records that a crash may leave
is on the disk. -/
structure Settled (D : Digest) (Hs : Table FileName Bytes → Prop) (held : Table FileName Bytes)
    (d : JournalDisk) : Prop where
  left : Hs held
  settled : d.unsynced = []
  shows : d.Shows FileName.IsRecord d.next d.visible (frames D held)

theorem Guards.settled (h : Guards D Hs d) : ∃ held, Settled D Hs held d.sync := by
  obtain ⟨bound, hbound, hsafe⟩ := h.sync
  obtain ⟨_, ⟨held, hheld, rfl⟩, hshows⟩ := hsafe.visible
  exact ⟨held, hheld, rfl, hshows.mono hbound⟩

theorem Settled.guards (h : Settled D Hs held d) : Guards D Hs d :=
  guards_of_settled h.settled h.shows h.left

theorem Guards.unlink (h : Guards D Hs d) : Guards D Hs (d.unlink .pending) := by
  obtain ⟨bound, hbound, hsafe⟩ := h
  exact ⟨bound, hbound, hsafe.unlink pending_not_record⟩

theorem Guards.syncFile (h : Guards D Hs d) (i : ℕ) : Guards D Hs (d.syncFile i) := by
  obtain ⟨bound, hbound, hsafe⟩ := h
  exact ⟨bound, hbound, hsafe.syncFile i⟩

theorem Guards.lock (h : Guards D Hs d) : Guards D Hs (d.create .lock []) := by
  obtain ⟨bound, hbound, hsafe⟩ := h
  exact ⟨bound, hbound.trans (Nat.le_succ _), hsafe.create lock_not_record hbound []⟩

theorem Guards.crash {d' : JournalDisk} (h : Guards D Hs d) (hcrash : d.Crash d') :
    Guards D Hs d' := by
  obtain ⟨bound, hbound, hsafe⟩ := h
  exact ⟨bound, hcrash.next ▸ hbound, hsafe.crash hcrash⟩

/-- The temporary file is gone. -/
theorem Settled.unlink (h : Settled D Hs held d) : Renamed D Hs held (d.unlink .pending) := by
  refine ⟨h.guards.unlink, h.shows.unlink pending_not_record, ?_⟩
  rw [Disk.unlink, Disk.visible_change, DirOp.apply, Function.update_self]

theorem wp_discardPending (h : Settled D Hs held d) :
    B.wp (Guards D Hs) (Ends (fun _ d' => Quiet D held d')
      (fun e d' => e = .io ∧ E ∧ Guards D Hs d')) Directory.discardPending d := by
  refine wp_then (M := fun x d' => d = d' ∧ x = (d.file .pending).map List.length) (wp_look trivial
    (fun _ _ h => h.1) h.guards (fun x hdoes => ⟨rfl, hdoes.2 x rfl⟩)
    fun hE => ⟨rfl, hE, h.guards⟩) ?_
  rintro _ _ ⟨rfl, rfl⟩
  cases hfile : d.file .pending with
  | none => exact wp_pure ⟨h.settled, h.shows, Option.map_eq_none_iff.mp hfile⟩
  | some bytes =>
    have hrenamed := h.unlink
    refine wp_then (M := fun _ => Renamed D Hs held)
      (wp_effect trivial (fun _ _ => TakesEffect.cases)
      h.guards hrenamed.guards (fun _ => hrenamed) (fun hE => ⟨rfl, hE, h.guards⟩)
      fun hE => ⟨rfl, hE, hrenamed.guards⟩) fun _ d' hrenamed => ?_
    exact wp_effect trivial (fun _ _ => TakesEffect.cases) hrenamed.guards hrenamed.guards.sync
      (fun _ => hrenamed.sync) (fun hE => ⟨rfl, hE, hrenamed.guards⟩)
      fun hE => ⟨rfl, hE, hrenamed.guards.sync⟩

/-- **An open directory**: what a crash may have left is settled, and counted. -/
theorem wp_open (hguards : Guards D Hs d) (hHs : ∀ held, Hs held → Kept worker limits held)
    (hfits : Fits worker limits) :
    B.wp (Guards D Hs) (Ends
      (fun directory d' => directory = ⟨limits, false⟩ ∧ ∃ held, Hs held ∧ Quiet D held d')
      (fun e d' => e = .io ∧ E ∧ Guards D Hs d')) (Directory.open limits) d := by
  refine wp_then (M := fun _ d' => Guards D Hs d') (wp_sys trivial (fun lock d' hdoes => ?_)
    fun d' hE hdoes => ?_) fun lock d' hguards => ?_
  · obtain ⟨i, -, ⟨-, rfl⟩ | ⟨-, -, rfl⟩⟩ | ⟨hnone, -⟩ := hdoes
    · exact ⟨hguards, hguards⟩
    · exact ⟨hguards.lock, hguards.lock⟩
    · exact absurd hnone (by simp)
  · obtain ⟨i, hsome, -⟩ | ⟨-, rfl | ⟨-, rfl⟩⟩ := hdoes
    · exact absurd hsome (by simp)
    · exact ⟨hguards, rfl, hE, hguards⟩
    · exact ⟨hguards.lock, rfl, hE, hguards.lock⟩
  refine wp_then (M := fun _ d' => Guards D Hs d') (wp_effect trivial (fun _ _ => TakesEffect.cases)
    hguards (hguards.syncFile lock) (fun _ => hguards.syncFile lock) (fun hE => ⟨rfl, hE, hguards⟩)
    fun hE => ⟨rfl, hE, hguards.syncFile lock⟩) fun _ d' hguards => ?_
  refine wp_then (M := fun _ d' => ∃ held, Settled D Hs held d') (wp_effect trivial
    (fun _ _ => TakesEffect.cases) hguards hguards.sync (fun _ => hguards.settled)
    (fun hE => ⟨rfl, hE, hguards⟩) fun hE => ⟨rfl, hE, hguards.sync⟩) ?_
  rintro _ d' ⟨held, hsettled⟩
  refine wp_then (wp_discardPending hsettled) fun _ d' hquiet => ?_
  have hguards := hquiet.guards hsettled.left
  refine wp_then (M := fun _ d'' => d' = d'') (wp_inventory rfl
    ⟨hquiet, hHs held hsettled.left, hfits⟩ hguards (fun _ _ => rfl)
    fun hE => ⟨rfl, hE, hguards⟩) ?_
  rintro _ _ rfl
  exact wp_pure ⟨rfl, held, hsettled.left, hquiet⟩

theorem Kept.attemptsIn_eq_nil (h : Kept worker limits held)
    (hnone : held.lookup .identity = none) : attemptsIn (sizes held) = [] := by
  refine List.eq_nil_iff_forall_not_mem.mpr fun x hx => ?_
  obtain ⟨payload, hlookup, -⟩ := mem_sizes.mp (mem_attemptsIn.mp hx)
  rw [h.founded _ hnone] at hlookup
  exact absurd hlookup nofun

/-- **An open journal**, after whatever became of the processes before. -/
theorem wp_openJournal (hguards : Guards D Hs d) (hHs : ∀ held, Hs held → Kept worker limits held)
    (hidentity : ∀ held, Hs held → Hs (AList.insert .identity worker held))
    (hfits : Fits worker limits) :
    B.wp (Guards D Hs) (Ends (fun directory d' => directory = ⟨limits, false⟩ ∧
        ∃ held, Hs held ∧ held.lookup .identity ≠ none ∧ Quiet D held d')
      (fun e d' => e = .io ∧ E ∧ Guards D Hs d')) (openJournal D worker limits) d := by
  refine wp_then (M := fun _ d' => d = d')
    (wp_require (fun _ => rfl) fun hnot => absurd hfits hnot) ?_
  rintro _ _ rfl
  refine wp_then (wp_open hguards hHs hfits) ?_
  rintro _ d' ⟨rfl, held, hheld, hquiet⟩
  have htidy : Tidy D worker limits held d' := ⟨hquiet, hHs held hheld, hfits⟩
  have hguards := hquiet.guards hheld
  have hio : E → JournalError.io = .io ∧ E ∧ Guards D Hs d' := fun hE => ⟨rfl, hE, hguards⟩
  refine wp_then (M := fun saved d'' => d' = d'' ∧ saved = held.lookup .identity)
    (wp_read rfl htidy ⟨nofun, nofun⟩ hguards ⟨rfl, rfl⟩ hio) ?_
  rintro _ _ ⟨rfl, rfl⟩
  cases hlookup : held.lookup .identity with
  | some saved =>
    obtain rfl : saved = worker := htidy.kept.takes _ _ hlookup
    refine wp_then (M := fun _ d'' => d' = d'') (wp_require (fun _ => rfl)
      fun hne => absurd rfl hne) ?_
    rintro _ _ rfl
    refine wp_pure ⟨rfl, held, hheld, ?_, hquiet⟩
    rw [hlookup]
    exact Option.some_ne_none _
  | none =>
    refine wp_then (M := fun inventory d'' => d' = d'' ∧ inventory = [])
      (wp_inventory rfl htidy hguards (fun inventory hperm => ⟨rfl, ?_⟩) hio) ?_
    · rw [htidy.kept.attemptsIn_eq_nil hlookup] at hperm
      exact hperm.eq_nil
    rintro _ _ ⟨rfl, rfl⟩
    refine wp_then (M := fun _ d'' => d' = d'') (wp_require (fun _ => rfl)
      fun hne => absurd rfl hne) ?_
    rintro _ _ rfl
    refine wp_then (M := fun session d'' => d' = d'' ∧ session = none)
      (wp_read rfl htidy ⟨nofun, nofun⟩ hguards ⟨rfl, htidy.kept.founded _ hlookup⟩ hio) ?_
    rintro _ _ ⟨rfl, rfl⟩
    refine wp_then (M := fun _ d'' => d' = d'') (wp_require (fun _ => rfl)
      fun hne => absurd rfl hne) ?_
    rintro _ _ rfl
    have hbetween : ∀ x, Between worker limits held .identity worker x → Hs x := by
      rintro _ (rfl | ⟨rfl, -⟩)
      · exact hheld
      · exact hidentity held hheld
    refine wp_put rfl htidy ⟨nofun, nofun⟩ (fun _ => rfl) (.inl rfl) (fun hlong => ?_)
      (fun _ h => h.mono hbetween) (fun d'' _ hquiet => ⟨rfl, _, hidentity held hheld, ?_, hquiet⟩)
      fun d'' hE h => ⟨rfl, hE, h.mono hbetween⟩
    · obtain hlong | ⟨id, hid⟩ := hlong
      · exact absurd hfits.worker_le (not_le.mpr hlong)
      · exact absurd hid nofun
    · rw [AList.lookup_insert]
      exact Option.some_ne_none _

end Programs

end Dispatch
