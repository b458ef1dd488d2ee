import Mathlib.Data.List.Sublists
import Mathlib.Logic.Function.Basic
import Mathlib.Data.Nat.Notation

/-!
# A directory on a disk that can lose power

A directory maps names to files. What was written to a file is durable once the
file was synced, and a change of the directory once the directory was. Until
then a crash may leave a file with any contents, and may keep some changes of
the directory and drop others; each single change, a rename included, is kept
or dropped as a whole.

`Disk.Safe` says what is left by a crash at any moment, `Disk.Shows` what a
directory holds. Both look at the names of interest only, and at files that are
synced and older than a bound, so that a new file can be written without a
second thought.
-/

namespace Dispatch

/-- A file as it is read, and whether it is durable. -/
structure Inode (β : Type) where
  bytes : β
  synced : Bool

/-- **One change of a directory.** -/
inductive DirOp (ν : Type) where
  | link (name : ν) (inode : ℕ)
  | rename (source target : ν) (inode : ℕ)
  | unlink (name : ν)

/-- **The disk**: the files, the directory as it is on the disk, and the changes
of it that are not. -/
structure Disk (ν β : Type) where
  inodes : ℕ → Inode β
  next : ℕ
  durable : ν → Option ℕ
  unsynced : List (DirOp ν)

variable {ν β : Type}

namespace Disk

/-- A file is written, and may be torn until it is synced. -/
def write (d : Disk ν β) (i : ℕ) (bytes : β) : Disk ν β :=
  { d with inodes := Function.update d.inodes i ⟨bytes, false⟩ }

/-- A file is made durable. -/
def syncFile (d : Disk ν β) (i : ℕ) : Disk ν β :=
  { d with inodes := Function.update d.inodes i { d.inodes i with synced := true } }

/-! ## What a directory holds -/

/-- **A directory holds `h`** under the names of interest, in files that are
durable and older than the bound. -/
structure Shows (d : Disk ν β) (O : ν → Prop) (bound : ℕ) (e : ν → Option ℕ) (h : ν → Option β) :
    Prop where
  bytes : ∀ n, O n → (e n).map (fun i => (d.inodes i).bytes) = h n
  solid : ∀ n i, O n → e n = some i → i < bound ∧ (d.inodes i).synced = true

variable {d d' : Disk ν β} {O : ν → Prop} {bound bound' : ℕ} {e e' : ν → Option ℕ}
  {h h' : ν → Option β}

theorem Shows.mono (hs : d.Shows O bound e h) (hle : bound ≤ bound') : d.Shows O bound' e h :=
  ⟨hs.bytes, fun n i hn hi => ⟨(hs.solid n i hn hi).1.trans_le hle, (hs.solid n i hn hi).2⟩⟩

/-- Only the files of interest count. -/
theorem Shows.congr (hs : d.Shows O bound e h)
    (hinodes : ∀ i, i < bound → (d.inodes i).synced = true →
      (d'.inodes i).bytes = (d.inodes i).bytes ∧ (d'.inodes i).synced = true)
    (he : ∀ n, O n → e' n = e n) : d'.Shows O bound e' h := by
  constructor
  · intro n hn
    rw [he n hn, ← hs.bytes n hn]
    cases hi : e n with
    | none => rfl
    | some i =>
      obtain ⟨hlt, hsynced⟩ := hs.solid n i hn hi
      exact congrArg some (hinodes i hlt hsynced).1
  · intro n i hn hi
    rw [he n hn] at hi
    obtain ⟨hlt, hsynced⟩ := hs.solid n i hn hi
    exact ⟨hlt, (hinodes i hlt hsynced).2⟩

/-- A file that is not of interest is written. -/
theorem write_inodes {i j : ℕ} (hi : bound ≤ i) (hj : j < bound) (bytes : β)
    (hsynced : (d.inodes j).synced = true) :
    ((d.write i bytes).inodes j).bytes = (d.inodes j).bytes ∧
      ((d.write i bytes).inodes j).synced = true := by
  have hne : j ≠ i := (hj.trans_le hi).ne
  simp only [Disk.write, Function.update_of_ne hne, hsynced, and_self]

theorem Shows.write (hs : d.Shows O bound e h) {i : ℕ} (hi : bound ≤ i) (bytes : β) :
    (d.write i bytes).Shows O bound e h :=
  hs.congr (fun _ hj => write_inodes hi hj bytes) fun _ _ => rfl

theorem syncFile_inodes (d : Disk ν β) (i j : ℕ) (hsynced : (d.inodes j).synced = true) :
    ((d.syncFile i).inodes j).bytes = (d.inodes j).bytes ∧
      ((d.syncFile i).inodes j).synced = true := by
  by_cases hne : j = i
  · subst hne
    simp only [Disk.syncFile, Function.update_self, and_self]
  · simp only [Disk.syncFile, Function.update_of_ne hne, hsynced, and_self]

theorem Shows.syncFile (hs : d.Shows O bound e h) (i : ℕ) : (d.syncFile i).Shows O bound e h :=
  hs.congr (fun j _ hsynced => d.syncFile_inodes i j hsynced) fun _ _ => rfl

end Disk

/-! ## Changes of the directory -/

variable [DecidableEq ν]

/-- A directory after a change. -/
def DirOp.apply (e : ν → Option ℕ) : DirOp ν → ν → Option ℕ
  | .link name inode => Function.update e name (some inode)
  | .rename source target inode =>
    Function.update (Function.update e source none) target (some inode)
  | .unlink name => Function.update e name none

theorem update_of_not {O : ν → Prop} {e : ν → Option ℕ} {name n : ν} {x : Option ℕ}
    (hname : ¬ O name) (hn : O n) : Function.update e name x n = e n :=
  Function.update_of_ne (fun heq : n = name => hname (heq ▸ hn)) x e

namespace Disk

/-- The directory with some of the changes that are not durable. -/
def after (d : Disk ν β) (kept : List (DirOp ν)) : ν → Option ℕ := kept.foldl DirOp.apply d.durable

/-- **The directory as it is read.** -/
def visible (d : Disk ν β) : ν → Option ℕ := d.after d.unsynced

/-- The file of a name. -/
def file (d : Disk ν β) (n : ν) : Option β := (d.visible n).map (fun i => (d.inodes i).bytes)

/-- A change of the directory that is not durable yet. -/
def change (d : Disk ν β) (op : DirOp ν) : Disk ν β := { d with unsynced := d.unsynced ++ [op] }

/-- A new file under a name. -/
def create (d : Disk ν β) (n : ν) (bytes : β) : Disk ν β :=
  { d with
    inodes := Function.update d.inodes d.next ⟨bytes, false⟩
    next := d.next + 1
    unsynced := d.unsynced ++ [.link n d.next] }

/-- The directory is made durable. -/
def sync (d : Disk ν β) : Disk ν β := { d with durable := d.visible, unsynced := [] }

/-- A file gets another name, and replaces the one that had it. -/
def rename (d : Disk ν β) (source target : ν) : Disk ν β :=
  match d.visible source with
  | some i => d.change (.rename source target i)
  | none => d

/-- A name is removed. -/
def unlink (d : Disk ν β) (n : ν) : Disk ν β := d.change (.unlink n)

/-- **A crash** keeps some changes of the directory; the files that were not
synced have any contents. -/
structure Crash (d d' : Disk ν β) : Prop where
  kept : ∃ kept, kept.Sublist d.unsynced ∧ d'.durable = d.after kept
  settled : d'.unsynced = []
  next : d'.next = d.next
  files : ∀ i, (d'.inodes i).synced = true ∧
    ((d.inodes i).synced = true → (d'.inodes i).bytes = (d.inodes i).bytes)

/-- A crash that keeps no change of the directory. -/
theorem exists_crash (d : Disk ν β) : ∃ d', d.Crash d' :=
  ⟨⟨fun i => ⟨(d.inodes i).bytes, true⟩, d.next, d.durable, []⟩, ⟨[], List.nil_sublist _, rfl⟩, rfl,
    rfl, fun _ => ⟨rfl, fun _ => rfl⟩⟩

@[simp] theorem visible_change (d : Disk ν β) (op : DirOp ν) :
    (d.change op).visible = op.apply d.visible := by
  simp only [visible, after, change, List.foldl_append, List.foldl_cons, List.foldl_nil]

@[simp] theorem visible_create (d : Disk ν β) (n : ν) (bytes : β) :
    (d.create n bytes).visible = Function.update d.visible n (some d.next) := by
  simp only [visible, after, create, List.foldl_append, List.foldl_cons, List.foldl_nil,
    DirOp.apply]

variable {d d' : Disk ν β} {O : ν → Prop} {bound bound' : ℕ} {e e' : ν → Option ℕ}
  {h h' : ν → Option β}

/-- A file moves under a name of interest. -/
theorem Shows.rename (hs : d.Shows O bound e h) {source target : ν} {i : ℕ} (hsource : ¬ O source)
    (hlt : i < bound) (hsynced : (d.inodes i).synced = true) :
    d.Shows O bound ((DirOp.rename source target i).apply e)
      (Function.update h target (some (d.inodes i).bytes)) := by
  have hother : ∀ n, O n → n ≠ target → (DirOp.rename source target i).apply e n = e n :=
    fun n hn hne => (Function.update_of_ne hne _ _).trans (update_of_not hsource hn)
  constructor
  · intro n hn
    by_cases hne : n = target
    · subst hne
      simp only [DirOp.apply, Function.update_self, Option.map_some]
    · rw [hother n hn hne, Function.update_of_ne hne, hs.bytes n hn]
  · intro n j hn hj
    by_cases hne : n = target
    · subst hne
      simp only [DirOp.apply, Function.update_self, Option.some.injEq] at hj
      exact hj ▸ ⟨hlt, hsynced⟩
    · rw [hother n hn hne] at hj
      exact hs.solid n j hn hj

theorem Shows.create (hs : d.Shows O bound d.visible h) {n : ν} (hn : ¬ O n) (hle : bound ≤ d.next)
    (bytes : β) : (d.create n bytes).Shows O bound (d.create n bytes).visible h :=
  (hs.write hle bytes).congr (fun _ _ h => ⟨rfl, h⟩) fun m hm => by
    rw [visible_create, update_of_not hn hm]

theorem Shows.unlink (hs : d.Shows O bound d.visible h) {n : ν} (hn : ¬ O n) :
    (d.unlink n).Shows O bound (d.unlink n).visible h :=
  hs.congr (fun _ _ h => ⟨rfl, h⟩) fun m hm => by
    rw [Disk.unlink, visible_change]
    exact update_of_not hn hm

/-! ## What a crash leaves -/

/-- **What a crash leaves**, now, is one of `H`. -/
def Safe (d : Disk ν β) (O : ν → Prop) (bound : ℕ) (H : (ν → Option β) → Prop) : Prop :=
  ∀ kept, kept.Sublist d.unsynced → ∃ h, H h ∧ d.Shows O bound (d.after kept) h

variable {H H' : (ν → Option β) → Prop}

theorem Safe.mono (hs : d.Safe O bound H) (hle : bound ≤ bound') (hH : ∀ h, H h → H' h) :
    d.Safe O bound' H' := fun kept hkept => by
  obtain ⟨h, hh, hshows⟩ := hs kept hkept
  exact ⟨h, hH h hh, hshows.mono hle⟩

/-- What is read is one of `H`, too. -/
theorem Safe.visible (hs : d.Safe O bound H) : ∃ h, H h ∧ d.Shows O bound d.visible h :=
  hs d.unsynced (List.Sublist.refl _)

theorem safe_of_shows (hs : d.Shows O bound d.durable h) (hH : H h) (hsettled : d.unsynced = []) :
    d.Safe O bound H := fun kept hkept => by
  rw [hsettled, List.sublist_nil] at hkept
  exact ⟨h, hH, hkept ▸ hs⟩

/-- Only the files of interest count. -/
theorem Safe.inodes (hs : d.Safe O bound H) (hdurable : d'.durable = d.durable)
    (hunsynced : d'.unsynced = d.unsynced)
    (hinodes : ∀ i, i < bound → (d.inodes i).synced = true →
      (d'.inodes i).bytes = (d.inodes i).bytes ∧ (d'.inodes i).synced = true) :
    d'.Safe O bound H := fun kept hkept => by
  obtain ⟨h, hh, hshows⟩ := hs kept (hunsynced ▸ hkept)
  refine ⟨h, hh, hshows.congr hinodes fun n _ => ?_⟩
  rw [after, after, hdurable]

theorem Safe.write (hs : d.Safe O bound H) {i : ℕ} (hi : bound ≤ i) (bytes : β) :
    (d.write i bytes).Safe O bound H :=
  hs.inodes rfl rfl fun _ hj => write_inodes hi hj bytes

theorem Safe.syncFile (hs : d.Safe O bound H) (i : ℕ) : (d.syncFile i).Safe O bound H :=
  hs.inodes rfl rfl fun j _ hsynced => d.syncFile_inodes i j hsynced

/-- **A change of the directory** that leads from one of `H` to one of `H`,
whatever was kept before it. -/
theorem Safe.change (hs : d.Safe O bound H) {op : DirOp ν}
    (hop : ∀ e h, H h → d.Shows O bound e h → ∃ h', H h' ∧ d.Shows O bound (op.apply e) h') :
    (d.change op).Safe O bound H := fun kept hkept => by
  obtain ⟨before, last, rfl, hbefore, hlast⟩ := List.sublist_append_iff.mp hkept
  obtain ⟨h, hh, hshows⟩ := hs before hbefore
  obtain rfl | rfl : last = [] ∨ last = [op] := by
    cases hlast with
    | cons _ hnil => exact .inl (List.sublist_nil.mp hnil)
    | cons_cons _ hnil => exact .inr (congrArg _ (List.sublist_nil.mp hnil))
  · rw [List.append_nil]
    exact ⟨h, hh, hshows.congr (fun _ _ h => ⟨rfl, h⟩) fun _ _ => rfl⟩
  · obtain ⟨h', hh', hshows'⟩ := hop _ h hh hshows
    refine ⟨h', hh', hshows'.congr (fun _ _ h => ⟨rfl, h⟩) fun n _ => ?_⟩
    simp only [after, Disk.change, List.foldl_append, List.foldl_cons, List.foldl_nil]

/-- A file is created under another name. -/
theorem Safe.create (hs : d.Safe O bound H) {n : ν} (hn : ¬ O n) (hle : bound ≤ d.next)
    (bytes : β) : (d.create n bytes).Safe O bound H := by
  have hlinked : ((d.write d.next bytes).change (.link n d.next)).Safe O bound H :=
    (hs.write hle bytes).change fun _ h hh hshows =>
      ⟨h, hh, hshows.congr (fun _ _ h => ⟨rfl, h⟩) fun _ hm => update_of_not hn hm⟩
  exact hlinked.inodes rfl rfl fun _ _ h => ⟨rfl, h⟩

theorem Safe.unlink (hs : d.Safe O bound H) {n : ν} (hn : ¬ O n) : (d.unlink n).Safe O bound H :=
  hs.change fun _ h hh hshows =>
    ⟨h, hh, hshows.congr (fun _ _ h => ⟨rfl, h⟩) fun _ hm => update_of_not hn hm⟩

/-- **After a sync nothing but what is read is left by a crash.** -/
theorem Safe.sync (hs : d.Safe O bound H) : d.sync.Safe O bound H := by
  obtain ⟨h, hh, hshows⟩ := hs.visible
  exact safe_of_shows (hshows.congr (fun _ _ h => ⟨rfl, h⟩) fun _ _ => rfl) hh rfl

/-- **A crash leaves one of `H`.** -/
theorem Safe.crash (hs : d.Safe O bound H) (hcrash : d.Crash d') : d'.Safe O bound H := by
  obtain ⟨kept, hkept, hdurable⟩ := hcrash.kept
  obtain ⟨h, hh, hshows⟩ := hs kept hkept
  refine safe_of_shows (hshows.congr (fun i _ hsynced => ?_) fun n _ => ?_) hh hcrash.settled
  · exact ⟨(hcrash.files i).2 hsynced, (hcrash.files i).1⟩
  · rw [hdurable]

end Disk

end Dispatch
