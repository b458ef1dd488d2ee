import Dispatch.Lib.Disk
import Dispatch.Lib.Prog
import Dispatch.Worker.Lease

/-!
# The directory of the journal

Each record of the journal is a file of its own, and a record is replaced as a
whole: the new one is written to a temporary file, which is synced and then
renamed over the old one, and the directory is synced before the write is
acknowledged. A file holds a header, with the length and the digest of the
payload, and the payload.

The programs here make the calls of the source in its order. `Sys.Does` says
what a call does to the disk; every call may fail, and a call that fails may
have had its effect, or a part of it. One process at a time holds the lock of
the directory, and nobody else touches it, so that its files have the owner and
the modes they were created with.
-/

namespace Dispatch

open Txn

/-- Why the journal fails. -/
inductive JournalError where
  | invalid
  | identity
  | conflict
  | corrupt
  | unsafePath
  | busy
  | limit
  | poisoned
  | random
  | io
  deriving DecidableEq, Repr

/-- `MAX_PAYLOAD`. -/
def maxPayload : ℕ := 5 * 1024 * 1024

/-- The contents of a file. -/
abbrev Bytes := List UInt8

/-! ## Frames -/

/-- The length of a header. -/
def headerLength : ℕ := 48

/-- `DSPJNL01`. -/
def magic : Bytes := [68, 83, 80, 74, 78, 76, 48, 49]

/-- A 64-bit number, its most significant byte first. -/
def toBeBytes (n : ℕ) : Bytes := (List.range 8).map (fun k => UInt8.ofNat (n / 256 ^ (7 - k)))

/-- The number that bytes write, the most significant first. -/
def fromBeBytes (l : Bytes) : ℕ := l.foldl (fun n b => 256 * n + b.toNat) 0

/-- SHA-256. -/
structure Digest where
  hash : Bytes → Bytes
  length : ∀ l, (hash l).length = 32

/-- What is written to a file. -/
def frame (D : Digest) (payload : Bytes) : Bytes :=
  magic ++ toBeBytes payload.length ++ D.hash payload ++ payload

/-- What is read from a file. -/
def unframe (D : Digest) (bytes : Bytes) : Except JournalError Bytes := do
  require (headerLength ≤ bytes.length ∧ bytes.length ≤ maxPayload + headerLength ∧
    bytes.take 8 = magic) .corrupt
  let body := bytes.drop headerLength
  require (fromBeBytes ((bytes.drop 8).take 8) = body.length ∧
    D.hash body = (bytes.drop 16).take 32) .corrupt
  pure body

/-! ## Names and limits -/

/-- The names in the directory. -/
inductive FileName where
  | lock
  | pending
  | identity
  | projectIds
  | session
  | attempt (id : Uuid)
  | other (name : String)
  deriving DecidableEq, Repr

/-- How much a journal may hold. -/
structure JournalLimits where
  maxAttempts : ℕ
  maxBytes : ℕ
  deriving DecidableEq, Repr

/-- The largest record of a session. -/
def maxSession : ℕ := 64 * 1024

/-- One entry of the directory is counted. -/
def countEntry (limits : JournalLimits) (counted : List (Uuid × ℕ) × ℕ) (entry : FileName × ℕ) :
    Except JournalError (List (Uuid × ℕ) × ℕ) :=
  match entry.1 with
  | .lock => pure counted
  | .identity => pure counted
  | .projectIds => do
    require (entry.2 = 8 + headerLength) .corrupt
    pure counted
  | .session => do
    require (entry.2 ≤ maxSession + headerLength) .corrupt
    pure counted
  | .attempt id => do
    require (canonicalUUID id) .corrupt
    require (entry.2 ≤ maxPayload + headerLength) .corrupt
    let bytes := counted.2 + entry.2
    require (bytes < 2 ^ 64) .limit
    let records := counted.1 ++ [(id, entry.2)]
    require (records.length ≤ limits.maxAttempts ∧ bytes ≤ limits.maxBytes) .limit
    pure (records, bytes)
  | .pending => throw .corrupt
  | .other _ => throw .corrupt

/-- The attempts of a listing of the directory, with their sizes. -/
def countEntries (limits : JournalLimits) (entries : List (FileName × ℕ)) :
    Except JournalError (List (Uuid × ℕ)) := do
  let counted ← entries.foldlM (countEntry limits) ([], 0)
  pure (counted.1.insertionSort (fun a b => a.1 ≤ b.1))

/-! ## Calls -/

/-- **The calls** a journal makes of the operating system. -/
inductive Sys where
  /-- The metadata of the directory itself. -/
  | root
  | stat (name : FileName)
  | list
  | read (name : FileName)
  | createNew (name : FileName)
  /-- The lock file is opened, and created if need be. -/
  | openLock
  | append (file : ℕ) (bytes : Bytes)
  | syncFile (file : ℕ)
  | syncDirectory
  | rename (source target : FileName)
  | remove (name : FileName)

/-- What a call that succeeds returns; an open file is its inode. -/
def Sys.Value : Sys → Type
  | .root => Unit
  | .stat _ => Option ℕ
  | .list => List (FileName × ℕ)
  | .read _ => Option Bytes
  | .createNew _ => ℕ
  | .openLock => ℕ
  | .append .. => Unit
  | .syncFile _ => Unit
  | .syncDirectory => Unit
  | .rename .. => Unit
  | .remove _ => Unit

/-- What a call returns, or nothing when it fails. -/
abbrev Sys.Answer (c : Sys) : Type := Option c.Value

/-- The disk of a journal. -/
abbrev JournalDisk := Disk FileName Bytes

/-- A listing of the directory, in any order. -/
def Disk.Lists (d : JournalDisk) (entries : List (FileName × ℕ)) : Prop :=
  (entries.map Prod.fst).Nodup ∧
    ∀ name size, (name, size) ∈ entries ↔ (d.file name).map List.length = some size

/-- A call that leads from one state of the disk to another. When it fails,
nobody knows whether it did. -/
def TakesEffect (d next : JournalDisk) (r : Option Unit) (d' : JournalDisk) : Prop :=
  r = some () ∧ d' = next ∨ r = none ∧ (d' = d ∨ d' = next)

/-- **What a call does.** -/
def Sys.Does : (c : Sys) → JournalDisk → c.Answer → JournalDisk → Prop
  | .root, d, _, d' => d' = d
  | .stat name, d, r, d' => d' = d ∧ ∀ x : Option ℕ, r = some x → x = (d.file name).map List.length
  | .list, d, r, d' => d' = d ∧ ∀ x : List (FileName × ℕ), r = some x → d.Lists x
  | .read name, d, r, d' => d' = d ∧ ∀ x : Option Bytes, r = some x → x = d.file name
  | .createNew name, d, r, d' =>
    (∃ i : ℕ, r = some i ∧ d.visible name = none ∧ i = d.next ∧ d' = d.create name []) ∨
      r = none ∧ (d' = d ∨ d.visible name = none ∧ d' = d.create name [])
  | .openLock, d, r, d' =>
    (∃ i : ℕ, r = some i ∧ (d.visible .lock = some i ∧ d' = d ∨
      d.visible .lock = none ∧ i = d.next ∧ d' = d.create .lock [])) ∨
      r = none ∧ (d' = d ∨ d.visible .lock = none ∧ d' = d.create .lock [])
  | .append i bytes, d, r, d' =>
    (r = some () ∧ d' = d.write i ((d.inodes i).bytes ++ bytes)) ∨
      r = none ∧ ∃ any, d' = d.write i any
  | .syncFile i, d, r, d' => TakesEffect d (d.syncFile i) r d'
  | .syncDirectory, d, r, d' => TakesEffect d d.sync r d'
  | .rename source target, d, r, d' => TakesEffect d (d.rename source target) r d'
  | .remove name, d, r, d' => TakesEffect d (d.unlink name) r d'

/-! ## Programs -/

/-- A program of the journal, which may fail. -/
abbrev Io (α : Type) : Type := ExceptT JournalError (Prog Sys Sys.Answer) α

/-- A call, whose failure ends the program. -/
def sys (c : Sys) : Io c.Value :=
  ExceptT.mk (.call c (fun r => match r with
    | some x => .pure (.ok x)
    | none => .pure (.error .io)))

/-- A result as a program. -/
def Io.ofExcept {α : Type} (x : Except JournalError α) : Io α := ExceptT.mk (.pure x)

/-- An open journal; it is poisoned once a write may have failed half-way. -/
structure Directory where
  limits : JournalLimits
  poisoned : Bool
  deriving DecidableEq, Repr

namespace Directory

/-- The journal is not poisoned, and its directory is there. -/
def healthy (directory : Directory) : Io Unit :=
  if directory.poisoned then throw .poisoned else sys .root

/-- The attempts on record, with their sizes. -/
def inventory (directory : Directory) : Io (List (Uuid × ℕ)) := do
  directory.healthy
  let entries ← sys .list
  Io.ofExcept (countEntries directory.limits entries)

/-- A record, if there is one. -/
def read (D : Digest) (directory : Directory) (name : FileName) : Io (Option Bytes) := do
  directory.healthy
  match ← sys (.read name) with
  | none => pure none
  | some bytes => do
    let body ← Io.ofExcept (unframe D bytes)
    pure (some body)

/-- **A record is replaced** by way of the temporary file. -/
def replace (D : Digest) (name : FileName) (payload : Bytes) : Io Unit := do
  let file ← sys (.createNew .pending)
  sys (.append file magic)
  sys (.append file (toBeBytes payload.length))
  sys (.append file (D.hash payload))
  sys (.append file payload)
  sys (.syncFile file)
  sys (.rename .pending name)
  sys .syncDirectory

/-- What is checked before a record is replaced. -/
def checkLimits (directory : Directory) (name : FileName) (payload : Bytes) : Io Unit := do
  directory.healthy
  Io.ofExcept (require (payload.length ≤ maxPayload) .limit)
  let inventory ← directory.inventory
  match name with
  | .attempt id =>
    let old := inventory.find? (fun x => decide (x.1 = id))
    let total := (inventory.map Prod.snd).sum
    Io.ofExcept (require (¬ (old.isNone = true ∧ directory.limits.maxAttempts ≤ inventory.length) ∧
      total - (old.map Prod.snd).getD 0 + (payload.length + headerLength) ≤
        directory.limits.maxBytes) .limit)
  | _ => pure ()

/-- **A record is written.** After an error of a call nobody knows what is on
the disk, and the writer is not used again. -/
def write (D : Digest) (directory : Directory) (name : FileName) (payload : Bytes) :
    Prog Sys Sys.Answer (Except JournalError Unit × Directory) := do
  match ← (directory.checkLimits name payload).run with
  | .error e => pure (.error e, directory)
  | .ok _ =>
    match ← (replace D name payload).run with
    | .ok _ => pure (.ok (), directory)
    | .error e => pure (.error e, { directory with poisoned := true })

/-- A record is written, or the program fails. -/
def put (D : Digest) (directory : Directory) (name : FileName) (payload : Bytes) :
    Io Directory := do
  let outcome ← ExceptT.lift (directory.write D name payload)
  Io.ofExcept outcome.1
  pure outcome.2

/-- A temporary file is never a record. -/
def discardPending : Io Unit := do
  match ← sys (.stat .pending) with
  | some _ => do
    sys (.remove .pending)
    sys .syncDirectory
  | none => pure ()

/-- **The directory is opened**: what is visible is made durable, and a
temporary file is discarded. -/
def «open» (limits : JournalLimits) : Io Directory := do
  let lock ← sys .openLock
  sys (.syncFile lock)
  sys .syncDirectory
  discardPending
  let _ ← inventory ⟨limits, false⟩
  pure ⟨limits, false⟩

end Directory

/-- **The journal of a worker is opened.** The first process writes down whose
it is before anything else. The name of a worker is 36 characters long. -/
def openJournal (D : Digest) (worker : Bytes) (limits : JournalLimits) : Io Directory := do
  Io.ofExcept (require (worker.length = 36 ∧ 1 ≤ limits.maxAttempts ∧ limits.maxAttempts ≤ 4096 ∧
    1 ≤ limits.maxBytes ∧ limits.maxBytes ≤ 32 * 2 ^ 30) .invalid)
  let directory ← Directory.open limits
  match ← directory.read D .identity with
  | some saved => do
    Io.ofExcept (require (saved = worker) .identity)
    pure directory
  | none => do
    let inventory ← directory.inventory
    Io.ofExcept (require (inventory = []) .corrupt)
    let session ← directory.read D .session
    Io.ofExcept (require session.isNone .corrupt)
    let outcome ← ExceptT.lift (directory.write D .identity worker)
    Io.ofExcept outcome.1
    pure outcome.2

end Dispatch
