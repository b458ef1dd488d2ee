import Dispatch.Worker.Host

/-!
# Project quota ids

Each workspace has a quota of its own on the disk, under a project id that no
other workspace ever has. The ids are handed out by a counter, which is a record
of a directory like that of the journal: the counter is advanced on the disk
before its old value is returned, so that an id may be skipped but is never
returned twice.

`Allocator` is the life of such a directory on one host. Its steps are those of a
process that opens the directory and reserves ids, that ends where it likes, and
of a host that loses its power. `Issued` is what holds of the records whatever
happens: every id that was returned is below the counter.
-/

namespace Dispatch

open Txn Relation Arena

/-! ## Programs -/

/-- The value of the counter when there is no further id. -/
def exhausted : ℕ := 2 ^ 31

/-- The limits a directory of ids is opened with. -/
def defaultLimits : JournalLimits := ⟨4096, 256 * 2 ^ 20⟩

/-- The next id. -/
def nextProjectId (D : Digest) (directory : Directory) : Io ℕ := do
  match ← directory.read D .projectIds with
  | none => throw .corrupt
  | some bytes => do
    Io.ofExcept (require (bytes.length = 8) .corrupt)
    Io.ofExcept (require (1 ≤ fromBeBytes bytes ∧ fromBeBytes bytes ≤ exhausted) .corrupt)
    pure (fromBeBytes bytes)

/-- **An id is reserved.** -/
def reserveProjectId (D : Digest) (directory : Directory) :
    Prog Sys Sys.Answer (Except JournalError ℕ × Directory) := do
  match ← (nextProjectId D directory).run with
  | .error e => pure (.error e, directory)
  | .ok next =>
    if next = exhausted then pure (.error .limit, directory)
    else do
      let outcome ← directory.write D .projectIds (toBeBytes (next + 1))
      pure (outcome.1.map fun _ => next % 2 ^ 32, outcome.2)

/-- A record must not be there. -/
def Directory.absent (D : Digest) (directory : Directory) (name : FileName) (e : JournalError) :
    Io Unit := do
  let found ← directory.read D name
  Io.ofExcept (require found.isNone e)

/-- An empty directory becomes that of a worker. -/
def initializeProjectIds (D : Digest) (worker : Bytes) : Io Directory := do
  Io.ofExcept (require (worker.length = 36) .invalid)
  let directory ← Directory.open defaultLimits
  let inventory ← directory.inventory
  Io.ofExcept (require (inventory = []) .conflict)
  directory.absent D .identity .conflict
  directory.absent D .session .conflict
  directory.absent D .projectIds .conflict
  let directory ← directory.put D .identity worker
  directory.put D .projectIds (toBeBytes 1)

/-- The directory is opened, and must hold a counter and no attempts. -/
def openProjectIds (D : Digest) (worker : Bytes) : Io Directory := do
  Io.ofExcept (require (worker.length = 36) .invalid)
  let directory ← Directory.open defaultLimits
  match ← directory.read D .identity with
  | none => throw .corrupt
  | some identity => do
    Io.ofExcept (require (identity = worker) .identity)
    let inventory ← directory.inventory
    Io.ofExcept (require (inventory = []) .corrupt)
    directory.absent D .session .corrupt
    let _ ← nextProjectId D directory
    pure directory

/-! ## What the records say -/

/-- A directory of ids has no other records than the worker's name and the counter. -/
def OnlyIds (held : Table FileName Bytes) : Prop :=
  ∀ name, held.lookup name ≠ none → name = .identity ∨ name = .projectIds

/-- **The records after some ids were returned.** -/
def Issued (worker : Bytes) (ids : List ℕ) (held : Table FileName Bytes) : Prop :=
  Kept worker defaultLimits held ∧ OnlyIds held ∧
    (held.lookup .projectIds = none ∧ ids = [] ∨ ∃ n, held.lookup .projectIds = some (toBeBytes n) ∧
      1 ≤ n ∧ n ≤ exhausted ∧ ∀ id ∈ ids, id < n)

section

variable {E : Prop} {B : Behaviour E} {F : JournalDisk → Prop} {d : JournalDisk} {D : Digest}
  {worker : Bytes} {held : Table FileName Bytes} {directory : Directory} {name : FileName} {n : ℕ}
  {ids : List ℕ} {N : JournalError → JournalDisk → Prop}

theorem OnlyIds.insert (h : OnlyIds held) (hname : name = .identity ∨ name = .projectIds)
    (payload : Bytes) : OnlyIds (AList.insert name payload held) := by
  intro n hn
  by_cases heq : n = name
  · exact heq ▸ hname
  · rw [AList.lookup_insert_ne heq] at hn
    exact h n hn

theorem OnlyIds.attemptsIn_eq_nil (h : OnlyIds held) : attemptsIn (sizes held) = [] := by
  refine List.eq_nil_iff_forall_not_mem.mpr fun x hx => ?_
  obtain ⟨payload, hlookup, -⟩ := mem_sizes.mp (mem_attemptsIn.mp hx)
  have hsome : held.lookup (.attempt x.1) ≠ none := by simp [hlookup]
  exact (h _ hsome).elim nofun nofun

theorem Issued.insert
    (hkept : Kept worker defaultLimits (AList.insert .projectIds (toBeBytes n) held))
    (honly : OnlyIds held) (hpos : 1 ≤ n) (hle : n ≤ exhausted) (hids : ∀ id ∈ ids, id < n) :
    Issued worker ids (AList.insert .projectIds (toBeBytes n) held) :=
  ⟨hkept, honly.insert (.inr rfl) _, .inr ⟨n, AList.lookup_insert _, hpos, hle, hids⟩⟩

theorem projectIds_fits (n : ℕ) : ¬ FileName.MayExceed .projectIds (toBeBytes n) := by
  rintro (hlong | ⟨id, hid⟩)
  · rw [toBeBytes_length] at hlong
    exact absurd hlong (by decide)
  · exact absurd hid nofun

theorem wp_absent {M : Unit → JournalDisk → Prop} {e : JournalError}
    (hhealthy : directory.poisoned = false) (h : Tidy D worker directory.limits held d)
    (hname : name.IsRecord) (hF : F d) (hM : held.lookup name = none → M () d) (hN : E → N .io d)
    (hfound : held.lookup name ≠ none → N e d) :
    B.wp F (Ends M N) (directory.absent D name e) d := by
  refine wp_then (M := fun found d' => d = d' ∧ found = held.lookup name)
    (wp_read hhealthy h hname hF ⟨rfl, rfl⟩ hN) ?_
  rintro _ _ ⟨rfl, rfl⟩
  exact wp_require (fun hnone => hM (Option.isNone_iff_eq_none.mp hnone)) fun hsome =>
    hfound fun hnone => hsome (Option.isNone_iff_eq_none.mpr hnone)

theorem wp_next {M : ℕ → JournalDisk → Prop} (hhealthy : directory.poisoned = false)
    (h : Tidy D worker directory.limits held d)
    (hcounter : held.lookup .projectIds = some (toBeBytes n)) (hpos : 1 ≤ n) (hle : n ≤ exhausted)
    (hF : F d) (hM : M n d) (hN : E → N .io d) :
    B.wp F (Ends M N) (nextProjectId D directory) d := by
  have hvalue : fromBeBytes (toBeBytes n) = n :=
    fromBeBytes_toBeBytes (hle.trans_lt (by decide))
  refine wp_then (M := fun found d' => d = d' ∧ found = held.lookup .projectIds)
    (wp_read hhealthy h ⟨nofun, nofun⟩ hF ⟨rfl, rfl⟩ hN) ?_
  rintro _ _ ⟨rfl, rfl⟩
  rw [hcounter]
  refine wp_then (M := fun _ d' => d = d')
    (wp_require (fun _ => rfl) fun hlength => absurd (toBeBytes_length n) hlength) ?_
  rintro _ _ rfl
  rw [hvalue]
  refine wp_then (M := fun _ d' => d = d')
    (wp_require (fun _ => rfl) fun hrange => absurd ⟨hpos, hle⟩ hrange) ?_
  rintro _ _ rfl
  exact wp_pure hM

/-- **What a reservation leads to.** -/
inductive Reserved (D : Digest) (worker : Bytes) (E : Prop) (directory : Directory)
    (held : Table FileName Bytes) (n : ℕ) (d : JournalDisk) :
    Except JournalError ℕ × Directory → JournalDisk → Prop
  | done {d' : JournalDisk} (hlt : n < exhausted)
      (kept : Kept worker directory.limits (AList.insert .projectIds (toBeBytes (n + 1)) held))
      (quiet : Quiet D (AList.insert .projectIds (toBeBytes (n + 1)) held) d') :
      Reserved D worker E directory held n d (.ok n, directory) d'
  | spent (spent : n = exhausted) :
      Reserved D worker E directory held n d (.error .limit, directory) d
  | refused (failed : E) : Reserved D worker E directory held n d (.error .io, directory) d
  | poisoned {d' : JournalDisk} (hlt : n < exhausted) (failed : E)
      (guards : Guards D (Between worker directory.limits held .projectIds
        (toBeBytes (n + 1))) d') :
      Reserved D worker E directory held n d (.error .io, { directory with poisoned := true }) d'

theorem Reserved.answer {x : Except JournalError ℕ × Directory} {d' : JournalDisk}
    (h : Reserved D worker E directory held n d x d') :
    E ∧ x.1 = .error .io ∨ x.1 = if n = exhausted then .error .limit else .ok n := by
  cases h with
  | done hlt => exact .inr (if_neg hlt.ne).symm
  | spent hspent => exact .inr (if_pos hspent).symm
  | refused hE => exact .inl ⟨hE, rfl⟩
  | poisoned _ hE => exact .inl ⟨hE, rfl⟩

theorem wp_reserve (hhealthy : directory.poisoned = false)
    (h : Tidy D worker directory.limits held d)
    (hcounter : held.lookup .projectIds = some (toBeBytes n)) (hpos : 1 ≤ n) (hle : n ≤ exhausted) :
    Arena.wp (alone B.does) (fun d' => n < exhausted ∧
        Guards D (Between worker directory.limits held .projectIds (toBeBytes (n + 1))) d' ∨ d' = d)
      (Reserved D worker E directory held n d) (reserveProjectId D directory) d := by
  have hfounded : held.lookup .identity ≠ none := fun hnone =>
    Option.some_ne_none _ (hcounter.symm.trans (h.kept.founded _ hnone))
  refine wp_bind (M := Ends (fun next d' => d' = d ∧ next = n) fun e d' => d' = d ∧ e = .io ∧ E)
    (wp_next hhealthy h hcounter hpos hle (.inr rfl) ⟨rfl, rfl⟩ fun hE => ⟨rfl, rfl, hE⟩)
    fun x d' _ hx => ?_
  cases x with
  | error e =>
    obtain ⟨rfl, rfl, hE⟩ := hx
    exact alone_pure (.refused hE)
  | ok next =>
    obtain ⟨rfl, rfl⟩ := hx
    show Arena.wp (alone B.does) _ _ (if next = exhausted then _ else _) d'
    split_ifs with hspent
    · exact alone_pure (.spent hspent)
    · have hlt := lt_of_le_of_ne hle hspent
      refine wp_bind (wp_mono (wp_write hhealthy h ⟨nofun, nofun⟩
        (fun _ => toBeBytes_length _) (.inr hfounded)) (fun _ hguards => .inl ⟨hlt, hguards⟩)
        fun _ _ _ hwrote => hwrote) fun outcome d'' _ hwrote => alone_pure ?_
      cases hwrote with
      | done hkept hquiet =>
        have hsame : next % 2 ^ 32 = next := Nat.mod_eq_of_lt (hlt.trans (by decide))
        show Reserved D worker E directory held next d' (.ok (next % 2 ^ 32), directory) d''
        rw [hsame]
        exact .done hlt hkept hquiet
      | refused hwhy =>
        obtain ⟨rfl, hE⟩ | ⟨-, hlong⟩ := hwhy
        · exact .refused hE
        · exact absurd hlong (projectIds_fits _)
      | poisoned hE hguards => exact .poisoned hlt hE hguards

/-- **An open directory of ids.** -/
structure Opened (D : Digest) (worker : Bytes) (Hs : Table FileName Bytes → Prop)
    (directory : Directory) (d : JournalDisk) : Prop where
  fresh : directory = ⟨defaultLimits, false⟩
  fits : Fits worker defaultLimits
  holds : ∃ held, Hs held ∧ held.lookup .projectIds ≠ none ∧ Quiet D held d

theorem Opened.mono {Hs Hs' : Table FileName Bytes → Prop} (h : Opened D worker Hs directory d)
    (hle : ∀ held, Hs held → Hs' held) : Opened D worker Hs' directory d := by
  obtain ⟨hfresh, hfits, held, hheld, hsome, hquiet⟩ := h
  exact ⟨hfresh, hfits, held, hle held hheld, hsome, hquiet⟩

/-- **An empty directory is initialized**, and its counter is one, or it was not
empty. -/
theorem wp_initializing {Hs Hs' : Table FileName Bytes → Prop} (hguards : Guards D Hs d)
    (hHs : ∀ held, Hs held → Kept worker defaultLimits held) (hle : ∀ held, Hs held → Hs' held)
    (hfresh : ∀ held, Hs held → held.lookup .projectIds = none → ∀ held',
      Issued worker [] held' → Hs' held') :
    B.wp (Guards D Hs') (Ends
      (Opened D worker fun held => Hs' held ∧ held.lookup .projectIds = some (toBeBytes 1))
      (fun _ d' => Guards D Hs' d' ∧ (E ∨ worker.length ≠ 36 ∨ ∃ held, Hs held ∧ held ≠ ∅)))
      (initializeProjectIds D worker) d := by
  refine wp_then (M := fun _ d' => d = d' ∧ worker.length = 36) (wp_require (fun h => ⟨rfl, h⟩)
    fun h => ⟨hguards.mono hle, .inr (.inl h)⟩) ?_
  rintro _ _ ⟨rfl, hlength⟩
  have hfits : Fits worker defaultLimits := ⟨hlength, by decide⟩
  refine wp_then (M := fun directory d' => directory = ⟨defaultLimits, false⟩ ∧
    ∃ held, Hs held ∧ Quiet D held d') (wp_mono (wp_open hguards hHs hfits)
      (fun _ h => h.mono hle) fun x _ _ hx => ?_) ?_
  · cases x with
    | ok directory => exact hx
    | error e => exact ⟨hx.2.2.mono hle, .inl hx.2.1⟩
  rintro _ d' ⟨rfl, held, hheld, hquiet⟩
  have htidy : Tidy D worker defaultLimits held d' := ⟨hquiet, hHs held hheld, hfits⟩
  have hguards : Guards D Hs' d' := hquiet.guards (hle held hheld)
  have hio : E → Guards D Hs' d' ∧ (E ∨ worker.length ≠ 36 ∨ ∃ held, Hs held ∧ held ≠ ∅) :=
    fun hE => ⟨hguards, .inl hE⟩
  have hfull : held ≠ ∅ → Guards D Hs' d' ∧
      (E ∨ worker.length ≠ 36 ∨ ∃ held, Hs held ∧ held ≠ ∅) :=
    fun hne => ⟨hguards, .inr (.inr ⟨held, hheld, hne⟩)⟩
  have hfound : ∀ name, held.lookup name ≠ none → held ≠ ∅ := fun name hsome hempty =>
    hsome (by rw [hempty]; rfl)
  refine wp_then (M := fun inventory d'' => d' = d'' ∧ inventory.Perm (attemptsIn (sizes held)))
    (wp_inventory rfl htidy hguards (fun _ hperm => ⟨rfl, hperm⟩) hio) ?_
  rintro inventory _ ⟨rfl, hperm⟩
  refine wp_then (M := fun _ d'' => d' = d'') (wp_require (fun _ => rfl) fun hne => hfull ?_) ?_
  · rintro rfl
    exact hne hperm.eq_nil
  rintro _ _ rfl
  refine wp_then (M := fun _ d'' => d' = d'' ∧ held.lookup .identity = none) (wp_absent rfl htidy
    ⟨nofun, nofun⟩ hguards (fun h => ⟨rfl, h⟩) hio fun hsome => hfull (hfound _ hsome)) ?_
  rintro _ _ ⟨rfl, hunnamed⟩
  refine wp_then (M := fun _ d'' => d' = d'') (wp_absent rfl htidy ⟨nofun, nofun⟩ hguards
    (fun _ => rfl) hio fun hsome => hfull (hfound _ hsome)) ?_
  rintro _ _ rfl
  refine wp_then (M := fun _ d'' => d' = d'' ∧ held.lookup .projectIds = none) (wp_absent rfl htidy
    ⟨nofun, nofun⟩ hguards (fun h => ⟨rfl, h⟩) hio fun hsome => hfull (hfound _ hsome)) ?_
  rintro _ _ ⟨rfl, hnone⟩
  -- the identity comes first, and the counter only once it is durable
  have hother : FileName.projectIds ≠ .identity := nofun
  have hnamed : Issued worker [] (AList.insert .identity worker held) :=
    ⟨htidy.kept.identity,
      .insert (fun n hn => absurd (htidy.kept.founded n hunnamed) hn) (.inl rfl) _,
      .inl ⟨(AList.lookup_insert_ne hother).trans hnone, rfl⟩⟩
  have hhas : (AList.insert FileName.identity worker held).lookup .identity ≠ none := by
    rw [AList.lookup_insert]
    exact Option.some_ne_none _
  refine wp_then (M := fun directory d'' => directory = ⟨defaultLimits, false⟩ ∧
    Quiet D (AList.insert .identity worker held) d'') (wp_put rfl htidy ⟨nofun, nofun⟩
      (fun _ => rfl) (.inl rfl) ?_ (fun _ h => h.mono ?_) (fun _ _ hquiet => ⟨rfl, hquiet⟩)
      fun _ hE h => ⟨h.mono ?_, .inl hE⟩) ?_
  · rintro (hlong | ⟨id, hid⟩)
    · exact absurd hfits.worker_le (not_le.mpr hlong)
    · exact absurd hid nofun
  rotate_left 2
  · rintro _ d'' ⟨rfl, hquiet⟩
    have hstarted : ∀ x, Between worker defaultLimits
        (AList.insert .identity worker held) .projectIds (toBeBytes 1) x → Hs' x := by
      rintro _ (rfl | ⟨rfl, hkept⟩)
      · exact hfresh held hheld hnone _ hnamed
      · exact hfresh held hheld hnone _ (.insert hkept hnamed.2.1 (by decide) (by decide) nofun)
    refine wp_put rfl ⟨hquiet, hnamed.1, hfits⟩ ⟨nofun, nofun⟩ (fun _ => toBeBytes_length 1)
      (.inr hhas) (projectIds_fits 1) (fun _ h => h.mono hstarted)
      (fun _ hkept hquiet => ⟨rfl, hfits, _, ⟨hstarted _ (.inr ⟨rfl, hkept⟩),
        AList.lookup_insert _⟩, ?_, hquiet⟩)
      fun _ hE h => ⟨h.mono hstarted, .inl hE⟩
    rw [AList.lookup_insert]
    exact Option.some_ne_none _
  all_goals
    rintro _ (rfl | ⟨rfl, -⟩)
    · exact hle _ hheld
    · exact hfresh held hheld hnone _ hnamed

/-- **A directory is opened again**, with the counter where it was. Once an id was
returned that fails only with a call. -/
theorem wp_openProjectIds (hguards : Guards D (Issued worker ids) d) :
    B.wp (Guards D (Issued worker ids)) (Ends (Opened D worker (Issued worker ids))
      (fun _ d' => Guards D (Issued worker ids) d' ∧ (E ∨ worker.length ≠ 36 ∨ ids = [])))
      (openProjectIds D worker) d := by
  refine wp_then (M := fun _ d' => d = d' ∧ worker.length = 36) (wp_require (fun h => ⟨rfl, h⟩)
    fun h => ⟨hguards, .inr (.inl h)⟩) ?_
  rintro _ _ ⟨rfl, hlength⟩
  have hfits : Fits worker defaultLimits := ⟨hlength, by decide⟩
  refine wp_then (M := fun directory d' => directory = ⟨defaultLimits, false⟩ ∧
    ∃ held, Issued worker ids held ∧ Quiet D held d')
      (wp_mono (wp_open hguards (fun _ h => h.1) hfits) (fun _ h => h) fun x _ _ hx => ?_) ?_
  · cases x with
    | ok directory => exact hx
    | error e => exact ⟨hx.2.2, .inl hx.2.1⟩
  rintro _ d' ⟨rfl, held, hissued, hquiet⟩
  have htidy : Tidy D worker defaultLimits held d' := ⟨hquiet, hissued.1, hfits⟩
  have hguards : Guards D (Issued worker ids) d' := hquiet.guards hissued
  have hio : E → Guards D (Issued worker ids) d' ∧ (E ∨ worker.length ≠ 36 ∨ ids = []) :=
    fun hE => ⟨hguards, .inl hE⟩
  -- without a counter no id was returned
  have hunused : held.lookup .projectIds = none → ids = [] := fun hnone =>
    hissued.2.2.elim (·.2) fun ⟨n, hcounter, _⟩ => absurd (hcounter.symm.trans hnone) nofun
  refine wp_then (M := fun found d'' => d' = d'' ∧ found = held.lookup .identity)
    (wp_read rfl htidy ⟨nofun, nofun⟩ hguards ⟨rfl, rfl⟩ hio) ?_
  rintro _ _ ⟨rfl, rfl⟩
  cases hidentity : held.lookup .identity with
  | none =>
    have hempty : ids = [] := hunused (hissued.1.founded _ hidentity)
    exact wp_ofExcept (x := .error .corrupt) ⟨hguards, .inr (.inr hempty)⟩
  | some identity =>
    have hsame : identity = worker := hissued.1.takes _ _ hidentity
    have hquietly : held.lookup .session = none := by
      by_contra hsome
      exact (hissued.2.1 _ hsome).elim nofun nofun
    refine wp_then (M := fun _ d'' => d' = d'')
      (wp_require (fun _ => rfl) fun h => absurd hsame h) ?_
    rintro _ _ rfl
    refine wp_then (M := fun inventory d'' => d' = d'' ∧ inventory = [])
      (wp_inventory rfl htidy hguards (fun _ hperm => ⟨rfl, ?_⟩) hio) ?_
    · rw [hissued.2.1.attemptsIn_eq_nil] at hperm
      exact hperm.eq_nil
    rintro inventory _ ⟨rfl, hnone⟩
    refine wp_then (M := fun _ d'' => d' = d'')
      (wp_require (fun _ => rfl) fun h => absurd hnone h) ?_
    rintro _ _ rfl
    refine wp_then (M := fun _ d'' => d' = d'') (wp_absent rfl htidy ⟨nofun, nofun⟩ hguards
      (fun _ => rfl) hio fun hsome => absurd hquietly hsome) ?_
    rintro _ _ rfl
    obtain ⟨hnone, hempty⟩ | ⟨n, hcounter, hpos, hle, -⟩ := hissued.2.2
    · refine wp_then (M := fun _ _ => False)
        (wp_then (M := fun found d'' => d' = d'' ∧ found = none)
        (wp_read rfl htidy ⟨nofun, nofun⟩ hguards ⟨rfl, hnone⟩ hio) ?_) fun _ _ h => h.elim
      rintro _ _ ⟨rfl, rfl⟩
      exact wp_ofExcept (x := .error .corrupt) ⟨hguards, .inr (.inr hempty)⟩
    · refine wp_then (M := fun _ d'' => d' = d'')
        (wp_next rfl htidy hcounter hpos hle hguards rfl hio) ?_
      rintro _ _ rfl
      refine wp_pure ⟨rfl, hfits, held, hissued, ?_, hquiet⟩
      rw [hcounter]
      exact Option.some_ne_none _

end

/-! ## The allocator of a host -/

/-- **A directory of ids on a host**: the disk, the process that has it open, and
the ids that were returned, the last one first. -/
structure Allocator where
  disk : JournalDisk
  process : Option Directory
  returned : List ℕ

/-- Before the directory was ever opened. -/
def Allocator.empty : Allocator := ⟨Host.empty.disk, none, []⟩

/-- The programs that open the directory. -/
def OpensProjectIds (D : Digest) (worker : Bytes) (p : Io Directory) : Prop :=
  p = initializeProjectIds D worker ∨ p = openProjectIds D worker

/-- **One step of the allocator.** A process may end, or be cut, at any moment. -/
inductive Allocator.Step (D : Digest) (worker : Bytes) : Allocator → Allocator → Prop
  | opens {a : Allocator} {p : Io Directory} {r : Except JournalError Directory} {d : JournalDisk}
      (hp : OpensProjectIds D worker p) (closed : a.process = none)
      (ran : p.run.Ran Sys.Does a.disk r d) :
      Step D worker a { a with disk := d, process := r.toOption }
  | reserves {a : Allocator} {directory directory' : Directory} {r : Except JournalError ℕ}
      {d : JournalDisk} (running : a.process = some directory)
      (ran : (reserveProjectId D directory).Ran Sys.Does a.disk (r, directory') d) :
      Step D worker a ⟨d, some directory', r.toOption.toList ++ a.returned⟩
  | cutOpening {a : Allocator} {p : Io Directory} {d : JournalDisk}
      (hp : OpensProjectIds D worker p) (closed : a.process = none)
      (cut : p.run.Cut Sys.Does a.disk d) : Step D worker a { a with disk := d }
  | cutReserving {a : Allocator} {directory : Directory} {d : JournalDisk}
      (running : a.process = some directory)
      (cut : (reserveProjectId D directory).Cut Sys.Does a.disk d) :
      Step D worker a { a with disk := d, process := none }
  | exits {a : Allocator} : Step D worker a { a with process := none }
  | losesPower {a : Allocator} {d : JournalDisk} (closed : a.process = none)
      (crash : a.disk.Crash d) : Step D worker a { a with disk := d }

/-- **What holds throughout.** -/
structure Allocator.Sound (D : Digest) (worker : Bytes) (a : Allocator) : Prop where
  increasing : a.returned.Pairwise (· > ·)
  range : ∀ id ∈ a.returned, 1 ≤ id ∧ id < exhausted
  guards : Guards D (Issued worker a.returned) a.disk
  running : ∀ directory, a.process = some directory → directory.limits = defaultLimits ∧
    (directory.poisoned = false →
      Opened D worker (Issued worker a.returned) directory a.disk)

section

variable {D : Digest} {worker : Bytes} {a a' : Allocator} {directory : Directory}

/-- What becomes of an attempt to open the directory. -/
theorem Allocator.Sound.opening {p : Io Directory} (h : a.Sound D worker)
    (hp : OpensProjectIds D worker p) :
    anyCalls.wp (Guards D (Issued worker a.returned))
      (Ends (Opened D worker (Issued worker a.returned))
        (fun _ => Guards D (Issued worker a.returned))) p a.disk := by
  obtain rfl | rfl := hp
  · refine wp_mono (wp_initializing h.guards (fun _ hheld => hheld.1) (fun _ hheld => hheld)
      fun held hheld hnone held' hissued => ?_) (fun _ hF => hF) fun x _ _ hx => ?_
    · obtain ⟨-, hids⟩ | ⟨n, hcounter, -⟩ := hheld.2.2
      · rw [hids]
        exact hissued
      · exact absurd (hcounter.symm.trans hnone) (Option.some_ne_none _)
    · cases x with
      | ok directory => exact hx.mono fun _ hheld => hheld.1
      | error e => exact hx.1
  · refine wp_mono (wp_openProjectIds h.guards) (fun _ hF => hF) fun x _ _ hx => ?_
    cases x with
    | ok directory => exact hx
    | error e => exact hx.1

/-- What becomes of a reservation. -/
theorem Allocator.Sound.reserving (h : a.Sound D worker) (hrunning : a.process = some directory)
    (hhealthy : directory.poisoned = false) :
    ∃ held n, Issued worker a.returned held ∧ 1 ≤ n ∧ n ≤ exhausted ∧ (∀ id ∈ a.returned, id < n) ∧
      ∀ {E : Prop} (B : Behaviour E), Arena.wp (alone B.does) (fun d' => n < exhausted ∧
          Guards D (Between worker defaultLimits held .projectIds (toBeBytes (n + 1))) d' ∨
          d' = a.disk)
        (Reserved D worker E directory held n a.disk) (reserveProjectId D directory) a.disk := by
  obtain ⟨rfl, hfits, held, hissued, hsome, hquiet⟩ := (h.running directory hrunning).2 hhealthy
  obtain ⟨hnone, -⟩ | ⟨n, hcounter, hpos, hle, hids⟩ := hissued.2.2
  · exact absurd hnone hsome
  · exact ⟨held, n, hissued, hpos, hle, hids, fun _ =>
      wp_reserve hhealthy ⟨hquiet, hissued.1, hfits⟩ hcounter hpos hle⟩

/-- A poisoned allocator makes no call. -/
theorem reserve_of_poisoned (D : Digest) (hpoisoned : directory.poisoned = true) :
    reserveProjectId D directory = .pure (.error .poisoned, directory) := by
  obtain ⟨limits, _⟩ := directory
  obtain rfl : _ = true := hpoisoned
  rfl

/-- Before a write of the counter or after it, every id is below it. -/
theorem Issued.between {held x : Table FileName Bytes} {ids : List ℕ} {n : ℕ}
    (h : Issued worker ids held) (hlt : n < exhausted) (hids : ∀ id ∈ ids, id < n)
    (hx : Between worker defaultLimits held .projectIds (toBeBytes (n + 1)) x) :
    Issued worker ids x := by
  obtain rfl | ⟨rfl, hkept⟩ := hx
  · exact h
  · exact .insert hkept h.2.1 (Nat.succ_pos n) hlt fun id hid =>
      (hids id hid).trans (Nat.lt_succ_self n)

/-- **Every step keeps the allocator sound.** -/
theorem Allocator.Step.sound (hstep : Allocator.Step D worker a a') (h : a.Sound D worker) :
    a'.Sound D worker := by
  cases hstep with
  | @opens p r d hp hclosed hran =>
    have hends := wp_ran (h.opening hp) hran
    cases r with
    | error e => exact ⟨h.increasing, h.range, hends, nofun⟩
    | ok directory =>
      obtain ⟨held, hissued, -, hquiet⟩ := hends.holds
      refine ⟨h.increasing, h.range, hquiet.guards hissued, fun _ hprocess => ?_⟩
      obtain rfl := Option.some.inj hprocess
      exact ⟨by rw [hends.fresh], fun _ => hends⟩
  | @reserves directory directory' r d hrunning hran =>
    cases hpoisoned : directory.poisoned with
    | true =>
      rw [reserve_of_poisoned D hpoisoned] at hran
      cases hran
      exact ⟨h.increasing, h.range, h.guards,
        fun _ hprocess => h.running _ (hrunning.trans hprocess)⟩
    | false =>
      obtain ⟨hlimits, hopen⟩ := h.running directory hrunning
      obtain ⟨held, n, hissued, hpos, -, hids, hreserve⟩ := h.reserving hrunning hpoisoned
      cases wp_ran (hreserve anyCalls) hran with
      | done hlt hkept hquiet' =>
        -- the id that is returned is the old counter, and the new one is above it
        have hissued' : Issued worker (n :: a.returned)
            (AList.insert .projectIds (toBeBytes (n + 1)) held) := by
          refine .insert (hlimits ▸ hkept) hissued.2.1 (Nat.succ_pos n) hlt fun id hid => ?_
          obtain rfl | hid := List.mem_cons.mp hid
          · exact Nat.lt_succ_self id
          · exact (hids id hid).trans (Nat.lt_succ_self n)
        refine ⟨List.pairwise_cons.mpr ⟨hids, h.increasing⟩, fun id hid => ?_,
          hquiet'.guards hissued', fun _ hprocess => ?_⟩
        · obtain rfl | hid := List.mem_cons.mp hid
          · exact ⟨hpos, hlt⟩
          · exact h.range id hid
        · obtain rfl := Option.some.inj hprocess
          refine ⟨hlimits, fun _ => ⟨(hopen hpoisoned).fresh, (hopen hpoisoned).fits, _,
            hissued', ?_, hquiet'⟩⟩
          rw [AList.lookup_insert]
          exact Option.some_ne_none _
      | poisoned hlt _ hguards =>
        refine ⟨h.increasing, h.range, hguards.mono fun x hx => ?_, fun _ hprocess => ?_⟩
        · exact hissued.between hlt hids (hlimits ▸ hx)
        · obtain rfl := Option.some.inj hprocess
          exact ⟨hlimits, nofun⟩
      | _ => exact ⟨h.increasing, h.range, h.guards,
          fun _ hprocess => h.running _ (hrunning.trans hprocess)⟩
  | cutOpening hp hclosed hcut =>
    exact ⟨h.increasing, h.range, wp_cut (h.opening hp) h.guards hcut,
      fun _ hprocess => absurd (hclosed.symm.trans hprocess) nofun⟩
  | @cutReserving directory d hrunning hcut =>
    refine ⟨h.increasing, h.range, ?_, nofun⟩
    cases hpoisoned : directory.poisoned with
    | true =>
      rw [reserve_of_poisoned D hpoisoned] at hcut
      cases hcut
      exact h.guards
    | false =>
      obtain ⟨held, n, hissued, -, -, hids, hreserve⟩ := h.reserving hrunning hpoisoned
      obtain ⟨hlt, hguards⟩ | rfl := wp_cut (hreserve anyCalls) (.inr rfl) hcut
      · exact hguards.mono fun x => hissued.between hlt hids
      · exact h.guards
  | exits => exact ⟨h.increasing, h.range, h.guards, nofun⟩
  | losesPower hclosed hcrash =>
    exact ⟨h.increasing, h.range, h.guards.crash hcrash,
      fun _ hprocess => absurd (hclosed.symm.trans hprocess) nofun⟩

theorem Issued.empty : Issued worker [] ∅ :=
  ⟨.empty, fun _ hname => absurd rfl hname, .inl ⟨rfl, rfl⟩⟩

theorem Allocator.empty_sound : Allocator.empty.Sound D worker :=
  ⟨.nil, nofun, guards_empty .empty, nofun⟩

/-- **The allocator of every host is sound.** -/
theorem Allocator.reach_sound
    (hreach : ReflTransGen (Allocator.Step D worker) Allocator.empty a) : a.Sound D worker := by
  induction hreach with
  | refl => exact Allocator.empty_sound
  | tail _ hstep ih => exact hstep.sound ih

end

/-- **Project ids are never reused.** Whatever processes reserve ids, end, are cut
and open the directory again, and whenever the power is lost:

* the ids that were returned are strictly increasing and within a signed 32-bit
  integer;
* a reservation returns the next id, which is above all of them, or the error that
  there is none, unless a call fails; and when no call fails it does so;
* after an error of a write no id is returned until the directory is opened again. -/
theorem project_ids_never_reused (D : Digest) (worker : Bytes) {a : Allocator}
    (hreach : ReflTransGen (Allocator.Step D worker) Allocator.empty a) :
    a.returned.Pairwise (· > ·) ∧ (∀ id ∈ a.returned, 1 ≤ id ∧ id ≤ 2 ^ 31 - 1) ∧
    ∀ directory, a.process = some directory →
      (directory.poisoned = false → ∃ n, 1 ≤ n ∧ n ≤ 2 ^ 31 ∧ (∀ id ∈ a.returned, id < n) ∧
        (∀ r directory' d, (reserveProjectId D directory).Ran Sys.Does a.disk (r, directory') d →
          r = .error .io ∨ r = if n = 2 ^ 31 then .error .limit else .ok n) ∧
        ∃ directory' d, (reserveProjectId D directory).Ran Sys.Works a.disk
          (if n = 2 ^ 31 then .error .limit else .ok n, directory') d) ∧
      (directory.poisoned = true → ∀ r d,
        (reserveProjectId D directory).Ran Sys.Does a.disk r d →
        r = (.error .poisoned, directory)) := by
  have h := Allocator.reach_sound hreach
  refine ⟨h.increasing, fun id hid => ⟨(h.range id hid).1, Nat.le_sub_one_of_lt (h.range id hid).2⟩,
    fun directory hrunning => ⟨fun hhealthy => ?_, fun hpoisoned r d hran => ?_⟩⟩
  · obtain ⟨held, n, -, hpos, hle, hids, hreserve⟩ := h.reserving hrunning hhealthy
    refine ⟨n, hpos, hle, hids, fun r directory' d hran => ?_, ?_⟩
    · obtain ⟨-, hio⟩ | hanswer := (wp_ran (hreserve anyCalls) hran).answer
      · exact .inl hio
      · exact .inr hanswer
    · obtain ⟨⟨r, directory'⟩, d, hran⟩ :=
        Prog.exists_ran Sys.exists_works (reserveProjectId D directory) a.disk
      have hanswer := (wp_ran (hreserve workingCalls) hran).answer.resolve_left (·.1)
      exact ⟨directory', d, hanswer ▸ hran⟩
  · rw [reserve_of_poisoned D hpoisoned] at hran
    cases hran
    rfl

namespace Sample

/-- A new directory is initialized, and its first id is one. -/
theorem first_id : ∃ d, ReflTransGen (Allocator.Step journalDigest workerName) Allocator.empty
    ⟨d, some ⟨defaultLimits, false⟩, [1]⟩ := by
  obtain ⟨r, d, hran⟩ := Prog.exists_ran Sys.exists_works
    (initializeProjectIds journalDigest workerName).run Allocator.empty.disk
  have hopened := wp_ran (wp_initializing (B := workingCalls) (guards_empty (H := (· = ∅)) rfl)
    (fun _ hheld => hheld ▸ .empty) (fun _ hheld => hheld ▸ .empty)
    fun _ _ _ _ hissued => hissued) hran
  cases r with
  | error e =>
    obtain hfalse | hlength | ⟨held, hempty, hne⟩ := hopened.2
    · exact hfalse.elim
    · exact absurd (by decide) hlength
    · exact absurd hempty hne
  | ok directory =>
    obtain ⟨rfl, hfits, held, ⟨hissued, hone⟩, -, hquiet⟩ := hopened
    have hstep : Allocator.Step journalDigest workerName Allocator.empty
        ⟨d, some ⟨defaultLimits, false⟩, []⟩ := .opens (.inl rfl) rfl
        (hran.mono fun _ _ _ _ h => h.1)
    obtain ⟨r, d', hreserved⟩ := Prog.exists_ran Sys.exists_works
      (reserveProjectId journalDigest ⟨defaultLimits, false⟩) d
    cases wp_ran (wp_reserve (B := workingCalls) rfl ⟨hquiet, hissued.1, hfits⟩ hone (by decide)
        (by decide)) hreserved with
    | done =>
      have hreserves : Allocator.Step journalDigest workerName ⟨d, some ⟨defaultLimits, false⟩, []⟩
          ⟨d', some ⟨defaultLimits, false⟩, (Except.ok 1 : Except JournalError ℕ).toOption.toList
          ++ []⟩ :=
        .reserves rfl (hreserved.mono fun _ _ _ _ h => h.1)
      exact ⟨d', .tail (.single hstep) hreserves⟩
    | spent hspent => exact absurd hspent (by decide)
    | refused hfalse => exact hfalse.elim
    | poisoned _ hfalse => exact hfalse.elim

end Sample

/-- **No id is returned twice across a crash.** Id 1 is returned, the next
reservation is cut, the power is lost and the directory is opened again: the id
that is reserved then is above 1. -/
theorem sample_project_ids : ∃ a directory,
    ReflTransGen (Allocator.Step Sample.journalDigest Sample.workerName) Allocator.empty a ∧
    a.process = some directory ∧ a.returned = [1] ∧ ∃ n directory' d, 1 < n ∧ n ≤ 2 ^ 31 ∧
      (reserveProjectId Sample.journalDigest directory).Ran Sys.Works a.disk
        (if n = 2 ^ 31 then .error .limit else .ok n, directory') d := by
  obtain ⟨d₁, hfirst⟩ := Sample.first_id
  obtain ⟨r, d₂, hran⟩ := Prog.exists_ran Sys.exists_works
    (reserveProjectId Sample.journalDigest ⟨defaultLimits, false⟩) d₁
  have hcut := hfirst.tail (.cutReserving rfl (hran.mono fun _ _ _ _ h => h.1).cut)
  obtain ⟨d₃, hcrash⟩ := d₂.exists_crash
  have hlost := hcut.tail (.losesPower rfl hcrash)
  obtain ⟨r, d₄, hopen⟩ := Prog.exists_ran Sys.exists_works
    (openProjectIds Sample.journalDigest Sample.workerName).run d₃
  have hopened :=
    wp_ran (wp_openProjectIds (B := workingCalls) (Allocator.reach_sound hlost).guards) hopen
  cases r with
  | error e =>
    obtain hfalse | hlength | hempty := hopened.2
    · exact hfalse.elim
    · exact absurd (by decide) hlength
    · exact absurd hempty (List.cons_ne_nil _ _)
  | ok directory =>
    have hagain := hlost.tail (.opens (.inr rfl) rfl (hopen.mono fun _ _ _ _ h => h.1))
    obtain ⟨n, -, hle, hids, -, directory', d, hreserved⟩ :=
      ((project_ids_never_reused _ _ hagain).2.2 directory rfl).1 (by rw [hopened.fresh])
    exact ⟨_, directory, hagain, rfl, rfl, n, directory', d, hids 1 List.mem_cons_self, hle,
      hreserved⟩

end Dispatch
