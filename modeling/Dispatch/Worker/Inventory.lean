import Dispatch.Worker.Directory

/-!
# What the journal holds

A journal is told by its records, that is, by the payloads of its names. `Kept`
says which records the journal of a worker may hold, and `Kept.insert_attempt`
that the check before a write keeps them within the limits. A directory whose
files are the frames of such records is counted without an error, in whatever
order it is listed.
-/

namespace Dispatch

open Txn

variable {name : FileName} {entries : List (FileName × ℕ)} {payload : Bytes} {size : ℕ}

/-! ## Frames -/

theorem fromBeBytes_toBeBytes {n : ℕ} (h : n < 2 ^ 64) : fromBeBytes (toBeBytes n) = n := by
  simp only [toBeBytes, fromBeBytes, List.range, List.range.loop, List.map_cons, List.map_nil,
    List.foldl_cons, List.foldl_nil, UInt8.toNat_ofNat']
  omega

theorem toBeBytes_length (n : ℕ) : (toBeBytes n).length = 8 := by
  rw [toBeBytes, List.length_map, List.length_range]

theorem frame_length (D : Digest) (payload : Bytes) :
    (frame D payload).length = payload.length + headerLength := by
  simp only [frame, List.length_append, toBeBytes_length, D.length, magic, List.length_cons,
    List.length_nil, headerLength]
  omega

/-- **What is written is read back.** -/
theorem unframe_frame (D : Digest) (h : payload.length ≤ maxPayload) :
    unframe D (frame D payload) = .ok payload := by
  have hbytes : payload.length < 2 ^ 64 := h.trans_lt (by norm_num [maxPayload])
  have hmagic : (frame D payload).take 8 = magic := by
    rw [frame, List.append_assoc, List.append_assoc]
    exact List.take_left' rfl
  have hlength : ((frame D payload).drop 8).take 8 = toBeBytes payload.length := by
    rw [frame, List.append_assoc, List.append_assoc,
      List.drop_left' (show magic.length = 8 from rfl)]
    exact List.take_left' (toBeBytes_length _)
  have hhash : ((frame D payload).drop 16).take 32 = D.hash payload := by
    rw [frame, List.append_assoc, List.drop_left' (by simp [magic, toBeBytes_length])]
    exact List.take_left' (D.length _)
  have hbody : (frame D payload).drop headerLength = payload :=
    List.drop_left' (by simp [magic, toBeBytes_length, D.length, headerLength])
  simp only [unframe, bind_ok, require_ok, pure_ok, frame_length, hmagic, hlength, hhash,
    hbody, fromBeBytes_toBeBytes hbytes, and_self, and_true, exists_const]
  omega

/-! ## Counting -/

/-- The attempts of a listing, with their sizes. -/
def attemptsIn (entries : List (FileName × ℕ)) : List (Uuid × ℕ) :=
  entries.filterMap (fun x => match x.1 with
    | .attempt id => some (id, x.2)
    | _ => none)

theorem mem_attemptsIn {x : Uuid × ℕ} :
    x ∈ attemptsIn entries ↔ (FileName.attempt x.1, x.2) ∈ entries := by
  rw [attemptsIn, List.mem_filterMap]
  constructor
  · rintro ⟨⟨name, size⟩, hmem, hx⟩
    cases name with
    | attempt id =>
      obtain rfl := Option.some.inj hx
      exact hmem
    | _ => exact absurd hx (by simp)
  · intro hmem
    exact ⟨_, hmem, rfl⟩

/-- An attempt is counted once. -/
theorem attemptsIn_nodup (h : (entries.map Prod.fst).Nodup) :
    ((attemptsIn entries).map Prod.fst).Nodup := by
  have hids : (attemptsIn entries).map Prod.fst
      = (entries.map Prod.fst).filterMap (fun n => match n with
      | .attempt id => some id
      | _ => none) := by
    rw [attemptsIn, List.map_filterMap, List.filterMap_map]
    refine List.filterMap_congr fun x _ => ?_
    obtain ⟨name, size⟩ := x
    cases name <;> rfl
  rw [hids]
  refine h.filterMap fun n n' id hn hn' => ?_
  cases n <;> cases n' <;> simp_all

/-- Listings with the same attempts count the same. -/
theorem attemptsIn_perm {entries' : List (FileName × ℕ)} (h : (entries.map Prod.fst).Nodup)
    (h' : (entries'.map Prod.fst).Nodup)
    (hsame : ∀ id size, (FileName.attempt id, size) ∈ entries ↔
    (FileName.attempt id, size) ∈ entries') : (attemptsIn entries).Perm (attemptsIn entries') :=
  (List.perm_ext_iff_of_nodup (attemptsIn_nodup h).of_map (attemptsIn_nodup h').of_map).mpr
  fun x => by
    rw [mem_attemptsIn, mem_attemptsIn, hsame]

/-- A file of the name may have the size. -/
def FileName.Sized (name : FileName) (size : ℕ) : Prop :=
  match name with
  | .lock => True
  | .identity => True
  | .projectIds => size = 8 + headerLength
  | .session => size ≤ maxSession + headerLength
  | .attempt id => canonicalUUID id = true ∧ size ≤ maxPayload + headerLength
  | _ => False

theorem countEntry_fold {limits : JournalLimits} {counted : List (Uuid × ℕ)} {bytes : ℕ}
    (hsized : ∀ x ∈ entries, x.1.Sized x.2)
    (hcount : counted.length + (attemptsIn entries).length ≤ limits.maxAttempts)
    (hbytes : bytes + ((attemptsIn entries).map Prod.snd).sum ≤ limits.maxBytes)
    (hlimit : limits.maxBytes < 2 ^ 64) :
    entries.foldlM (countEntry limits) (counted, bytes)
      = .ok (counted ++ attemptsIn entries, bytes + ((attemptsIn entries).map Prod.snd).sum) := by
  induction entries generalizing counted bytes with
  | nil => simp only [attemptsIn, List.filterMap_nil, List.append_nil, List.map_nil, List.sum_nil,
      Nat.add_zero, List.foldlM_nil, pure_ok]
  | cons x entries ih =>
    obtain ⟨name, size⟩ := x
    have hx := hsized (name, size) List.mem_cons_self
    have hrest := fun y hy => hsized y (List.mem_cons_of_mem _ hy)
    rw [List.foldlM_cons, bind_ok]
    cases name with
    | attempt id =>
      have hcons : attemptsIn ((.attempt id, size) :: entries)
        = (id, size) :: attemptsIn entries := rfl
      simp only [hcons, List.length_cons, List.map_cons, List.sum_cons] at hcount hbytes ⊢
      refine ⟨(counted ++ [(id, size)], bytes + size), ?_, ?_⟩
      · simp only [countEntry, bind_ok, require_ok, pure_ok, exists_const, hx.1, hx.2, true_and,
          List.length_append, List.length_singleton, and_true]
        omega
      · rw [ih hrest (by simp; omega) (by omega), List.append_assoc, Nat.add_assoc]
        rfl
    | lock => exact ⟨_, rfl, ih hrest hcount hbytes⟩
    | identity => exact ⟨_, rfl, ih hrest hcount hbytes⟩
    | projectIds =>
      refine ⟨_, bind_ok.mpr ⟨(), require_of hx, rfl⟩, ih hrest hcount hbytes⟩
    | session =>
      refine ⟨_, bind_ok.mpr ⟨(), require_of hx, rfl⟩, ih hrest hcount hbytes⟩
    | pending => exact hx.elim
    | other => exact hx.elim

theorem countEntries_ok {limits : JournalLimits} (hsized : ∀ x ∈ entries, x.1.Sized x.2)
    (hcount : (attemptsIn entries).length ≤ limits.maxAttempts)
    (hbytes : ((attemptsIn entries).map Prod.snd).sum ≤ limits.maxBytes)
    (hlimit : limits.maxBytes < 2 ^ 64) : ∃ inventory, countEntries limits entries = .ok inventory ∧
      inventory.Perm (attemptsIn entries) := by
  have hfold : entries.foldlM (countEntry limits) ([], 0)
      = .ok ([] ++ attemptsIn entries, 0 + ((attemptsIn entries).map Prod.snd).sum) :=
    countEntry_fold hsized (by simpa using hcount) (by simpa using hbytes) hlimit
  refine ⟨_, ?_, List.perm_insertionSort (fun a b : Uuid × ℕ => a.1 ≤ b.1) (attemptsIn entries)⟩
  rw [countEntries, hfold]
  rfl

/-! ## What the journal may hold -/

/-- The sizes of the files of some records. -/
def sizes (held : Table FileName Bytes) : List (FileName × ℕ) :=
  held.entries.map (fun x => (x.1, x.2.length + headerLength))

theorem mem_sizes {held : Table FileName Bytes} :
    (name, size) ∈ sizes held ↔
      ∃ payload, held.lookup name = some payload ∧ payload.length + headerLength = size := by
  simp only [sizes, List.mem_map, Prod.mk.injEq]
  constructor
  · rintro ⟨⟨n, payload⟩, hmem, rfl, rfl⟩
    exact ⟨payload, AList.mem_lookup_iff.mpr hmem, rfl⟩
  · rintro ⟨payload, hlookup, rfl⟩
    exact ⟨⟨name, payload⟩, AList.mem_lookup_iff.mp hlookup, rfl, rfl⟩

theorem sizes_nodup (held : Table FileName Bytes) : ((sizes held).map Prod.fst).Nodup := by
  rw [sizes, List.map_map]
  exact held.nodupKeys

/-- The name and the payload of a record of the journal. -/
def FileName.Takes (worker : Bytes) (name : FileName) (payload : Bytes) : Prop :=
  match name with
  | .identity => payload = worker
  | .session => payload.length ≤ maxSession
  | .attempt id => canonicalUUID id = true ∧ payload.length ≤ maxPayload
  | .projectIds => payload.length = 8
  | _ => False

/-- **What the journal of a worker may hold**: records of the right size, within
the limits, and none before it is known whose journal it is. -/
structure Kept (worker : Bytes) (limits : JournalLimits) (held : Table FileName Bytes) : Prop where
  takes : ∀ name payload, held.lookup name = some payload → name.Takes worker payload
  founded : ∀ name, held.lookup .identity = none → held.lookup name = none
  count : (attemptsIn (sizes held)).length ≤ limits.maxAttempts
  bytes : ((attemptsIn (sizes held)).map Prod.snd).sum ≤ limits.maxBytes

variable {worker : Bytes} {limits : JournalLimits} {held : Table FileName Bytes}

theorem sizes_insert (name : FileName) (payload : Bytes) (held : Table FileName Bytes) :
    sizes (AList.insert name payload held)
      = (name, payload.length + headerLength) :: sizes (held.erase name) := rfl

/-- A record among the others. -/
theorem sizes_perm (h : held.lookup name = some payload) :
    (sizes held).Perm ((name, payload.length + headerLength) :: sizes (held.erase name)) := by
  have hkey : name ∈ held := AList.lookup_isSome.mp (by simp [h])
  obtain ⟨payload', l₁, l₂, -, hentries, herase⟩ := List.exists_of_kerase hkey
  have hsame : payload' = payload := by
    have hmem : (⟨name, payload'⟩ : Sigma (fun _ : FileName => Bytes)) ∈ held.entries := by
      rw [hentries]
      exact List.mem_append_right _ List.mem_cons_self
    exact Option.some.inj ((AList.mem_lookup_iff.mpr hmem).symm.trans h)
  subst hsame
  have herased : (held.erase name).entries = l₁ ++ l₂ := herase
  rw [sizes, sizes, hentries, herased, List.map_append, List.map_append, List.map_cons]
  exact List.perm_middle

theorem sizes_erase (h : held.lookup name = none) : sizes (held.erase name) = sizes held := by
  have hkey : name ∉ held := AList.lookup_eq_none.mp h
  have herased : (held.erase name).entries = held.entries := List.kerase_of_notMem_keys hkey
  rw [sizes, sizes, herased]

theorem Kept.length_le (h : Kept worker limits held) (hworker : worker.length ≤ maxPayload)
    (hlookup : held.lookup name = some payload) : payload.length ≤ maxPayload := by
  have htakes := h.takes name payload hlookup
  cases name with
  | identity => exact htakes ▸ hworker
  | session => exact le_trans htakes (by decide)
  | attempt id => exact htakes.2
  | lock => exact htakes.elim
  | pending => exact htakes.elim
  | projectIds => exact htakes.trans_le (by decide)
  | other => exact htakes.elim

/-- What `openJournal` asks of the name of the worker and of the limits. -/
def Fits (worker : Bytes) (limits : JournalLimits) : Prop :=
  worker.length = 36 ∧ 1 ≤ limits.maxAttempts ∧ limits.maxAttempts ≤ 4096 ∧
    1 ≤ limits.maxBytes ∧ limits.maxBytes ≤ 32 * 2 ^ 30

instance (worker : Bytes) (limits : JournalLimits) : Decidable (Fits worker limits) :=
  inferInstanceAs (Decidable (_ ∧ _))

theorem Fits.maxBytes_lt (h : Fits worker limits) : limits.maxBytes < 2 ^ 64 :=
  h.2.2.2.2.trans_lt (by norm_num)

theorem Fits.worker_le (h : Fits worker limits) : worker.length ≤ maxPayload :=
  h.1.trans_le (by decide)

/-- What an attempt is counted as. -/
def FileName.counted (name : FileName) (payload : Bytes) : List (Uuid × ℕ) :=
  match name with
  | .attempt id => [(id, payload.length + headerLength)]
  | _ => []

theorem attemptsIn_insert (name : FileName) (payload : Bytes) (held : Table FileName Bytes) :
    attemptsIn (sizes (AList.insert name payload held))
      = name.counted payload ++ attemptsIn (sizes (held.erase name)) := by
  rw [sizes_insert]
  cases name <;> rfl

theorem attemptsIn_lookup (h : held.lookup name = some payload) :
    (attemptsIn (sizes held)).Perm (name.counted payload ++ attemptsIn (sizes (held.erase name)))
    := by
  refine ((sizes_perm h).filterMap _).trans (List.Perm.of_eq ?_)
  cases name <;> rfl

/-- **One more record**, or another one in its place, within the limits. -/
theorem Kept.insert (h : Kept worker limits held) (htakes : name.Takes worker payload)
    (hfounded : name = .identity ∨ held.lookup .identity ≠ none)
    (hcount : (name.counted payload ++ attemptsIn (sizes (held.erase name))).length
      ≤ limits.maxAttempts)
    (hbytes : ((name.counted payload ++ attemptsIn (sizes (held.erase name))).map Prod.snd).sum
      ≤ limits.maxBytes) : Kept worker limits (AList.insert name payload held) := by
  refine ⟨fun n p hp => ?_, fun n hnone => ?_, ?_, ?_⟩
  · rw [Table.lookup_insert_ite] at hp
    split_ifs at hp with hn
    · obtain rfl := Option.some.inj hp
      exact hn ▸ htakes
    · exact h.takes n p hp
  · rw [Table.lookup_insert_ite] at hnone
    split_ifs at hnone with hn
    exact absurd hnone (hfounded.resolve_left (Ne.symm hn))
  · rw [attemptsIn_insert]
    exact hcount
  · rw [attemptsIn_insert]
    exact hbytes

/-- A record that is no attempt is not counted. -/
theorem Kept.insert_other (h : Kept worker limits held) (htakes : name.Takes worker payload)
    (hfounded : name = .identity ∨ held.lookup .identity ≠ none)
    (hname : ∀ id, name ≠ .attempt id) : Kept worker limits (AList.insert name payload held) := by
  have hnone : ∀ p, name.counted p = [] := fun p => by
    cases name with
    | attempt id => exact absurd rfl (hname id)
    | _ => rfl
  have hperm : (attemptsIn (sizes held)).Perm (attemptsIn (sizes (held.erase name))) := by
    cases hp : held.lookup name with
    | none => rw [sizes_erase hp]
    | some p =>
      have hcounted := attemptsIn_lookup hp
      rwa [hnone, List.nil_append] at hcounted
  refine h.insert htakes hfounded ?_ ?_
  · rw [hnone, List.nil_append, ← hperm.length_eq]
    exact h.count
  · rw [hnone, List.nil_append, ← (hperm.map Prod.snd).sum_eq]
    exact h.bytes

/-- **The check of a write** keeps the journal within its limits. -/
theorem Kept.insert_attempt (h : Kept worker limits held) {id : Uuid} {inventory : List (Uuid × ℕ)}
    (htakes : (FileName.attempt id).Takes worker payload) (hfounded : held.lookup .identity ≠ none)
    (hinventory : inventory.Perm (attemptsIn (sizes held)))
    (hroom : ¬ ((inventory.find? (fun x => decide (x.1 = id))).isNone = true ∧
      limits.maxAttempts ≤ inventory.length)) (hbytes : (inventory.map Prod.snd).sum -
      ((inventory.find? (fun x => decide (x.1 = id))).map Prod.snd).getD 0 +
        (payload.length + headerLength) ≤ limits.maxBytes) :
    Kept worker limits (AList.insert (.attempt id) payload held) := by
  have hsum := (hinventory.map Prod.snd).sum_eq
  have hlength := hinventory.length_eq
  have hcounted : ∀ size, (id, size) ∈ inventory ↔ ∃ old, held.lookup (.attempt id) = some old ∧
      old.length + headerLength = size := fun size => by
    rw [hinventory.mem_iff, mem_attemptsIn, mem_sizes]
  cases hfind : inventory.find? (fun x => decide (x.1 = id)) with
  | none =>
    have hnone : held.lookup (.attempt id) = none := by
      rw [Option.eq_none_iff_forall_ne_some]
      intro old hold
      have hmem := List.find?_eq_none.mp hfind _ ((hcounted _).mpr ⟨old, hold, rfl⟩)
      exact hmem (decide_eq_true rfl)
    rw [hfind] at hroom hbytes
    simp only [Option.isNone_none, true_and, Option.map_none, Option.getD_none] at hroom hbytes
    refine h.insert htakes (.inr hfounded) ?_ ?_
    · rw [sizes_erase hnone, List.length_append]
      simp only [FileName.counted, List.length_singleton]
      omega
    · rw [sizes_erase hnone, List.map_append, List.sum_append]
      simp only [FileName.counted, List.map_singleton, List.sum_singleton]
      omega
  | some x =>
    obtain ⟨i, size⟩ := x
    have hid := List.find?_some hfind
    obtain rfl : i = id := of_decide_eq_true hid
    obtain ⟨old, hold, rfl⟩ := (hcounted size).mp (List.mem_of_find?_eq_some hfind)
    have hperm := attemptsIn_lookup hold
    have hperm_length := hperm.length_eq
    have hperm_sum := (hperm.map Prod.snd).sum_eq
    have hcount := h.count
    rw [hfind] at hbytes
    simp only [Option.map_some, Option.getD_some, FileName.counted, List.length_append,
      List.length_singleton, List.map_append, List.map_singleton, List.sum_append,
      List.sum_singleton] at hbytes hperm_length hperm_sum
    refine h.insert htakes (.inr hfounded) ?_ ?_
    · rw [List.length_append]
      simp only [FileName.counted, List.length_singleton]
      omega
    · rw [List.map_append, List.sum_append]
      simp only [FileName.counted, List.map_singleton, List.sum_singleton]
      omega

/-! ## Records and files -/

/-- The names of records. -/
def FileName.IsRecord (name : FileName) : Prop := name ≠ .lock ∧ name ≠ .pending

theorem attempt_isRecord (id : Uuid) : (FileName.attempt id).IsRecord := ⟨nofun, nofun⟩

/-- What the files of some records hold. -/
def frames (D : Digest) (held : Table FileName Bytes) (name : FileName) : Option Bytes :=
  (held.lookup name).map (frame D)

theorem frames_insert (D : Digest) (held : Table FileName Bytes) (name : FileName)
    (payload : Bytes) : frames D (AList.insert name payload held)
      = Function.update (frames D held) name (some (frame D payload)) := by
  funext n
  rw [frames, Table.lookup_insert_ite]
  by_cases hn : n = name
  · rw [if_pos hn, hn, Function.update_self]
    rfl
  · rw [if_neg hn, Function.update_of_ne hn]
    rfl

variable {D : Digest} {d : JournalDisk} {bound : ℕ}

/-- A file of a record is the frame of its payload. -/
theorem mem_sizes_iff_file (h : d.Shows FileName.IsRecord bound d.visible (frames D held))
    (hname : name.IsRecord) : (name, size) ∈ sizes held ↔ (d.file name).map List.length = some size
    := by
  have hfile : d.file name = (held.lookup name).map (frame D) := h.bytes name hname
  rw [hfile, mem_sizes, Option.map_map, Option.map_eq_some_iff]
  simp only [Function.comp_apply, frame_length]

theorem mem_lists_iff (h : d.Shows FileName.IsRecord bound d.visible (frames D held))
    (hlists : d.Lists entries) (hname : name.IsRecord) :
    (name, size) ∈ entries ↔ (name, size) ∈ sizes held := by
  rw [hlists.2, mem_sizes_iff_file h hname]

theorem Kept.sized (h : Kept worker limits held) (hmem : (name, size) ∈ sizes held) :
    name.Sized size := by
  obtain ⟨payload, hlookup, rfl⟩ := mem_sizes.mp hmem
  have htakes := h.takes name payload hlookup
  cases name with
  | lock => trivial
  | identity => trivial
  | session => exact Nat.add_le_add_right htakes _
  | attempt id => exact ⟨htakes.1, Nat.add_le_add_right htakes.2 _⟩
  | pending => exact htakes.elim
  | projectIds => exact congrArg (· + headerLength) htakes
  | other => exact htakes.elim

/-- **A listing counts the attempts.** -/
theorem attemptsIn_lists (h : d.Shows FileName.IsRecord bound d.visible (frames D held))
    (hlists : d.Lists entries) : (attemptsIn entries).Perm (attemptsIn (sizes held)) :=
  attemptsIn_perm hlists.1 (sizes_nodup held) fun id _ =>
    mem_lists_iff h hlists (attempt_isRecord id)

/-- **A directory without a temporary file** is counted without an error. -/
theorem countEntries_lists (h : d.Shows FileName.IsRecord bound d.visible (frames D held))
    (hclear : d.visible .pending = none) (hkept : Kept worker limits held)
    (hlimit : limits.maxBytes < 2 ^ 64) (hlists : d.Lists entries) :
    ∃ inventory, countEntries limits entries = .ok inventory ∧
      inventory.Perm (attemptsIn (sizes held)) := by
  have hperm := attemptsIn_lists h hlists
  have hsized : ∀ x ∈ entries, x.1.Sized x.2 := by
    rintro ⟨name, size⟩ hmem
    by_cases hlock : name = .lock
    · subst hlock
      trivial
    by_cases hpending : name = .pending
    · subst hpending
      have hsome := (hlists.2 _ _).mp hmem
      rw [Disk.file, hclear] at hsome
      exact absurd hsome (by simp)
    exact hkept.sized ((mem_lists_iff h hlists ⟨hlock, hpending⟩).mp hmem)
  obtain ⟨inventory, hcount, hinventory⟩ := countEntries_ok hsized
    (hperm.length_eq ▸ hkept.count) ((hperm.map Prod.snd).sum_eq ▸ hkept.bytes) hlimit
  exact ⟨inventory, hcount, hinventory.trans hperm⟩

/-- Such a directory can be listed. -/
theorem exists_lists (h : d.Shows FileName.IsRecord bound d.visible (frames D held))
    (hclear : d.visible .pending = none) (hkept : Kept worker limits held) :
    ∃ entries, d.Lists entries := by
  have hlock : ∀ size, (FileName.lock, size) ∉ sizes held := fun size hmem => by
    obtain ⟨payload, hlookup, -⟩ := mem_sizes.mp hmem
    exact hkept.takes _ _ hlookup
  have hpending : d.file .pending = none := by
    rw [Disk.file, hclear]
    rfl
  have hnone : ∀ size, (FileName.pending, size) ∉ sizes held := fun size hmem => by
    obtain ⟨payload, hlookup, -⟩ := mem_sizes.mp hmem
    exact hkept.takes _ _ hlookup
  cases hfile : d.file .lock with
  | none =>
    refine ⟨sizes held, sizes_nodup held, fun name size => ?_⟩
    by_cases hname : name.IsRecord
    · exact mem_sizes_iff_file h hname
    obtain rfl | rfl : name = .lock ∨ name = .pending := by
      by_contra hne
      exact hname (not_or.mp hne)
    · simp only [hlock, hfile, Option.map_none, reduceCtorEq]
    · simp only [hnone, hpending, Option.map_none, reduceCtorEq]
  | some x =>
    refine ⟨(.lock, x.length) :: sizes held, ?_, fun name size => ?_⟩
    · rw [List.map_cons, List.nodup_cons]
      refine ⟨fun hmem => ?_, sizes_nodup held⟩
      obtain ⟨⟨n, size⟩, hsize, rfl⟩ := List.mem_map.mp hmem
      exact hlock size hsize
    rw [List.mem_cons, Prod.mk.injEq]
    by_cases hname : name.IsRecord
    · rw [mem_sizes_iff_file h hname]
      exact or_iff_right fun heq => hname.1 heq.1
    obtain rfl | rfl : name = .lock ∨ name = .pending := by
      by_contra hne
      exact hname (not_or.mp hne)
    · simp only [hlock, hfile, Option.map_some, Option.some.injEq, true_and, or_false]
      exact eq_comm
    · simp only [hnone, hpending, Option.map_none, reduceCtorEq, false_and, or_false]

end Dispatch
