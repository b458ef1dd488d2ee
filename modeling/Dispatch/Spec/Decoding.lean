import Dispatch.Spec.Encoding

/-!
# Job documents read back

The queue holds documents as `jsonb`, and a transaction that needs one decodes
what the database gives back: the same value, with its members in an order of
the database's own. `Job.ofJson` is the decoder, filling a structure member by
member as `encoding/json` does: an absent member or a `null` leaves the zero
value, a member it does not know is skipped, and a value of another kind is an
error. Keys are compared as they are written; the decoder would also take a key
in another case, which no document written by the encoder has.

Nothing but the order in which maps list their entries is lost on the way
(`Job.ofJson_reordered`), and the order is not seen: not by the validator and
not in the canonical text, where keys are sorted.
-/

namespace Dispatch

open Txn

variable {j j' : Job} {m : Table String String} {s : JobSpec} {n : ℤ}

variable {α : Type}

/-! ## Members -/

/-- A member, or the zero value where it is absent or null. -/
def readMember (zero : α) (read : Json → Option α) : Option Json → Option α
  | none => some zero
  | some .null => some zero
  | some v => read v

/-- A string. -/
def readText : Json → Option String
  | .str s => some s
  | _ => none

/-- A truth value. -/
def readBool : Json → Option Bool
  | .bool b => some b
  | _ => none

/-- What an `int64` holds. -/
def isInt64 (n : ℤ) : Bool := between n (-2 ^ 63) (2 ^ 63 - 1)

/-- An `int64`. -/
def readInt : Json → Option ℤ
  | .num text => (Json.parseInt text).filter isInt64
  | _ => none

/-- A slice, each of its elements read. -/
def readList (read : Json → Option α) : Json → Option (List α)
  | .arr xs => xs.mapM read
  | _ => none

/-- The entries of a map, a later one replacing an earlier one of its key. -/
def readEntries (m : Table String String) : List (String × Json) → Option (Table String String)
  | [] => some m
  | (k, v) :: rest => do
    let text ← readMember "" readText (some v)
    readEntries (AList.insert k text m) rest

/-- A map of strings. -/
def readMap : Json → Option (Table String String)
  | .obj ms => readEntries ∅ ms
  | _ => none

/-- A structure, or the one without members. -/
def readStruct (read : List (String × Json) → Option α) : Option Json → Option α
  | none => read []
  | some .null => read []
  | some (.obj ms) => read ms
  | some _ => none

/-! ## Documents -/

/-- The metadata, from the members of its object. -/
def Metadata.ofMembers (ms : List (String × Json)) : Option Metadata := do
  let name ← readMember "" readText (ms.lookup "name")
  let project ← readMember "" readText (ms.lookup "project")
  let labels ← readMember ∅ readMap (ms.lookup "labels")
  pure ⟨name, project, labels⟩

def Resources.ofMembers (ms : List (String × Json)) : Option Resources := do
  let cpuMillis ← readMember 0 readInt (ms.lookup "cpuMillis")
  let memoryMiB ← readMember 0 readInt (ms.lookup "memoryMiB")
  let scratchMiB ← readMember 0 readInt (ms.lookup "scratchMiB")
  pure ⟨cpuMillis, memoryMiB, scratchMiB⟩

def Input.ofMembers (ms : List (String × Json)) : Option Input := do
  let dataset ← readMember "" readText (ms.lookup "dataset")
  let mountPath ← readMember "" readText (ms.lookup "mountPath")
  pure ⟨dataset, mountPath⟩

def Output.ofMembers (ms : List (String × Json)) : Option Output := do
  let name ← readMember "" readText (ms.lookup "name")
  let path ← readMember "" readText (ms.lookup "path")
  let required ← readMember false readBool (ms.lookup "required")
  let maxBytes ← readMember 0 readInt (ms.lookup "maxBytes")
  pure ⟨name, path, required, maxBytes⟩

def Timeouts.ofMembers (ms : List (String × Json)) : Option Timeouts := do
  let startupSeconds ← readMember 0 readInt (ms.lookup "startupSeconds")
  let executionSeconds ← readMember 0 readInt (ms.lookup "executionSeconds")
  let finalizationSeconds ← readMember 0 readInt (ms.lookup "finalizationSeconds")
  pure ⟨startupSeconds, executionSeconds, finalizationSeconds⟩

/-- The reason a text names. -/
def Reason.ofText (text : String) : Reason :=
  ([workerLost, runtimeUnavailable, transferFailed, applicationExit, oom, startupTimeout,
    executionTimeout, outputInvalid, userCancelled, finalizationTimeout].find?
      (fun r => decide (r.text = text))).getD (.other text)

def Retry.ofMembers (ms : List (String × Json)) : Option Retry := do
  let maxAttempts ← readMember 0 readInt (ms.lookup "maxAttempts")
  let on ← readMember [] (readList fun v => (readMember "" readText (some v)).map Reason.ofText)
    (ms.lookup "on")
  let initialBackoffSeconds ← readMember 0 readInt (ms.lookup "initialBackoffSeconds")
  let maxBackoffSeconds ← readMember 0 readInt (ms.lookup "maxBackoffSeconds")
  pure ⟨maxAttempts, on, initialBackoffSeconds, maxBackoffSeconds⟩

/-- The `Placement` structure has no member but its labels. -/
def placementOfMembers (ms : List (String × Json)) : Option (Table String String) :=
  readMember ∅ readMap (ms.lookup "labels")

def JobSpec.ofMembers (ms : List (String × Json)) : Option JobSpec := do
  let text := readMember "" readText
  let texts := readMember [] (readList fun v => readMember "" readText (some v))
  let priority ← readMember 0 readInt (ms.lookup "priority")
  let image ← text (ms.lookup "image")
  let command ← texts (ms.lookup "command")
  let args ← texts (ms.lookup "args")
  let env ← readMember ∅ readMap (ms.lookup "env")
  let resources ← readStruct Resources.ofMembers (ms.lookup "resources")
  let placementLabels ← readStruct placementOfMembers (ms.lookup "placement")
  let inputs ← readMember [] (readList fun v => readStruct Input.ofMembers (some v))
    (ms.lookup "inputs")
  let outputs ← readMember [] (readList fun v => readStruct Output.ofMembers (some v))
    (ms.lookup "outputs")
  let timeouts ← readStruct Timeouts.ofMembers (ms.lookup "timeouts")
  let retry ← readStruct Retry.ofMembers (ms.lookup "retry")
  let terminationGraceSeconds ← readMember 0 readInt (ms.lookup "terminationGraceSeconds")
  let network ← text (ms.lookup "network")
  pure ⟨priority, image, command, args, env, resources, placementLabels, inputs, outputs, timeouts,
    retry, terminationGraceSeconds, network⟩

/-- **The document, from its members.** -/
def Job.ofMembers (ms : List (String × Json)) : Option Job := do
  let apiVersion ← readMember "" readText (ms.lookup "apiVersion")
  let kind ← readMember "" readText (ms.lookup "kind")
  let metadata ← readStruct Metadata.ofMembers (ms.lookup "metadata")
  let spec ← readStruct JobSpec.ofMembers (ms.lookup "spec")
  pure ⟨apiVersion, kind, metadata, spec⟩

/-- **The decoder of job documents.** -/
def Job.ofJson (document : Json) : Option Job := readStruct Job.ofMembers (some document)

/-! ## Members read back -/

section

open Json

variable {o : Option Json}

theorem readMember_text {s : String} (h : Option.Rel Reordered (some (.str s)) o) :
    readMember "" readText o = some s := by
  obtain ⟨⟨⟩⟩ := h
  rfl

theorem readMember_bool {b : Bool} (h : Option.Rel Reordered (some (.bool b)) o) :
    readMember false readBool o = some b := by
  obtain ⟨⟨⟩⟩ := h
  rfl

theorem readMember_int (h : Option.Rel Reordered (some (intJson n)) o) (hn : isInt64 n = true) :
    readMember 0 readInt o = some n := by
  obtain ⟨⟨⟩⟩ := h
  rw [readMember, readInt, parseInt_toString, Option.filter_some, if_pos hn]
  exact nofun

/-- An integer that is left out when it is zero. -/
theorem readMember_optionalInt
    (h : Option.Rel Reordered (if n = 0 then none else some (intJson n)) o)
    (hn : isInt64 n = true) : readMember 0 readInt o = some n := by
  split_ifs at h with hzero
  · obtain ⟨⟩ := h
    rw [hzero]
    rfl
  · exact readMember_int h hn

theorem readList_arr {text : α → Json} {read : Json → Option α} {l : List α} {ys : List Json}
    (h : List.Forall₂ Reordered (l.map text) ys)
    (hread : ∀ a ∈ l, ∀ v, Reordered (text a) v → read v = some a) :
    readList read (.arr ys) = some l := by
  induction l generalizing ys with
  | nil =>
    obtain ⟨⟩ := h
    rfl
  | cons a l ih =>
    rw [List.map_cons, List.forall₂_cons_left_iff] at h
    obtain ⟨y, ys, hy, hys, rfl⟩ := h
    have hrest := ih hys fun b hb => hread b (List.mem_cons_of_mem _ hb)
    rw [readList] at hrest ⊢
    rw [List.mapM_cons, hread a List.mem_cons_self y hy, hrest]
    rfl

theorem readMember_list {text : α → Json} {read : Json → Option α} {l : List α}
    (h : Option.Rel Reordered (some (.arr (l.map text))) o)
    (hread : ∀ a ∈ l, ∀ v, Reordered (text a) v → read v = some a) :
    readMember [] (readList read) o = some l := by
  cases h with
  | some h =>
    cases h with
    | arr h => exact readList_arr h hread

/-- A list that is left out when it is empty. -/
theorem readMember_optionalList {text : α → Json} {read : Json → Option α} {l : List α}
    (h : Option.Rel Reordered (if l = [] then none else some (.arr (l.map text))) o)
    (hread : ∀ a ∈ l, ∀ v, Reordered (text a) v → read v = some a) :
    readMember [] (readList read) o = some l := by
  split_ifs at h with hempty
  · obtain ⟨⟩ := h
    rw [hempty]
    rfl
  · exact readMember_list h hread

/-- An entry of a map as it is read. -/
def readEntry (m : String × Json) : Sigma (fun _ : String => String) :=
  ⟨m.1, (readText m.2).getD ""⟩

theorem readEntries_eq_some {ms : List (String × Json)} (htext : ∀ x ∈ ms, ∃ s, x.2 = .str s)
    (hnodup : (ms.map Prod.fst).Nodup) (hfresh : ∀ k ∈ ms.map Prod.fst, k ∉ m) :
    ∃ m', readEntries m ms = some m' ∧ m'.entries.Perm (ms.map readEntry ++ m.entries) := by
  induction ms generalizing m with
  | nil => exact ⟨m, rfl, .refl _⟩
  | cons x ms ih =>
    obtain ⟨k, v⟩ := x
    obtain ⟨s, rfl⟩ := htext (k, v) List.mem_cons_self
    rw [List.map_cons, List.nodup_cons] at hnodup
    have hk : k ∉ m := hfresh k List.mem_cons_self
    obtain ⟨m', hm', hperm⟩ := @ih (AList.insert k s m)
      (fun y hy => htext y (List.mem_cons_of_mem _ hy)) hnodup.2 fun k' hk' hmem => by
        obtain rfl | hmem := (AList.mem_insert m).mp hmem
        · exact hnodup.1 hk'
        · exact hfresh k' (List.mem_cons_of_mem _ hk') hmem
    rw [AList.entries_insert_of_notMem hk] at hperm
    exact ⟨m', hm', hperm.trans List.perm_middle⟩

/-- The members of a map, in whatever order. -/
theorem members_reordered {v : Json} (h : Reordered (mapJson m) v) :
    ∃ ns, v = .obj ns ∧ ns.Perm (m.entries.map fun e => (e.1, Json.str e.2)) := by
  obtain ⟨ns, rfl, hmembers⟩ : ∃ ns, v = .obj ns ∧ Corresponds Reordered _ ns := by
    cases h with
    | obj h => exact ⟨_, rfl, h⟩
  refine ⟨ns, rfl, (hmembers.perm fun x hx w hw => ?_).trans ((List.perm_insertionSort _ _).map _)⟩
  obtain ⟨e, -, rfl⟩ := List.mem_map.mp hx
  obtain ⟨⟩ := hw
  rfl

/-- **A map is read back with the same entries.** -/
theorem readMap_reordered {v : Json} (h : Reordered (mapJson m) v) :
    ∃ m', readMap v = some m' ∧ m'.entries.Perm m.entries := by
  obtain ⟨ns, rfl, hperm⟩ := members_reordered h
  have hkeys : (ns.map Prod.fst).Perm m.keys := by
    refine (hperm.map Prod.fst).trans ?_
    rw [List.map_map]
    exact .refl _
  obtain ⟨m', hm', hentries⟩ := @readEntries_eq_some ∅ ns (fun x hx => by
      obtain ⟨e, -, rfl⟩ := List.mem_map.mp (hperm.mem_iff.mp hx)
      exact ⟨e.2, rfl⟩) (hkeys.nodup_iff.mpr m.nodupKeys)
    (fun k _ => AList.notMem_empty k)
  refine ⟨m', hm', hentries.trans ?_⟩
  have hread : (m.entries.map fun e => (e.1, Json.str e.2)).map readEntry = m.entries := by
    rw [List.map_map]
    exact List.map_id _
  have hmapped := hperm.map readEntry
  rw [hread] at hmapped
  rw [AList.empty_entries, List.append_nil]
  exact hmapped

theorem readStruct_obj {ms : List (String × Json)} (h : Option.Rel Reordered (some (.obj ms)) o) :
    ∃ ns, Corresponds Reordered ms ns ∧
      ∀ (α : Type) (read : List (String × Json) → Option α), readStruct read o = read ns := by
  cases h with
  | some h =>
    cases h with
    | obj h => exact ⟨_, h, fun _ _ => rfl⟩

theorem Resources.ofMembers_reordered {r : Resources} (h : Option.Rel Reordered (some r.toJson) o)
    (hcpu : isInt64 r.cpuMillis = true) (hmemory : isInt64 r.memoryMiB = true)
    (hscratch : isInt64 r.scratchMiB = true) : readStruct Resources.ofMembers o = some r := by
  obtain ⟨ns, hns, hread⟩ := readStruct_obj h
  have hkey := hns.lookup (by simp)
  rw [hread, Resources.ofMembers, readMember_int (hkey "cpuMillis") hcpu,
    readMember_int (hkey "memoryMiB") hmemory, readMember_int (hkey "scratchMiB") hscratch]
  rfl

@[simp] theorem lookup_optionalMember_self (empty : Bool) (k : String) (v : Json) :
    (optionalMember empty k v).lookup k = if empty then none else some v := by
  cases empty <;> simp [optionalMember]

@[simp] theorem lookup_optionalMember_ne (empty : Bool) {k key : String} (v : Json) (h : key ≠ k) :
    (optionalMember empty k v).lookup key = none := by
  cases empty <;> simp [optionalMember, List.lookup_cons, beq_eq_false_iff_ne.mpr h]

/-- A map that is left out when it is empty. -/
theorem readMember_optionalMap
    (h : Option.Rel Reordered (if m.entries = [] then none else some (mapJson m)) o) :
    ∃ m', readMember ∅ readMap o = some m' ∧ m'.entries.Perm m.entries := by
  split_ifs at h with hempty
  · obtain ⟨⟩ := h
    exact ⟨∅, rfl, hempty ▸ .refl _⟩
  · cases h with
    | some h =>
      obtain ⟨m', hm', hperm⟩ := readMap_reordered h
      cases h with
      | obj h => exact ⟨m', hm', hperm⟩

/-! ## Documents read back -/

theorem Input.ofMembers_reordered {i : Input} {v : Json} (h : Reordered i.toJson v) :
    readStruct Input.ofMembers (some v) = some i := by
  obtain ⟨ns, hns, hread⟩ := readStruct_obj (.some h)
  have hkey := hns.lookup (by simp)
  rw [hread, Input.ofMembers, readMember_text (hkey "dataset"), readMember_text (hkey "mountPath")]
  rfl

theorem Output.ofMembers_reordered {x : Output} {v : Json} (h : Reordered x.toJson v)
    (hmax : isInt64 x.maxBytes = true) : readStruct Output.ofMembers (some v) = some x := by
  obtain ⟨ns, hns, hread⟩ := readStruct_obj (.some h)
  have hkey := hns.lookup (by simp)
  rw [hread, Output.ofMembers, readMember_text (hkey "name"), readMember_text (hkey "path"),
    readMember_bool (hkey "required"), readMember_int (hkey "maxBytes") hmax]
  rfl

/-- **Integers of 64 bits**, and reasons the decoder knows. -/
structure JobSpec.Machine (s : JobSpec) : Prop where
  priority : isInt64 s.priority = true
  cpuMillis : isInt64 s.resources.cpuMillis = true
  memoryMiB : isInt64 s.resources.memoryMiB = true
  scratchMiB : isInt64 s.resources.scratchMiB = true
  outputs : ∀ x ∈ s.outputs, isInt64 x.maxBytes = true
  startup : isInt64 s.timeouts.startupSeconds = true
  execution : isInt64 s.timeouts.executionSeconds = true
  finalization : isInt64 s.timeouts.finalizationSeconds = true
  maxAttempts : isInt64 s.retry.maxAttempts = true
  reasons : ∀ r ∈ s.retry.on, Reason.ofText r.text = r
  initialBackoff : isInt64 s.retry.initialBackoffSeconds = true
  maxBackoff : isInt64 s.retry.maxBackoffSeconds = true
  grace : isInt64 s.terminationGraceSeconds = true

theorem Timeouts.ofMembers_reordered {t : Timeouts} (h : Option.Rel Reordered (some t.toJson) o)
    (hstartup : isInt64 t.startupSeconds = true) (hexecution : isInt64 t.executionSeconds = true)
    (hfinalization : isInt64 t.finalizationSeconds = true) :
    readStruct Timeouts.ofMembers o = some t := by
  obtain ⟨ns, hns, hread⟩ := readStruct_obj h
  have hkey := hns.lookup (by simp)
  rw [hread, Timeouts.ofMembers, readMember_int (hkey "startupSeconds") hstartup,
    readMember_int (hkey "executionSeconds") hexecution,
    readMember_int (hkey "finalizationSeconds") hfinalization]
  rfl

theorem Retry.ofMembers_reordered (hs : s.Machine)
    (h : Option.Rel Reordered (some s.retry.toJson) o) : readStruct Retry.ofMembers o = some s.retry
    := by
  obtain ⟨ns, hns, hread⟩ := readStruct_obj h
  have hkey := hns.lookup (by cases hempty : s.retry.on.isEmpty <;> simp [optionalMember])
  simp only [List.lookup_append] at hkey
  have hmax : readMember 0 readInt (ns.lookup "maxAttempts") = some s.retry.maxAttempts :=
    readMember_int (hkey "maxAttempts") hs.maxAttempts
  have hon : readMember [] (readList fun v => (readMember "" readText (some v)).map Reason.ofText)
      (ns.lookup "on") = some s.retry.on :=
    readMember_optionalList (by simpa [List.lookup_cons] using hkey "on") fun r hr v hv => by
      rw [readMember_text (.some hv), Option.map_some, hs.reasons r hr]
  have hinitial : readMember 0 readInt (ns.lookup "initialBackoffSeconds")
      = some s.retry.initialBackoffSeconds :=
    readMember_int (by simpa [List.lookup_cons] using hkey "initialBackoffSeconds")
      hs.initialBackoff
  have hbackoff : readMember 0 readInt (ns.lookup "maxBackoffSeconds")
      = some s.retry.maxBackoffSeconds :=
    readMember_int (by simpa [List.lookup_cons] using hkey "maxBackoffSeconds") hs.maxBackoff
  rw [hread, Retry.ofMembers, hmax, hon, hinitial, hbackoff]
  rfl

/-- The keys of a document, in their order. -/
def specKeys : List String :=
  ["priority", "image", "command", "args", "env", "resources", "placement", "inputs", "outputs",
    "timeouts", "retry", "terminationGraceSeconds", "network"]

theorem sublist_optionalMember (empty : Bool) (k : String) (v : Json) :
    ((optionalMember empty k v).map Prod.fst).Sublist [k] := by
  cases empty <;> simp [optionalMember]

/-- The same document, its maps listed in another order. -/
def JobSpec.Relisted (s s' : JobSpec) : Prop :=
  ∃ env labels : Table String String, env.entries.Perm s.env.entries ∧
    labels.entries.Perm s.placementLabels.entries ∧
    s' = { s with env := env, placementLabels := labels }

/-- The members of a document are found by their keys. -/
theorem JobSpec.lookup_reordered (h : Option.Rel Reordered (some s.toJson) o) :
    ∃ ms ns, s.toJson = .obj ms ∧ (∀ (α : Type) (read : List (String × Json) → Option α),
      readStruct read o = read ns) ∧
      ∀ key, Option.Rel Reordered (ms.lookup key) (ns.lookup key) := by
  obtain ⟨ns, hns, hread⟩ := readStruct_obj h
  have hkeys : specKeys.Nodup := by decide
  refine ⟨_, ns, rfl, hread, hns.lookup (hkeys.sublist ?_)⟩
  simp only [List.map_append]
  exact (((((((sublist_optionalMember ..).append (.refl _)).append
    (sublist_optionalMember ..)).append (sublist_optionalMember ..)).append (.refl _)).append
    (sublist_optionalMember ..)).append (sublist_optionalMember ..)).append (.refl _)

theorem JobSpec.ofMembers_reordered (hs : s.Machine) (h : Option.Rel Reordered (some s.toJson) o) :
    ∃ s', readStruct JobSpec.ofMembers o = some s' ∧ s.Relisted s' := by
  obtain ⟨ms, ns, hms, hread, hkey⟩ := JobSpec.lookup_reordered h
  obtain rfl := Json.obj.inj hms
  simp only [List.lookup_append] at hkey
  have hpriority : readMember 0 readInt (ns.lookup "priority") = some s.priority :=
    readMember_optionalInt (by simpa [List.lookup_cons] using hkey "priority") hs.priority
  have himage : readMember "" readText (ns.lookup "image") = some s.image :=
    readMember_text (by simpa [List.lookup_cons] using hkey "image")
  have hcommand : readMember [] (readList fun v => readMember "" readText (some v))
      (ns.lookup "command") = some s.command :=
    readMember_list (by simpa [List.lookup_cons] using hkey "command")
      fun _ _ _ hv => readMember_text (.some hv)
  have hargs : readMember [] (readList fun v => readMember "" readText (some v))
      (ns.lookup "args") = some s.args :=
    readMember_optionalList (by simpa [List.lookup_cons] using hkey "args")
      fun _ _ _ hv => readMember_text (.some hv)
  obtain ⟨env, henv, hsameEnv⟩ : ∃ env, readMember ∅ readMap (ns.lookup "env") = some env ∧
      env.entries.Perm s.env.entries :=
    readMember_optionalMap (by simpa [List.lookup_cons] using hkey "env")
  have hresources : readStruct Resources.ofMembers (ns.lookup "resources") = some s.resources :=
    Resources.ofMembers_reordered (by simpa [List.lookup_cons] using hkey "resources")
      hs.cpuMillis hs.memoryMiB hs.scratchMiB
  obtain ⟨labels, hlabels, hsameLabels⟩ : ∃ labels,
      readStruct placementOfMembers (ns.lookup "placement") = some labels ∧
        labels.entries.Perm s.placementLabels.entries := by
    obtain ⟨ps, hps, hplacement⟩ := readStruct_obj (by
      simpa [List.lookup_cons] using hkey "placement")
    obtain ⟨labels, hlabels, hsame⟩ := readMember_optionalMap (by
      simpa using hps.lookup ((List.nodup_singleton "labels").sublist (sublist_optionalMember ..))
        "labels")
    exact ⟨labels, (hplacement _ _).trans hlabels, hsame⟩
  have hinputs : readMember [] (readList fun v => readStruct Input.ofMembers (some v))
      (ns.lookup "inputs") = some s.inputs :=
    readMember_optionalList (by simpa [List.lookup_cons] using hkey "inputs")
      fun _ _ _ hv => Input.ofMembers_reordered hv
  have houtputs : readMember [] (readList fun v => readStruct Output.ofMembers (some v))
      (ns.lookup "outputs") = some s.outputs :=
    readMember_optionalList (by simpa [List.lookup_cons] using hkey "outputs")
      fun x hx _ hv => Output.ofMembers_reordered hv (hs.outputs x hx)
  have htimeouts : readStruct Timeouts.ofMembers (ns.lookup "timeouts") = some s.timeouts :=
    Timeouts.ofMembers_reordered (by simpa [List.lookup_cons] using hkey "timeouts")
      hs.startup hs.execution hs.finalization
  have hretry : readStruct Retry.ofMembers (ns.lookup "retry") = some s.retry :=
    Retry.ofMembers_reordered hs (by simpa [List.lookup_cons] using hkey "retry")
  have hgrace : readMember 0 readInt (ns.lookup "terminationGraceSeconds")
      = some s.terminationGraceSeconds :=
    readMember_int (by simpa [List.lookup_cons] using hkey "terminationGraceSeconds") hs.grace
  have hnetwork : readMember "" readText (ns.lookup "network") = some s.network :=
    readMember_text (by simpa [List.lookup_cons] using hkey "network")
  refine ⟨{ s with env := env, placementLabels := labels }, ?_, env, labels, hsameEnv, hsameLabels,
    rfl⟩
  rw [hread, JobSpec.ofMembers]
  simp only [hpriority, himage, hcommand, hargs, henv, hresources, hlabels, hinputs, houtputs,
    htimeouts, hretry, hgrace, hnetwork]
  rfl

/-! ## The order of maps -/

/-- The same document, its maps listed in another order. -/
structure Job.Relisted (j j' : Job) : Prop where
  head : j'.apiVersion = j.apiVersion ∧ j'.kind = j.kind
  metadata : ∃ labels : Table String String, labels.entries.Perm j.metadata.labels.entries ∧
    j'.metadata = { j.metadata with labels := labels }
  spec : j.spec.Relisted j'.spec

theorem Job.Relisted.refl (j : Job) : j.Relisted j :=
  ⟨⟨rfl, rfl⟩, ⟨_, .refl _, rfl⟩, _, _, .refl _, .refl _, rfl⟩

theorem Job.Relisted.symm (h : j.Relisted j') : j'.Relisted j := by
  obtain ⟨version, kind, metadata, spec⟩ := j'
  obtain ⟨⟨rfl, rfl⟩, ⟨labels, hlabels, rfl⟩, env, placement, henv, hplacement, rfl⟩ := h
  exact ⟨⟨rfl, rfl⟩, ⟨_, hlabels.symm, rfl⟩, _, _, henv.symm, hplacement.symm, rfl⟩

/-- **A document is read back from its value**, up to the order of its maps. -/
theorem Job.ofJson_reordered (hj : j.spec.Machine) {document : Json}
    (h : Json.Reordered j.toJson document) : ∃ job, Job.ofJson document = some job ∧ j.Relisted job
    := by
  obtain ⟨ns, hns, hread⟩ := readStruct_obj (.some h)
  have hkey := hns.lookup (by simp)
  obtain ⟨ms, hms, hmetadata⟩ := readStruct_obj (hkey "metadata")
  have hmember := hms.lookup (by
    cases hempty : j.metadata.labels.entries.isEmpty <;> simp [optionalMember])
  simp only [List.lookup_append] at hmember
  obtain ⟨labels, hlabels, hsame⟩ : ∃ labels, readMember ∅ readMap (ms.lookup "labels")
      = some labels ∧ labels.entries.Perm j.metadata.labels.entries :=
    readMember_optionalMap (by simpa [List.lookup_cons] using hmember "labels")
  obtain ⟨spec, hspec, hrelisted⟩ := JobSpec.ofMembers_reordered hj (hkey "spec")
  refine ⟨⟨j.apiVersion, j.kind, { j.metadata with labels := labels }, spec⟩, ?_,
    ⟨rfl, rfl⟩, ⟨labels, hsame, rfl⟩, hrelisted⟩
  rw [Job.ofJson, hread, Job.ofMembers, readMember_text (hkey "apiVersion"),
    readMember_text (hkey "kind"), hmetadata, Metadata.ofMembers, readMember_text (hmember "name"),
    readMember_text (hmember "project"), hlabels, hspec]
  rfl

/-- Entries are checked one by one. -/
theorem validateEntries_eq_ok {environment : Bool} {l : List (Sigma (fun _ : String => String))} :
    validateEntries environment l = .ok () ↔
      ∀ e ∈ l, validateEntries environment [e] = .ok () := by
  induction l with
  | nil => simp [validateEntries]
  | cons e l ih =>
    rw [List.forall_mem_cons, ← ih]
    obtain ⟨k, v⟩ := e
    simp only [validateEntries]
    split_ifs <;> simp

theorem validateMap_perm {m' : Table String String} {environment : Bool}
    (h : m'.entries.Perm m.entries) (hm : validateMap m environment = .ok ()) :
    validateMap m' environment = .ok () := by
  simp only [validateMap, bind_ok, require_ok] at hm ⊢
  obtain ⟨u, hlength, hentries⟩ := hm
  refine ⟨u, h.length_eq ▸ hlength, validateEntries_eq_ok.mpr fun e he => ?_⟩
  exact validateEntries_eq_ok.mp hentries e (h.mem_iff.mp he)

theorem Metadata.validate_relisted {m : Metadata} {labels : Table String String}
    (h : labels.entries.Perm m.labels.entries) (hm : m.validate = .ok ()) :
    { m with labels := labels }.validate = .ok () := by
  simp only [Metadata.validate, bind_ok] at hm ⊢
  obtain ⟨u, hnames, hmap⟩ := hm
  exact ⟨u, hnames, validateMap_perm h hmap⟩

/-- **The validator does not see the order.** -/
theorem Job.Relisted.isValid (h : j.Relisted j') (hj : j.isValid = true) : j'.isValid = true := by
  obtain ⟨version, kind, metadata, spec⟩ := j'
  obtain ⟨⟨rfl, rfl⟩, ⟨labels, hlabels, rfl⟩, env, placement, henv, hplacement, rfl⟩ := h
  rw [Job.isValid_iff] at hj ⊢
  simp only [Job.validate, bind_ok] at hj ⊢
  obtain ⟨u₁, h₁, u₂, h₂, u₃, h₃, u₄, h₄, u₅, h₅, u₆, h₆, u₇, h₇, u₈, h₈, hrest⟩ := hj
  exact ⟨u₁, h₁, u₂, Metadata.validate_relisted hlabels h₂, u₃, h₃, u₄, h₄, u₅, h₅, u₆, h₆,
    u₇, validateMap_perm henv h₇, u₈, validateMap_perm hplacement h₈, hrest⟩

theorem mapJson_perm {m' : Table String String} (h : m'.entries.Perm m.entries) :
    mapJson m' = mapJson m := by
  have hsame : m'.entries.insertionSort (fun a b => a.1 ≤ b.1)
      = m.entries.insertionSort (fun a b => a.1 ≤ b.1) := by
    refine Table.insertionSort_congr h fun a ha b hb hab hba => ?_
    exact m'.nodupKeys.eq_of_fst_eq ha hb (String.le_antisymm hab hba)
  rw [mapJson, mapJson, hsame]

/-- **The value of a document does not show the order.** -/
theorem Job.Relisted.toJson_canonical (h : j.Relisted j') : j'.canonical.toJson = j.canonical.toJson
    := by
  obtain ⟨version, kind, metadata, spec⟩ := j'
  obtain ⟨⟨rfl, rfl⟩, ⟨labels, hlabels, rfl⟩, env, placement, henv, hplacement, rfl⟩ := h
  simp only [Job.canonical, Job.toJson, Metadata.toJson, JobSpec.toJson, mapJson_perm hlabels,
    mapJson_perm henv, mapJson_perm hplacement, hlabels.isEmpty_eq, henv.isEmpty_eq,
    hplacement.isEmpty_eq]
  rfl

/-- **The canonical text does not show the order.** -/
theorem Job.Relisted.canonicalText (h : j.Relisted j') : j'.canonicalText = j.canonicalText := by
  rw [Job.canonicalText, h.toJson_canonical]
  rfl

theorem Job.Relisted.canonicalSize (h : j.Relisted j') : j'.canonicalSize = j.canonicalSize := by
  rw [Job.canonicalSize, h.toJson_canonical]
  rfl

/-! ## Valid documents -/

theorem isInt64_of_between {low high : ℤ} (h : between n low high = true) (hlow : -2 ^ 63 ≤ low)
    (hhigh : high ≤ 2 ^ 63 - 1) : isInt64 n = true := by
  simp only [isInt64, between, Bool.and_eq_true, decide_eq_true_eq] at h ⊢
  omega

theorem validateOutputs_maxBytes {names paths : List String} {l : List Output}
    (h : validateOutputs names paths l = .ok ()) : ∀ x ∈ l, between x.maxBytes 1 (2 ^ 40)
    = true := by
  induction l generalizing names paths with
  | nil => exact fun x hx => absurd hx List.not_mem_nil
  | cons x l ih =>
    unfold validateOutputs at h
    split_ifs at h with hbad
    rw [List.forall_mem_cons]
    refine ⟨?_, ih h⟩
    simp only [Bool.or_eq_true, not_or, Bool.not_eq_true', Bool.not_eq_false] at hbad
    exact hbad.2

/-- The integers of a valid document are far from the width of the machine. -/
theorem Job.machine_of_isValid (h : j.isValid = true) : j.spec.Machine := by
  rw [Job.isValid_iff] at h
  simp only [Job.validate, bind_ok, require_ok] at h
  obtain ⟨_, -, _, -, _, hpriority, _, -, _, -, _, -, _, -, _, -, _, ⟨hcpu, hmemory, hscratch⟩,
    _, ⟨hstartup, hexecution, hfinalization, hgrace⟩, _, -, _, ⟨hmin, hmax, hinitial, hbackoff⟩,
    _, hreasons, _, -, _, -, houtputs⟩ := h
  have hfirst : 1 ≤ j.spec.retry.initialBackoffSeconds := by
    simp only [between, Bool.and_eq_true, decide_eq_true_eq] at hinitial
    exact hinitial.1
  refine ⟨?_, isInt64_of_between hcpu (by omega) (by omega),
    isInt64_of_between hmemory (by omega) (by omega),
    isInt64_of_between hscratch (by omega) (by omega),
    fun x hx => isInt64_of_between (validateOutputs_maxBytes houtputs x hx) (by omega) (by omega),
    isInt64_of_between hstartup (by omega) (by omega),
    isInt64_of_between hexecution (by omega) (by omega),
    isInt64_of_between hfinalization (by omega) (by omega), ?_, ?_,
    isInt64_of_between hinitial (by omega) (by omega),
    isInt64_of_between hbackoff (by omega) (by omega),
    isInt64_of_between hgrace (by omega) (by omega)⟩
  · simp only [isInt64, between, Bool.and_eq_true, decide_eq_true_eq]
    omega
  · simp only [isInt64, between, Bool.and_eq_true, decide_eq_true_eq]
    omega
  · intro r hr
    have hknown := ((validateReasons_eq_ok.mp hreasons).1 r hr).1
    simp only [List.mem_cons, List.not_mem_nil, or_false] at hknown
    obtain rfl | rfl | rfl := hknown <;> decide

/-- **Canonical documents are read back.** However the members of its objects are
reordered, the canonical document of a valid job decodes to a valid job with the
same canonical text. -/
theorem canonical_round_trip (hj : j.isValid = true) {document : Json}
    (h : Json.Reordered j.canonical.toJson document) : ∃ job, Job.ofJson document = some job ∧
      job.isValid = true ∧ job.canonicalText = j.canonicalText := by
  have hvalid := Job.isValid_canonical hj
  obtain ⟨job, hjob, hrelisted⟩ := Job.ofJson_reordered (Job.machine_of_isValid hvalid) h
  refine ⟨job, hjob, hrelisted.isValid hvalid, hrelisted.canonicalText.trans ?_⟩
  rw [Job.canonicalText, Job.canonical_canonical]
  rfl

theorem sample_round_trip : ∃ job, Job.ofJson Sample.job.canonical.toJson = some job ∧
    job.isValid = true ∧ job.canonicalText = Sample.job.canonicalText :=
  canonical_round_trip (by decide +kernel) (.refl _)

end

end Dispatch
