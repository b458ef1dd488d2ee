import Dispatch.Spec.Encoding

/-!
# Sweeps and datasets

A sweep is a job template and a matrix of environment values; `Sweep.expand`
turns it into one job per combination, in mixed-radix order over the sorted
keys. A dataset is an archive with a manifest of the files inside it.
-/

namespace Dispatch

open Txn

/-- **The document of a sweep**: a template, and the matrix of the variables it is
run with. -/
structure Sweep where
  apiVersion : String
  kind : String
  metadata : Metadata
  jobTemplate : Job
  matrix : Table String (List String)
  maxConcurrent : ℤ
  failFast : Bool
  cancelRunningOnFailure : Bool
  deriving DecidableEq

/-- The stored document of a sweep: the submitted one, and for a retry the
parent sweep and the parent jobs it selected. -/
structure SweepDocument where
  sweep : Sweep
  retry : Option (ℕ × List ℕ)
  deriving DecidableEq

/-- Retry reasons form a set; nothing else of a sweep is reordered. -/
def Sweep.canonical (s : Sweep) : Sweep := { s with jobTemplate := s.jobTemplate.canonical }

/-- Hexadecimal digits of a UUID, those above its lowest `low`. -/
def uuidDigits (id low count : ℕ) : List Char :=
  (List.range count).reverse.map (fun i => Nat.digitChar (id / 16 ^ (low + i) % 16))

/-- **The text of a UUID**: 32 hexadecimal digits in groups of 8, 4, 4, 4 and 12. -/
def uuidText (id : ℕ) : String :=
  String.ofList (uuidDigits id 24 8 ++ '-' :: (uuidDigits id 20 4 ++ '-' :: (uuidDigits id 16 4
    ++ '-' :: (uuidDigits id 12 4 ++ '-' :: uuidDigits id 0 12))))

/-- A UUID as a JSON value. -/
def uuidJson (id : ℕ) : Json := .str (uuidText id)

/-- The stored document, in the order of its fields. -/
def SweepDocument.toJson (d : SweepDocument) : Json :=
  .obj ([("apiVersion", .str d.sweep.apiVersion), ("kind", .str d.sweep.kind),
      ("metadata", d.sweep.metadata.toJson),
      ("spec", .obj [("jobTemplate", d.sweep.jobTemplate.toJson),
        ("matrix", .obj (d.sweep.matrix.entries.map
          (fun e => (e.1, Json.arr (e.2.map Json.str))))),
        ("maxConcurrent", intJson d.sweep.maxConcurrent), ("failFast", .bool d.sweep.failFast),
        ("cancelRunningOnFailure", .bool d.sweep.cancelRunningOnFailure)])]
    ++ match d.retry with
      | none => []
      | some (parent, jobs) =>
        [("retry", .obj [("parentSweepId", uuidJson parent),
          ("parentJobIds", .arr (jobs.map uuidJson))])])

/-- The stored sweep passes the `spec` column's check. -/
def SweepDocument.fitsColumn (d : SweepDocument) : Bool :=
  decide (Json.size jsonbStyle d.toJson ≤ specColumnLimit)

/-- The largest number of children. -/
def maxSweepJobs : ℕ := 1000

/-- The largest size of all children together. -/
def maxExpandedBytes : ℕ := 16 * 2 ^ 20

/-- One key of the matrix multiplies the number of jobs, never past the
limit. -/
def countMatrix (count : ℕ) : List (Sigma (fun _ : String => List String)) → Except String ℕ
  | [] => .ok count
  | ⟨k, values⟩ :: rest => do
    require (envPattern k ∧ ¬ hasTextPrefix k "DISPATCH_" ∧ values ≠ [] ∧
        values.length ≤ maxSweepJobs / count)
      "invalid matrix or sweep exceeds 1000 jobs"
    require (∀ v ∈ values, v.utf8ByteSize ≤ 8192 ∧ ¬ hasNul v) "invalid matrix value"
    countMatrix (count * values.length) rest

/-- The values of the `i`-th combination, last key fastest. The keys come in
reverse order, and what is left of the index goes to the keys before. -/
def matrixEnv (env : Table String String) (index : ℕ) :
    List (String × List String) → Table String String
  | [] => env
  | (k, values) :: rest =>
    matrixEnv (AList.insert k (values.getD (index % values.length) "") env)
      (index / values.length) rest

/-- The `i`-th child of a sweep, the matrix given in sorted key order. -/
def Sweep.child (s : Sweep) (matrix : List (String × List String)) (i : ℕ) : Job :=
  let t := s.jobTemplate.canonical
  { t with spec := { t.spec with env := matrixEnv t.spec.env i matrix.reverse } }

/-- Validate the children in order and bound the sum of their sizes. -/
def collectChildren (total : ℕ) : List Job → Except String (List Job)
  | [] => .ok []
  | child :: rest => do
    child.validate
    require (total + child.canonicalSize ≤ maxExpandedBytes) "expanded sweep exceeds 16 MiB"
    let jobs ← collectChildren (total + child.canonicalSize) rest
    pure (child :: jobs)

/-- **The jobs of a sweep**, in child order. -/
def Sweep.expand (s : Sweep) : Except String (List Job) := do
  require (s.apiVersion = Dispatch.apiVersion ∧ s.kind = "Sweep")
    ("expected " ++ Dispatch.apiVersion ++ " Sweep")
  s.metadata.validate
  require (s.metadata.project = s.jobTemplate.metadata.project)
    "template and sweep projects must match"
  s.jobTemplate.validate
  require (1 ≤ s.maxConcurrent ∧ s.maxConcurrent ≤ maxSweepJobs ∧
      (s.cancelRunningOnFailure → s.failFast))
    "invalid sweep concurrency or failure policy"
  require (s.matrix.entries ≠ [] ∧ s.matrix.entries.length ≤ 32)
    "matrix requires 1–32 parameters"
  let count ← countMatrix 1 s.matrix.entries
  let matrix := (s.matrix.entries.map (fun e => (e.1, e.2))).insertionSort
    (fun a b => a.1 ≤ b.1)
  collectChildren 0 ((List.range count).map (s.child matrix))

theorem collectChildren_eq_ok {total : ℕ} {l jobs : List Job}
    (h : collectChildren total l = .ok jobs) : jobs = l := by
  induction l generalizing total jobs with
  | nil => exact (Except.ok.inj h).symm
  | cons child rest ih =>
    simp only [collectChildren, bind_ok, pure_ok] at h
    obtain ⟨_, -, _, -, tail, htail, rfl⟩ := h
    rw [ih htail]

/-- **Every child of a sweep is its template** but for the environment. -/
theorem Sweep.mem_expand {s : Sweep} {children : List Job} (h : s.expand = .ok children) {c : Job}
    (hc : c ∈ children) :
    ∃ env, c = { s.jobTemplate.canonical with
      spec := { s.jobTemplate.canonical.spec with env := env } } := by
  simp only [Sweep.expand, bind_ok] at h
  obtain ⟨_, -, _, -, _, -, _, -, _, -, _, -, count, -, hjobs⟩ := h
  obtain rfl := collectChildren_eq_ok hjobs
  obtain ⟨i, -, rfl⟩ := List.mem_map.mp hc
  exact ⟨_, rfl⟩

/-! ## Dataset manifests -/

/-- A file of a dataset. -/
structure DatasetFile where
  path : String
  sizeBytes : ℤ
  sha256 : String
  deriving DecidableEq, Repr

/-- The files of a dataset, and how they are packed. -/
structure DatasetManifest where
  format : String
  files : List DatasetFile
  deriving DecidableEq, Repr

/-- One element of a relative path folded into the elements kept so far: a
`..` with nothing before it stays. -/
def cleanRelativeElement (kept : List (List Char)) (e : List Char) : List (List Char) :=
  if e = [] ∨ e = ['.'] then kept
  else if e = ['.', '.'] then
    match kept.getLast? with
    | none => kept ++ [e]
    | some l => if l = ['.', '.'] then kept ++ [e] else kept.dropLast
  else kept ++ [e]

/-- `path.Clean` of a relative path. -/
def cleanRelative (p : List Char) : List Char :=
  match (splitSlash p).foldl cleanRelativeElement [] with
  | [] => ['.']
  | e :: es => e ++ es.flatMap (fun e => '/' :: e)

/-- `hashPattern`: sixty-four lower-case hexadecimal digits. -/
def hashPattern (s : String) : Bool :=
  decide (s.toList.length = 64) &&
    s.toList.all (fun c => c.isDigit || (decide ('a' ≤ c) && decide (c ≤ 'f')))

/-- The files of a manifest in strictly increasing path order, none inside the
one before it, their sizes within what is left of the archive. -/
def validateFiles (archiveBytes total : ℤ) (previous : String) : List DatasetFile → Bool
  | [] => true
  | f :: rest =>
    let bad := decide (f.path = "") || decide (f.path = ".") || decide (f.path = "..") ||
      hasTextPrefix f.path "../" || decide (512 < f.path.utf8ByteSize) ||
      hasTextPrefix f.path "/" || decide (cleanRelative f.path.toList ≠ f.path.toList) ||
      f.path.toList.any (fun c => c == '\\' || c == '\x00') ||
      decide (f.path ≤ previous) || (hasTextPrefix f.path (previous ++ "/") && previous != "") ||
      decide (f.sizeBytes < 0) || decide (archiveBytes - total < f.sizeBytes) ||
      !hashPattern f.sha256
    if bad then false else validateFiles archiveBytes (total + f.sizeBytes) f.path rest

/-- The manifest check of registration, repeated whenever a binding is
loaded. -/
def DatasetManifest.validate (m : DatasetManifest) (archiveBytes : ℤ) : Bool :=
  decide (m.format = "tar.v1") && decide (m.files ≠ []) && decide (m.files.length ≤ 1024) &&
    validateFiles archiveBytes 0 "" m.files

end Dispatch
