import Dispatch.Lib.Table
import Dispatch.Lib.Txn

/-!
# Job documents

The submission contract: a job names an image, a command, its resources, the
datasets it mounts, the outputs it declares, three timeouts and a retry
policy. `Job.validate` is the check every document passes at admission and
again whenever a transaction decodes a stored document; `Job.canonical` is the
document whose encoding is hashed.

Integers are unbounded here: every comparison of the validator bounds them on
both sides long before the machine width matters. A Go map of strings is a
`Table`, whose keys are distinct.
-/

namespace Dispatch

/-- Why an attempt ended, or which ends a policy retries. `other` is any text
the validators reject. -/
inductive Reason where
  | workerLost
  | runtimeUnavailable
  | transferFailed
  | applicationExit
  | oom
  | startupTimeout
  | executionTimeout
  | outputInvalid
  | userCancelled
  | finalizationTimeout
  | other (text : String)
  deriving DecidableEq, Repr

/-- The text of a reason on the wire and in the database. -/
def Reason.text : Reason → String
  | workerLost => "WORKER_LOST"
  | runtimeUnavailable => "RUNTIME_UNAVAILABLE"
  | transferFailed => "TRANSFER_FAILED"
  | applicationExit => "APPLICATION_EXIT"
  | oom => "OOM"
  | startupTimeout => "STARTUP_TIMEOUT"
  | executionTimeout => "EXECUTION_TIMEOUT"
  | outputInvalid => "OUTPUT_INVALID"
  | userCancelled => "USER_CANCELLED"
  | finalizationTimeout => "FINALIZATION_TIMEOUT"
  | other text => text

/-- The name of a document, its project and its labels. -/
structure Metadata where
  name : String
  project : String
  labels : Table String String
  deriving DecidableEq

/-- What a job needs, or a worker has. -/
structure Resources where
  cpuMillis : ℤ
  memoryMiB : ℤ
  scratchMiB : ℤ
  deriving DecidableEq, Repr

/-- A dataset and where it is mounted. -/
structure Input where
  dataset : String
  mountPath : String
  deriving DecidableEq, Repr

/-- A file the job may leave behind, and its largest size. -/
structure Output where
  name : String
  path : String
  required : Bool
  maxBytes : ℤ
  deriving DecidableEq, Repr

/-- The longest time of each phase of an attempt. -/
structure Timeouts where
  startupSeconds : ℤ
  executionSeconds : ℤ
  finalizationSeconds : ℤ
  deriving DecidableEq, Repr

/-- How often a job is tried, after which failures, and how long it waits in
between. -/
structure Retry where
  maxAttempts : ℤ
  on : List Reason
  initialBackoffSeconds : ℤ
  maxBackoffSeconds : ℤ
  deriving DecidableEq, Repr

/-- What is run, where, with what and for how long. -/
structure JobSpec where
  priority : ℤ
  image : String
  command : List String
  args : List String
  env : Table String String
  resources : Resources
  placementLabels : Table String String
  inputs : List Input
  outputs : List Output
  timeouts : Timeouts
  retry : Retry
  terminationGraceSeconds : ℤ
  network : String
  deriving DecidableEq

/-- **The document of a job.** -/
structure Job where
  apiVersion : String
  kind : String
  metadata : Metadata
  spec : JobSpec
  deriving DecidableEq

/-- The one supported `apiVersion`. -/
def apiVersion : String := "dispatch.dev/v1alpha1"

/-! ## Text predicates -/

/-- ASCII letters and digits, the class `[a-zA-Z0-9]`. -/
def isAlnum (c : Char) : Bool := c.isAlphanum

/-- `^[first][rest]{0,127}$`: the shape of both identifier patterns. -/
def identifier (first rest : Char → Bool) (s : String) : Bool :=
  match s.toList with
  | [] => false
  | c :: cs => first c && cs.all rest && decide (cs.length ≤ 127)

/-- `namePattern`. -/
def namePattern (s : String) : Bool :=
  identifier isAlnum (fun c => isAlnum c || c == '_' || c == '.' || c == '-') s

/-- `envPattern`. -/
def envPattern (s : String) : Bool :=
  identifier (fun c => c.isAlpha || c == '_') (fun c => isAlnum c || c == '_') s

/-- `strings.ContainsRune(s, 0)`. -/
def hasNul (s : String) : Bool := s.toList.any (fun c => c == '\x00')

/-- `strings.HasPrefix`. -/
def hasTextPrefix (s p : String) : Bool := p.toList.isPrefixOf s.toList

/-- Between `low` and `high`, both included. -/
def between (n low high : ℤ) : Bool := decide (low ≤ n) && decide (n ≤ high)

/-- A text that is not empty, of at most `n` bytes and without NUL. -/
def textWithin (s : String) (n : ℕ) : Bool :=
  decide (0 < s.utf8ByteSize) && decide (s.utf8ByteSize ≤ n) && !hasNul s

/-! ## Paths -/

/-- The elements between the slashes of a path. -/
def splitSlash : List Char → List (List Char)
  | [] => [[]]
  | c :: cs =>
    match splitSlash cs with
    | [] => [[c]]
    | e :: es => if c = '/' then [] :: e :: es else (c :: e) :: es

/-- One element of a rooted path folded into the elements kept so far, as
`path.Clean` does: empty elements and `.` disappear, `..` drops the element
before it. -/
def cleanElement (kept : List (List Char)) (e : List Char) : List (List Char) :=
  if e = [] ∨ e = ['.'] then kept
  else if e = ['.', '.'] then kept.dropLast
  else kept ++ [e]

/-- `path.Clean` of a rooted path. Every path the validators accept is
rooted; for any other path `containedPath` is false already because of its
prefix. -/
def cleanRooted (p : List Char) : List Char :=
  match (splitSlash p).foldl cleanElement [] with
  | [] => ['/']
  | es => es.flatMap (fun e => '/' :: e)

/-- A clean path below a root. -/
def containedPath (p root : String) : Bool :=
  decide (p.utf8ByteSize ≤ 4096) && decide (cleanRooted p.toList = p.toList)
    && hasTextPrefix p (root ++ "/")
    && !(p.toList.any (fun c => c == '\\' || c == '\x00'))

/-- One path is the other or an ancestor of it. -/
def pathsOverlap (p q : String) : Bool :=
  decide (p = q) || hasTextPrefix p (q ++ "/") || hasTextPrefix q (p ++ "/")

/-- A path overlaps one of those before it. -/
def overlaps (existing : List String) (p : String) : Bool :=
  existing.any (fun q => pathsOverlap p q)

/-! ## Validation -/

open Txn

/-- Every entry of a label or environment map is well formed; the first bad
one names itself. -/
def validateEntries (environment : Bool) : List (Sigma (fun _ : String => String)) →
    Except String Unit
  | [] => .ok ()
  | ⟨k, v⟩ :: rest =>
    let valid := if environment then envPattern k && !hasTextPrefix k "DISPATCH_" else namePattern k
    if !valid || decide (8192 < v.utf8ByteSize) || hasNul v then
      .error ("invalid map entry \"" ++ k ++ "\"")
    else validateEntries environment rest

/-- Labels or environment variables: not too many, and each well formed. -/
def validateMap (m : Table String String) (environment : Bool) : Except String Unit := do
  require (m.entries.length ≤ 128) "at most 128 map entries are allowed"
  validateEntries environment m.entries

/-- The metadata of any document. -/
def Metadata.validate (m : Metadata) : Except String Unit := do
  require (namePattern m.name && namePattern m.project)
    "name and project must be 1–128 identifier characters"
  validateMap m.labels false

/-- The retry set: known reasons, each once. -/
def validateReasons (seen : List Reason) : List Reason → Except String Unit
  | [] => .ok ()
  | r :: rest =>
    if r ∈ [Reason.workerLost, Reason.runtimeUnavailable, Reason.transferFailed] ∧ r ∉ seen then
      validateReasons (r :: seen) rest
    else .error ("unsupported or duplicate retry reason: " ++ r.text)

/-- Input mounts are contained in `/inputs` and pairwise disjoint. -/
def validateInputs (mounts : List String) : List Input → Except String Unit
  | [] => .ok ()
  | i :: rest =>
    if !namePattern i.dataset || !containedPath i.mountPath "/inputs"
        || overlaps mounts i.mountPath then
      .error "invalid or overlapping input mount"
    else validateInputs (mounts ++ [i.mountPath]) rest

/-- Outputs have distinct names and disjoint paths contained in `/outputs`. -/
def validateOutputs (names paths : List String) : List Output → Except String Unit
  | [] => .ok ()
  | o :: rest =>
    if !namePattern o.name || decide (o.name ∈ names) || !containedPath o.path "/outputs"
        || overlaps paths o.path || !between o.maxBytes 1 (2 ^ 40) then
      .error "invalid, duplicate, or overlapping output"
    else validateOutputs (o.name :: names) (paths ++ [o.path]) rest

/-- **The validator of job documents.** -/
def Job.validate (j : Job) : Except String Unit := do
  require (j.apiVersion = Dispatch.apiVersion ∧ j.kind = "Job")
    ("expected " ++ Dispatch.apiVersion ++ " Job")
  j.metadata.validate
  let s := j.spec
  require (0 ≤ s.priority ∧ s.priority ≤ 3) "priority must be between 0 and 3"
  require (textWithin s.image 1024 ∧
      ¬ s.image.toList.any (fun c => c == ' ' || c == '\t' || c == '\r' || c == '\n'))
    "invalid image reference"
  require (s.command ≠ [] ∧ s.command.length + s.args.length ≤ 256 ∧ s.command.head? ≠ some "")
    "command requires an executable and at most 256 arguments"
  require (∀ a ∈ s.command ++ s.args, a.utf8ByteSize ≤ 8192 ∧ ¬ hasNul a)
    "invalid command argument"
  validateMap s.env true
  validateMap s.placementLabels false
  require (between s.resources.cpuMillis 1 1024000 ∧ between s.resources.memoryMiB 1 16777216 ∧
      between s.resources.scratchMiB 1 1073741824)
    "resources must be positive and within platform bounds"
  require (between s.timeouts.startupSeconds 1 3600 ∧
      between s.timeouts.executionSeconds 1 604800 ∧
      between s.timeouts.finalizationSeconds 1 3600 ∧ between s.terminationGraceSeconds 0 300)
    "timeouts must be finite and within platform bounds"
  require (s.network = "disabled") "only disabled workload networking is supported"
  require (1 ≤ s.retry.maxAttempts ∧ s.retry.maxAttempts ≤ 10 ∧
      between s.retry.initialBackoffSeconds 1 3600 ∧
      between s.retry.maxBackoffSeconds s.retry.initialBackoffSeconds 3600)
    "invalid retry policy"
  validateReasons [] s.retry.on
  require (s.inputs.length ≤ 64 ∧ s.outputs.length ≤ 64)
    "at most 64 inputs and outputs are allowed"
  validateInputs [] s.inputs
  validateOutputs [] [] s.outputs

/-- The validator accepts the document. -/
def Job.isValid (j : Job) : Bool := j.validate.isOk

/-- **The canonical document**: the retry set in its sorted order, everything
else as submitted. Its encoding is what is hashed, and the encoding determines
it, so the canonical document stands for its own hash. -/
def Job.canonical (j : Job) : Job :=
  { j with spec := { j.spec with retry := { j.spec.retry with
      on := j.spec.retry.on.insertionSort (fun a b => a.text ≤ b.text) } } }

/-- A canonical document is its own canonical form. -/
@[simp] theorem Job.canonical_canonical (j : Job) : j.canonical.canonical = j.canonical := by
  have hsorted := List.pairwise_insertionSort (fun a b : Reason => a.text ≤ b.text) j.spec.retry.on
  simp only [Job.canonical, hsorted.insertionSort_eq]

/-- The reasons a document may name. -/
theorem validateReasons_eq_ok {seen l : List Reason} :
    validateReasons seen l = .ok () ↔
      (∀ r ∈ l, r ∈ [Reason.workerLost, Reason.runtimeUnavailable, Reason.transferFailed] ∧
        r ∉ seen) ∧ l.Nodup := by
  induction l generalizing seen with
  | nil => simp [validateReasons]
  | cons r l ih =>
    unfold validateReasons
    split_ifs with h
    · rw [ih, List.nodup_cons]
      constructor
      · rintro ⟨hall, hnodup⟩
        refine ⟨?_, fun hmem => ?_, hnodup⟩
        · rintro x (_ | ⟨_, hx⟩)
          · exact h
          · exact ⟨(hall x hx).1, fun hs => (hall x hx).2 (List.mem_cons_of_mem _ hs)⟩
        · exact (hall r hmem).2 List.mem_cons_self
      · rintro ⟨hall, hfresh, hnodup⟩
        refine ⟨fun x hx => ⟨(hall x (List.mem_cons_of_mem _ hx)).1, fun hs => ?_⟩, hnodup⟩
        obtain rfl | hs := List.mem_cons.mp hs
        · exact hfresh hx
        · exact (hall x (List.mem_cons_of_mem _ hx)).2 hs
    · refine iff_of_false (by simp) ?_
      rintro ⟨hall, -⟩
      exact h (hall r List.mem_cons_self)

theorem Job.isValid_iff {j : Job} : j.isValid = true ↔ j.validate = .ok () := by
  unfold Job.isValid
  cases j.validate <;> simp [Except.isOk, Except.toBool]

/-- **The canonical form of a valid document is valid**: it has the same
reasons in another order. -/
theorem Job.isValid_canonical {j : Job} (h : j.isValid = true) : j.canonical.isValid = true := by
  rw [Job.isValid_iff] at h ⊢
  simp only [Job.validate, bind_ok] at h ⊢
  obtain ⟨u₁, h₁, u₂, h₂, u₃, h₃, u₄, h₄, u₅, h₅, u₆, h₆, u₇, h₇, u₈, h₈, u₉, h₉, u₁₀, h₁₀,
    u₁₁, h₁₁, u₁₂, h₁₂, u₁₃, h₁₃, hrest⟩ := h
  refine ⟨u₁, h₁, u₂, h₂, u₃, h₃, u₄, h₄, u₅, h₅, u₆, h₆, u₇, h₇, u₈, h₈, u₉, h₉, u₁₀, h₁₀,
    u₁₁, h₁₁, u₁₂, h₁₂, u₁₃, ?_, hrest⟩
  obtain ⟨hall, hnodup⟩ := validateReasons_eq_ok.mp h₁₃
  have hperm := List.perm_insertionSort (fun a b : Reason => a.text ≤ b.text) j.spec.retry.on
  exact validateReasons_eq_ok.mpr
    ⟨fun r hr => hall r (hperm.mem_iff.mp hr), hperm.nodup_iff.mpr hnodup⟩

/-! ## A small document -/

namespace Sample

/-- An image that is pinned by its digest. -/
def image : String :=
  "i@sha256:0000000000000000000000000000000000000000000000000000000000000000"

/-- A document that retries a lost worker once. -/
def job : Job where
  apiVersion := apiVersion
  kind := "Job"
  metadata := ⟨"j", "p", ∅⟩
  spec :=
    { priority := 1
      image := image
      command := ["run"]
      args := []
      env := ∅
      resources := ⟨1000, 256, 16⟩
      placementLabels := ∅
      inputs := []
      outputs := []
      timeouts := ⟨300, 600, 300⟩
      retry := ⟨2, [.workerLost], 1, 60⟩
      terminationGraceSeconds := 5
      network := "disabled" }

end Sample

end Dispatch
