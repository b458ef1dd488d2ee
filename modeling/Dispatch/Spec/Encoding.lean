import Dispatch.Lib.Json
import Dispatch.Spec.Job

/-!
# The JSON texts of job documents

The same document has two texts. The control plane marshals it with Go's
encoder, which escapes `<`, `>`, `&` and the two Unicode line separators as
six characters each; PostgreSQL stores it as `jsonb` and prints it with a
blank after every comma and colon and without those escapes. Admission bounds
the second text, everything that is sent is the first.
-/

namespace Dispatch

/-- The four hexadecimal digits of a character below `0x10000`. -/
def hex4 (c : Char) : List Char :=
  [Nat.digitChar (c.toNat / 4096 % 16), Nat.digitChar (c.toNat / 256 % 16),
    Nat.digitChar (c.toNat / 16 % 16), Nat.digitChar (c.toNat % 16)]

/-- The escapes both encoders share: quote, backslash, and the control
characters, five of which have a short form. -/
def escapeControl (c : Char) : Option (List Char) :=
  if c = '"' ∨ c = '\\' then some ['\\', c]
  else if c = '\x08' then some ['\\', 'b']
  else if c = '\x0c' then some ['\\', 'f']
  else if c = '\n' then some ['\\', 'n']
  else if c = '\r' then some ['\\', 'r']
  else if c = '\t' then some ['\\', 't']
  else if c < ' ' then some ('\\' :: 'u' :: hex4 c)
  else none

/-- What only Go's encoder escapes. -/
def escapedByGo (c : Char) : Bool :=
  c == '<' || c == '>' || c == '&' || c == '\u2028' || c == '\u2029'

/-- `encoding/json` with its default HTML escaping. -/
def goStyle : Json.Style where
  escape c :=
    match escapeControl c with
    | some cs => cs
    | none => if escapedByGo c then '\\' :: 'u' :: hex4 c else [c]
  comma := [',']
  colon := [':']

/-- The text of a `jsonb` value. -/
def jsonbStyle : Json.Style where
  escape c := (escapeControl c).getD [c]
  comma := [',', ' ']
  colon := [':', ' ']

/-- A string map as an object, its keys in order. -/
def mapJson (m : Table String String) : Json :=
  .obj ((m.entries.insertionSort (fun a b => a.1 ≤ b.1)).map (fun e => (e.1, Json.str e.2)))

/-- An integer as a JSON number. -/
def intJson (n : ℤ) : Json := .num (toString n)

/-- A member that is left out when empty: `omitempty`. -/
def optionalMember (empty : Bool) (k : String) (v : Json) : List (String × Json) :=
  if empty then [] else [(k, v)]

/-- The metadata, in the order of its fields, as everything below. -/
def Metadata.toJson (m : Metadata) : Json :=
  .obj ([("name", .str m.name), ("project", .str m.project)]
    ++ optionalMember m.labels.entries.isEmpty "labels" (mapJson m.labels))

def Resources.toJson (r : Resources) : Json :=
  .obj [("cpuMillis", intJson r.cpuMillis), ("memoryMiB", intJson r.memoryMiB),
    ("scratchMiB", intJson r.scratchMiB)]

def Input.toJson (i : Input) : Json :=
  .obj [("dataset", .str i.dataset), ("mountPath", .str i.mountPath)]

def Output.toJson (o : Output) : Json :=
  .obj [("name", .str o.name), ("path", .str o.path), ("required", .bool o.required),
    ("maxBytes", intJson o.maxBytes)]

def Timeouts.toJson (t : Timeouts) : Json :=
  .obj [("startupSeconds", intJson t.startupSeconds),
    ("executionSeconds", intJson t.executionSeconds),
    ("finalizationSeconds", intJson t.finalizationSeconds)]

def Retry.toJson (r : Retry) : Json :=
  .obj ([("maxAttempts", intJson r.maxAttempts)]
    ++ optionalMember r.on.isEmpty "on" (.arr (r.on.map (fun x => Json.str x.text)))
    ++ [("initialBackoffSeconds", intJson r.initialBackoffSeconds),
      ("maxBackoffSeconds", intJson r.maxBackoffSeconds)])

def JobSpec.toJson (s : JobSpec) : Json :=
  .obj (optionalMember (decide (s.priority = 0)) "priority" (intJson s.priority)
    ++ [("image", .str s.image), ("command", .arr (s.command.map Json.str))]
    ++ optionalMember s.args.isEmpty "args" (.arr (s.args.map Json.str))
    ++ optionalMember s.env.entries.isEmpty "env" (mapJson s.env)
    ++ [("resources", s.resources.toJson),
      ("placement", .obj (optionalMember s.placementLabels.entries.isEmpty "labels"
        (mapJson s.placementLabels)))]
    ++ optionalMember s.inputs.isEmpty "inputs" (.arr (s.inputs.map Input.toJson))
    ++ optionalMember s.outputs.isEmpty "outputs" (.arr (s.outputs.map Output.toJson))
    ++ [("timeouts", s.timeouts.toJson), ("retry", s.retry.toJson),
      ("terminationGraceSeconds", intJson s.terminationGraceSeconds),
      ("network", .str s.network)])

/-- **The document as it is encoded.** -/
def Job.toJson (j : Job) : Json :=
  .obj [("apiVersion", .str j.apiVersion), ("kind", .str j.kind),
    ("metadata", j.metadata.toJson), ("spec", j.spec.toJson)]

/-- The canonical bytes of a document, as the control plane marshals them. -/
def Job.canonicalText (j : Job) : List Char := Json.encode goStyle j.canonical.toJson

/-- Their number. -/
def Job.canonicalSize (j : Job) : ℕ := Json.size goStyle j.canonical.toJson

/-- The bound of the `spec` columns: `octet_length(spec::text) <= 2097152`. -/
def specColumnLimit : ℕ := 2097152

/-- The stored document passes the column's check. -/
def Job.fitsColumn (j : Job) : Bool :=
  decide (Json.size jsonbStyle j.canonical.toJson ≤ specColumnLimit)

end Dispatch
