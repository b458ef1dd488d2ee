import Dispatch.Spec.Sweep

/-!
# Documents that grow when they are sent

The two texts of a document differ in size by what Go escapes and PostgreSQL
does not. An argument may be 8192 bytes long and consist of `<` alone: stored it
is 8192 bytes, sent it is six times that. So a document far below the bound of
its column can be above every bound on what is sent, and this module has one
such document for any number of arguments, with both of its sizes.

Nothing here is evaluated: the sizes follow from how the size of an object
depends on one of its members.
-/

namespace Dispatch

open Txn

variable {j : Job}

/-- The document with other arguments. -/
def Job.withArgs (j : Job) (args : List String) : Job :=
  { j with spec := { j.spec with args := args } }

/-- The validator looks at arguments in two checks only. -/
theorem Job.isValid_withArgs {args : List String} (h : j.isValid = true)
    (hlength : j.spec.command.length + args.length ≤ 256)
    (hargs : ∀ a ∈ args, a.utf8ByteSize ≤ 8192 ∧ ¬ hasNul a = true) :
    (j.withArgs args).isValid = true := by
  rw [Job.isValid_iff] at h ⊢
  simp only [Job.validate, bind_ok] at h ⊢
  obtain ⟨u₁, h₁, u₂, h₂, u₃, h₃, u₄, h₄, u₅, h₅, u₆, h₆, hrest⟩ := h
  obtain ⟨hcommand, -, hhead⟩ := require_ok.mp h₅
  have hall := require_ok.mp h₆
  refine ⟨u₁, h₁, u₂, h₂, u₃, h₃, u₄, h₄, (), require_ok.mpr ⟨hcommand, hlength, hhead⟩,
    (), require_ok.mpr fun a ha => ?_, hrest⟩
  obtain ha | ha := List.mem_append.mp ha
  · exact hall a (List.mem_append_left _ ha)
  · exact hargs a ha

/-- The members of a `spec` object before its arguments. -/
def JobSpec.leading (s : JobSpec) : List (String × Json) :=
  optionalMember (decide (s.priority = 0)) "priority" (intJson s.priority)
    ++ [("image", .str s.image), ("command", .arr (s.command.map Json.str))]

/-- The members after them. -/
def JobSpec.trailing (s : JobSpec) : List (String × Json) :=
  optionalMember s.env.entries.isEmpty "env" (mapJson s.env)
    ++ [("resources", s.resources.toJson),
      ("placement", .obj (optionalMember s.placementLabels.entries.isEmpty "labels"
        (mapJson s.placementLabels)))]
    ++ optionalMember s.inputs.isEmpty "inputs" (.arr (s.inputs.map Input.toJson))
    ++ optionalMember s.outputs.isEmpty "outputs" (.arr (s.outputs.map Output.toJson))
    ++ [("timeouts", s.timeouts.toJson), ("retry", s.retry.toJson),
      ("terminationGraceSeconds", intJson s.terminationGraceSeconds),
      ("network", .str s.network)]

theorem JobSpec.toJson_eq (s : JobSpec) :
    s.toJson = .obj (s.leading
      ++ (optionalMember s.args.isEmpty "args" (.arr (s.args.map Json.str)) ++ s.trailing)) := by
  simp only [JobSpec.toJson, JobSpec.leading, JobSpec.trailing, List.append_assoc]

/-- What the arguments add to the text of a document that has none. -/
theorem Job.size_withArgs (st : Json.Style) {args : List String}
    (hnone : j.spec.args = []) (hsome : args ≠ []) :
    Json.size st (j.withArgs args).toJson = Json.size st j.toJson
      + Json.utf8Length (Json.quote st "args") + Json.utf8Length st.colon
      + Json.size st (.arr (args.map Json.str)) + Json.utf8Length st.comma := by
  -- Inside the `spec` object the member is inserted, and that object replaces
  -- the other one in the document.
  have hspec : Json.size st (j.withArgs args).spec.toJson = Json.size st j.spec.toJson
      + Json.utf8Length (Json.quote st "args") + Json.utf8Length st.colon
      + Json.size st (.arr (args.map Json.str)) + Json.utf8Length st.comma := by
    have hempty : (j.withArgs args).spec.args.isEmpty = false := List.isEmpty_eq_false_iff.mpr hsome
    have hleading : j.spec.leading ++ j.spec.trailing ≠ [] := by
      simp [JobSpec.leading]
    rw [JobSpec.toJson_eq, hempty, JobSpec.toJson_eq, hnone]
    exact Json.size_obj_insert st hleading "args" _
  have hdocument : Json.size st (j.withArgs args).toJson + Json.size st j.spec.toJson
      = Json.size st j.toJson + Json.size st (j.withArgs args).spec.toJson :=
    Json.size_obj_replace st [("apiVersion", .str j.apiVersion), ("kind", .str j.kind),
      ("metadata", j.metadata.toJson)] [] "spec" _ _
  omega

/-- Another template in a sweep's document. -/
theorem SweepDocument.size_jobTemplate (st : Json.Style) (d : SweepDocument) (j : Job) :
    Json.size st { d with sweep := { d.sweep with jobTemplate := j } : SweepDocument }.toJson
        + Json.size st d.sweep.jobTemplate.toJson
      = Json.size st d.toJson + Json.size st j.toJson := by
  let others : List (String × Json) :=
    [("matrix", .obj (d.sweep.matrix.entries.map (fun e => (e.1, Json.arr (e.2.map Json.str))))),
      ("maxConcurrent", intJson d.sweep.maxConcurrent), ("failFast", .bool d.sweep.failFast),
      ("cancelRunningOnFailure", .bool d.sweep.cancelRunningOnFailure)]
  have hspec : Json.size st (.obj (("jobTemplate", j.toJson) :: others))
      + Json.size st d.sweep.jobTemplate.toJson
      = Json.size st (.obj (("jobTemplate", d.sweep.jobTemplate.toJson) :: others))
        + Json.size st j.toJson :=
    Json.size_obj_replace st [] others "jobTemplate" _ _
  have hdocument : Json.size st
        { d with sweep := { d.sweep with jobTemplate := j } : SweepDocument }.toJson
      + Json.size st (.obj (("jobTemplate", d.sweep.jobTemplate.toJson) :: others))
      = Json.size st d.toJson + Json.size st (.obj (("jobTemplate", j.toJson) :: others)) :=
    Json.size_obj_replace st [("apiVersion", .str d.sweep.apiVersion), ("kind", .str d.sweep.kind),
      ("metadata", d.sweep.metadata.toJson)] _ "spec" _ _
  omega

/-- **The text of a UUID is 36 characters**, none of which Go escapes. -/
theorem size_uuidJson (id : ℕ) : Json.size goStyle (uuidJson id) = 38 := by
  have hdigit : ∀ n < 16, Json.utf8Length (goStyle.escape (Nat.digitChar n)) = 1 := by decide
  have hdash : Json.utf8Length (goStyle.escape '-') = 1 := by decide
  refine Json.size_str goStyle (n := 1) fun c hc => ?_
  simp only [uuidDigits, List.mem_append, List.mem_cons, List.mem_map] at hc
  obtain ⟨i, -, rfl⟩ | rfl | ⟨i, -, rfl⟩ | rfl | ⟨i, -, rfl⟩ | rfl | ⟨i, -, rfl⟩ | rfl |
    ⟨i, -, rfl⟩ := hc
  all_goals first | exact hdash | exact hdigit _ (Nat.mod_lt _ (by decide))

/-- **What a retry adds to the document of its source**: the names of its
members, the parent sweep and 39 bytes for every job it takes over. -/
theorem SweepDocument.size_retry (d : SweepDocument) (parent : ℕ) {jobs : List ℕ} (h : jobs ≠ []) :
    Json.size goStyle { d with retry := some (parent, jobs) : SweepDocument }.toJson
      = Json.size goStyle (⟨d.sweep, none⟩ : SweepDocument).toJson + 39 * jobs.length + 82 := by
  have hkeys : Json.utf8Length (Json.quote goStyle "retry") = 7 ∧
      Json.utf8Length (Json.quote goStyle "parentSweepId") = 15 ∧
      Json.utf8Length (Json.quote goStyle "parentJobIds") = 14 ∧
      Json.utf8Length goStyle.colon = 1 ∧ Json.utf8Length goStyle.comma = 1 := by decide
  obtain ⟨hretry, hparent, hjobs, hcolon, hcomma⟩ := hkeys
  have hids : ((jobs.map uuidJson).map (Json.size goStyle)).sum = jobs.length * 38 := by
    rw [List.map_map, funext size_uuidJson (f := Json.size goStyle ∘ uuidJson), List.map_const',
      List.sum_replicate_nat]
  have hpos : 0 < jobs.length := List.length_pos_iff.mpr h
  have hmember : Json.size goStyle (.obj [("parentSweepId", uuidJson parent),
      ("parentJobIds", .arr (jobs.map uuidJson))]) = 39 * jobs.length + 73 := by
    rw [Json.size_obj]
    simp only [List.map_cons, List.map_nil, List.sum_cons, List.sum_nil, List.length_cons,
      List.length_nil, size_uuidJson, Json.size_arr, hids, List.length_map, hparent, hjobs, hcolon,
      hcomma]
    omega
  have hinsert : Json.size goStyle { d with retry := some (parent, jobs) : SweepDocument }.toJson
      = Json.size goStyle (⟨d.sweep, none⟩ : SweepDocument).toJson
        + Json.utf8Length (Json.quote goStyle "retry") + Json.utf8Length goStyle.colon
        + Json.size goStyle (.obj [("parentSweepId", uuidJson parent),
          ("parentJobIds", .arr (jobs.map uuidJson))]) + Json.utf8Length goStyle.comma :=
    Json.size_obj_insert goStyle (by simp) "retry" _
  omega

/-! ## A document of angle brackets -/

namespace Sample

/-- An argument of `k` bytes, each of which Go escapes. -/
def brackets (k : ℕ) : String := String.ofList (List.replicate k '<')

theorem utf8ByteSize_brackets (k : ℕ) : (brackets k).utf8ByteSize = k := by
  unfold brackets
  induction k with
  | zero => rfl
  | succ k ih =>
    rw [List.replicate_succ, String.ofList_cons, String.utf8ByteSize_append, ih,
      String.utf8ByteSize_singleton]
    exact Nat.add_comm 1 k

theorem hasNul_brackets (k : ℕ) : hasNul (brackets k) = false := by
  rw [hasNul, brackets, String.toList_ofList, List.any_eq_false]
  intro c hc
  obtain rfl := List.eq_of_mem_replicate hc
  decide

/-- The text of `n` such arguments. -/
theorem size_brackets (st : Json.Style) (n k : ℕ) :
    Json.size st (.arr ((List.replicate n (brackets k)).map Json.str))
      = 2 + n * (2 + k * Json.utf8Length (st.escape '<'))
        + (n - 1) * Json.utf8Length st.comma := by
  have hbrackets : Json.size st (.str (brackets k))
      = 2 + (List.replicate k '<').length * Json.utf8Length (st.escape '<') :=
    Json.size_str st fun c hc => List.eq_of_mem_replicate hc ▸ rfl
  rw [Json.size_arr, List.map_replicate, List.map_replicate, List.sum_replicate,
    List.length_replicate, hbrackets, List.length_replicate]
  rfl

/-- A document with `n` arguments of the greatest length. -/
def bracketed (j : Job) (n : ℕ) : Job := j.withArgs (List.replicate n (brackets 8192))

theorem bracketed_isValid {n : ℕ} (h : j.isValid = true)
    (hn : j.spec.command.length + n ≤ 256) : (bracketed j n).isValid = true := by
  refine Job.isValid_withArgs h (by rwa [List.length_replicate]) fun a ha => ?_
  rw [List.eq_of_mem_replicate ha, utf8ByteSize_brackets, hasNul_brackets]
  decide

/-- The size of such a document under a style. -/
theorem size_bracketed (st : Json.Style) (hnone : j.spec.args = []) (n : ℕ) :
    Json.size st (bracketed j (n + 1)).toJson = Json.size st j.toJson
      + Json.utf8Length (Json.quote st "args") + Json.utf8Length st.colon
      + (2 + (n + 1) * (2 + 8192 * Json.utf8Length (st.escape '<'))
        + n * Json.utf8Length st.comma) + Json.utf8Length st.comma := by
  rw [bracketed, Job.size_withArgs st hnone (by simp), size_brackets]
  rfl

/-- **Stored, a bracket is a byte.** -/
theorem size_jsonb_bracketed (hnone : j.spec.args = []) (n : ℕ) :
    Json.size jsonbStyle (bracketed j (n + 1)).toJson
      = Json.size jsonbStyle j.toJson + 8196 * n + 8206 := by
  have hkey : Json.utf8Length (Json.quote jsonbStyle "args") = 6 := by decide
  have hescape : Json.utf8Length (jsonbStyle.escape '<') = 1 := by decide
  have hseparators : Json.utf8Length jsonbStyle.colon = 2 ∧
      Json.utf8Length jsonbStyle.comma = 2 := by decide
  rw [size_bracketed jsonbStyle hnone, hkey, hescape, hseparators.1, hseparators.2]
  omega

/-- **Sent, it is six.** -/
theorem size_go_bracketed (hnone : j.spec.args = []) (n : ℕ) :
    Json.size goStyle (bracketed j (n + 1)).toJson
      = Json.size goStyle j.toJson + 49155 * n + 49164 := by
  have hkey : Json.utf8Length (Json.quote goStyle "args") = 6 := by decide
  have hescape : Json.utf8Length (goStyle.escape '<') = 6 := by decide
  have hseparators : Json.utf8Length goStyle.colon = 1 ∧
      Json.utf8Length goStyle.comma = 1 := by decide
  rw [size_bracketed goStyle hnone, hkey, hescape, hseparators.1, hseparators.2]
  omega

theorem bracketed_fitsColumn (hnone : j.spec.args = []) (hj : j.canonical = j) {n : ℕ}
    (h : Json.size jsonbStyle j.toJson + 8196 * n + 8206 ≤ specColumnLimit) :
    (bracketed j (n + 1)).fitsColumn = true := by
  have hcanonical : (bracketed j (n + 1)).canonical = bracketed j.canonical (n + 1) := rfl
  rw [Job.fitsColumn, decide_eq_true_iff, hcanonical, hj, size_jsonb_bracketed hnone]
  exact h

end Sample

end Dispatch
