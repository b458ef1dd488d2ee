import Dispatch.Scheduling.Queue

/-!
# Selection and the locked recheck

Whether a job may go to a worker is written down twice. The selection is one
query: it reads the job's columns and the labels inside its stored document, and
joins, loosely, what the project and the sweep have in use. The recheck is code:
it decodes the document, asks again for the use of the project and of the sweep,
and goes through the labels one by one.

Both are stated here as they are written, `reasonColumn` and `recheckDecoded`,
and both come to the rule of the model. So a job that the query finds free passes
the recheck, a job that it finds blocked does not, and a worker that is ready
gets work if there is any for it.
-/

namespace Dispatch

open Txn

variable {j : JobRow} {w : AcquisitionWorker} {p : ProjectRow} {job : Uuid} {labels document : Json}
  {m : Table String String}

variable {sha : Uuid → ℕ} {s : Store} {now : Time}

/-! ## What the query joins -/

/-- The join behind `usage`: the project and the reservation of every active
attempt. -/
def usageJoin (s : Store) : List (Uuid × Resources) :=
  (s.attempts.select (fun _ a => a.state.isActive)).filterMap (fun (id, a) => do
    let j ← s.jobs.lookup a.job
    let r ← s.reservations.lookup id
    pure (j.project, r.resources))

/-- `usage`. A project without active attempts has no row. -/
def usage (s : Store) : List (Uuid × Resources × ℕ) :=
  Table.groupBy (usageJoin s) (fun rs => (sumResources rs, rs.length))

/-- The join behind `sweep_usage`. -/
def sweepJoin (s : Store) : List (Uuid × Uuid) :=
  (s.attempts.select (fun _ a => a.state.isActive)).filterMap (fun (id, a) => do
    let j ← s.jobs.lookup a.job
    let x ← j.sweep
    pure (x.1, id))

/-- `sweep_usage`. -/
def sweepUsages (s : Store) : List (Uuid × ℕ) :=
  Table.groupBy (sweepJoin s) List.length

/-- `@>` with an object of texts on its right, as labels are. What is no object
contains nothing and is contained in nothing. -/
def jsonbContains : Json → Json → Bool
  | .obj ls, .obj rs => rs.all (fun m => match ls.lookup m.1, m.2 with
    | some (.str a), .str b => decide (a = b)
    | _, _ => false)
  | _, _ => false

/-- `document->'spec'->'placement'->'labels'`. -/
def labelsPath (document : Json) : Option Json :=
  ((document.member "spec").bind (Json.member "placement")).bind (Json.member "labels")

/-- **The `reason` column**, over the stored documents. -/
def reasonColumn (s : Store) (labels document : Json) (w : AcquisitionWorker) (now : Time)
    (j : JobRow) (p : ProjectRow) : Option NoWork :=
  let u := (usage s).lookup j.project
  let sweep := j.sweep.bind (fun x => s.sweeps.lookup x.1)
  let su := j.sweep.bind (fun x => (sweepUsages s).lookup x.1)
  if !p.enabled then some .projectDisabled
  else if now < j.nextEligibleAt then some .retryBackoff
  else if !jsonbContains labels ((labelsPath document).getD (.obj [])) then some .placementMismatch
  else if w.free.cpuMillis < j.resources.cpuMillis ∨ w.free.memoryMiB < j.resources.memoryMiB ∨
      w.free.scratchMiB < j.resources.scratchMiB ∨ w.slots < 1 then some .noResourceFit
  else if p.cpuQuota - (u.map (fun x => x.1.cpuMillis)).getD 0 < j.resources.cpuMillis ∨
      p.memoryQuotaMiB - (u.map (fun x => x.1.memoryMiB)).getD 0 < j.resources.memoryMiB ∨
      p.concurrencyQuota ≤ (((u.map Prod.snd).getD 0 : ℕ) : ℤ) then some .projectQuota
  else if sweep.any (fun row => decide (row.maxConcurrent ≤ ((su.getD 0 : ℕ) : ℤ))) then
    some .sweepConcurrency
  else none

/-! ## What the recheck asks -/

/-- The active attempts of a sweep, counted over an outer join of its jobs. -/
def sweepActive (s : Store) (sweep : Uuid) : ℕ :=
  ((s.jobs.select (fun _ j => decide (j.sweep.map Prod.fst = some sweep))).map (fun x =>
    (s.attempts.select (fun _ a => a.state.isActive && decide (a.job = x.1))).length)).sum

/-- **The reasons of the recheck**, over the decoded labels and document. -/
def recheckDecoded (s : Store) (w : AcquisitionWorker) (p : ProjectRow) (j : JobRow)
    (labels : Table String String) (job : Job) (reason : Option NoWork) : Option NoWork :=
  let need := job.spec.resources
  let used := projectUsage s j.project
  let reason := if p.enabled = false ∨ p.cpuQuota - used.1.cpuMillis < need.cpuMillis ∨
      p.memoryQuotaMiB - used.1.memoryMiB < need.memoryMiB ∨ p.concurrencyQuota ≤ (used.2 : ℤ) then
    some .projectQuota else reason
  let reason := if (j.sweep.bind (fun x => (s.sweeps.lookup x.1).map (fun row =>
      (row.maxConcurrent, sweepActive s x.1)))).any (fun x => decide (x.1 ≤ (x.2 : ℤ))) then
    some .sweepConcurrency else reason
  let reason := if w.free.cpuMillis < need.cpuMillis ∨ w.free.memoryMiB < need.memoryMiB ∨
      w.free.scratchMiB < need.scratchMiB ∨ w.slots < 1 then some .noResourceFit else reason
  if job.spec.placementLabels.entries.any (fun e => decide (labels.lookup e.1 ≠ some e.2)) then
    some .placementMismatch else reason

/-! ## The use of projects and sweeps -/

theorem usageJoin_project (s : Store) (project : Uuid) :
    ((usageJoin s).filter (fun x => decide (x.1 = project))).map Prod.snd =
      ((activeAttempts s (fun j => decide (j.project = project))).filterMap
        (fun a => s.reservations.lookup a)).map ReservationRow.resources := by
  simp only [usageJoin, activeAttempts, Table.select, List.filterMap_map, List.filterMap_filter,
    List.filter_filterMap, List.map_filterMap, List.map_map]
  refine List.filterMap_congr fun e _ => ?_
  cases hactive : e.2.state.isActive with
  | false => simp
  | true =>
    cases hj : s.jobs.lookup e.2.job with
    | none => simp [hj]
    | some j =>
      by_cases hproject : j.project = project <;> cases hr : s.reservations.lookup e.1 <;>
        simp [hj, hproject, hr]

/-- **A project without a row in `usage` uses nothing.** -/
theorem lookup_usage (s : Store) (project : Uuid) :
    ((usage s).lookup project).getD (⟨0, 0, 0⟩, 0) = projectUsage s project := by
  have hgroup := Table.lookup_groupBy_getD (usageJoin s) (fun rs => (sumResources rs, rs.length))
    project
  rw [usageJoin_project] at hgroup
  refine hgroup.trans ?_
  rw [List.length_map]
  rfl

theorem sweepJoin_sweep (s : Store) (sweep : Uuid) :
    ((sweepJoin s).filter (fun x => decide (x.1 = sweep))).map Prod.snd =
      activeAttempts s (fun j => decide (j.sweep.map Prod.fst = some sweep)) := by
  simp only [sweepJoin, activeAttempts, Table.select, List.filterMap_map, List.filterMap_filter,
    List.filter_filterMap, List.map_filterMap, List.map_map]
  rw [← List.filterMap_eq_map, List.filterMap_filter]
  refine List.filterMap_congr fun e _ => ?_
  cases hactive : e.2.state.isActive with
  | false => simp
  | true =>
    cases hj : s.jobs.lookup e.2.job with
    | none => simp [hj]
    | some j =>
      cases hsweep : j.sweep with
      | none => simp [hj, hsweep]
      | some x => by_cases heq : x.1 = sweep <;> simp [hj, hsweep, heq]

theorem lookup_sweepUsages (s : Store) (sweep : Uuid) :
    ((sweepUsages s).lookup sweep).getD 0 = sweepUsage s sweep := by
  have hgroup := Table.lookup_groupBy_getD (sweepJoin s) List.length sweep
  rw [sweepJoin_sweep] at hgroup
  exact hgroup

/-- **The outer join counts the same attempts.** -/
theorem sweepActive_eq (s : Store) (sweep : Uuid) : sweepActive s sweep = sweepUsage s sweep := by
  have hkeys := Table.nodup_select_keys s.jobs
    (fun _ j => decide (j.sweep.map Prod.fst = some sweep))
  have hcount := Table.sum_count_keys hkeys (fun e : Sigma (fun _ : Uuid => AttemptRow) => e.2.job)
    (fun e => e.2.state.isActive) s.attempts.entries
  rw [List.map_map] at hcount
  simp only [sweepActive, sweepUsage, activeAttempts, Table.select, List.length_map]
  refine hcount.trans (congrArg List.length (List.filter_congr fun e _ => ?_))
  have hmem : e.2.job ∈ (s.jobs.select (fun _ j =>
      decide (j.sweep.map Prod.fst = some sweep))).map Prod.fst ↔
      ∃ j, s.jobs.lookup e.2.job = some j ∧ j.sweep.map Prod.fst = some sweep := by
    rw [List.mem_map]
    constructor
    · rintro ⟨⟨job, j⟩, hj, rfl⟩
      obtain ⟨hj, hsweep⟩ := (Table.mem_select _ _ _ _).mp hj
      exact ⟨j, hj, of_decide_eq_true hsweep⟩
    · rintro ⟨j, hj, hsweep⟩
      exact ⟨(_, j), (Table.mem_select _ _ _ _).mpr ⟨hj, decide_eq_true hsweep⟩, rfl⟩
  rw [Bool.eq_iff_iff, Bool.and_eq_true, Bool.and_eq_true, decide_eq_true_iff, hmem]
  cases hj : s.jobs.lookup e.2.job with
  | none => simp
  | some j => simp

/-! ## Labels -/

section Labels

open Json

/-- A step along a path is a read of a structure. -/
theorem bind_member {o : Option Json} {ns : List (String × Json)}
    (h : ∀ (α : Type) (read : List (String × Json) → Option α), readStruct read o = read ns)
    (key : String) : o.bind (Json.member key) = ns.lookup key := by
  rw [← h Json (fun ms => ms.lookup key)]
  match o with
  | none => rfl
  | some .null => rfl
  | some (.bool _) => rfl
  | some (.num _) => rfl
  | some (.str _) => rfl
  | some (.arr _) => rfl
  | some (.obj _) => rfl

/-- **The path ends at the labels**, or nowhere if there are none. -/
theorem labelsPath_reordered {job : Job} (h : Reordered job.toJson document) :
    Option.Rel Reordered (if job.spec.placementLabels.entries = [] then none
      else some (mapJson job.spec.placementLabels)) (labelsPath document) := by
  obtain ⟨ns, hns, hread⟩ := readStruct_obj (.some h)
  have hspec := hns.lookup (by simp) "spec"
  obtain ⟨ms, ns', hms, hread', hkey⟩ := JobSpec.lookup_reordered hspec
  obtain rfl := Json.obj.inj hms
  have hplacement := hkey "placement"
  simp only [List.lookup_append] at hplacement
  obtain ⟨ns'', hns'', hread''⟩ := readStruct_obj (by simpa [List.lookup_cons] using hplacement)
  have hlabels := hns''.lookup (by
    cases hempty : job.spec.placementLabels.entries.isEmpty <;> simp [optionalMember]) "labels"
  have hstep : document.member "spec" = ns.lookup "spec" := bind_member hread "spec"
  rw [labelsPath, hstep, bind_member hread', bind_member hread'']
  simpa using hlabels

/-- The members of a map are its entries. -/
theorem lookup_members {ms : List (String × Json)}
    (h : ms.Perm (m.entries.map fun e => (e.1, Json.str e.2))) (key text : String) :
    ms.lookup key = some (.str text) ↔ m.lookup key = some text := by
  have hkeys : (ms.map Prod.fst).Nodup := by
    refine (h.map Prod.fst).nodup_iff.mpr ?_
    rw [List.map_map]
    exact m.nodupKeys
  rw [lookup_eq_some_iff hkeys, h.mem_iff, List.mem_map]
  constructor
  · rintro ⟨e, he, heq⟩
    obtain ⟨rfl, htext⟩ := Prod.mk.inj heq
    obtain rfl := Json.str.inj htext
    exact AList.mem_lookup_iff.mpr he
  · intro hm
    exact ⟨⟨key, text⟩, AList.mem_lookup_iff.mp hm, rfl⟩

/-- **Containment is what the model asks of two maps.** -/
theorem jsonbContains_map {wanted : Table String String} {v : Json}
    (hlabels : Reordered (mapJson m) labels) (hv : Reordered (mapJson wanted) v) :
    jsonbContains labels v = placementMatches m wanted := by
  obtain ⟨ls, rfl, hls⟩ := members_reordered hlabels
  obtain ⟨rs, rfl, hrs⟩ := members_reordered hv
  rw [Bool.eq_iff_iff]
  simp only [jsonbContains, placementMatches, List.all_eq_true, hrs.mem_iff, List.forall_mem_map,
    decide_eq_true_eq]
  refine forall₂_congr fun e _ => ?_
  rw [← lookup_members hls]
  split
  · rename_i a b hlookup heq
    obtain rfl := Json.str.inj heq
    rw [hlookup, Option.some.injEq, Json.str.injEq]
    exact decide_eq_true_iff
  · rename_i hnone
    exact ⟨fun h => (nomatch h), fun h => (hnone _ _ h rfl).elim⟩

/-- **The query and the model agree on labels**, those of a document that names
none included. -/
theorem jsonbContains_labelsPath {job : Job} (hlabels : Reordered (mapJson m) labels)
    (hdocument : Reordered job.toJson document) :
    jsonbContains labels ((labelsPath document).getD (.obj [])) =
      placementMatches m job.spec.placementLabels := by
  have hpath := labelsPath_reordered hdocument
  generalize labelsPath document = o at hpath
  by_cases hempty : job.spec.placementLabels.entries = []
  · rw [if_pos hempty] at hpath
    obtain ⟨ls, rfl, -⟩ := members_reordered hlabels
    cases hpath
    rw [Option.getD_none, jsonbContains, placementMatches, hempty]
    rfl
  · rw [if_neg hempty] at hpath
    cases hpath with
    | some h => exact jsonbContains_map hlabels h

end Labels

/-! ## One rule -/

theorem not_fits_iff {need : Resources} :
    (!need.fits w.free || decide (w.slots < 1)) = true ↔
      w.free.cpuMillis < need.cpuMillis ∨ w.free.memoryMiB < need.memoryMiB ∨
        w.free.scratchMiB < need.scratchMiB ∨ w.slots < 1 := by
  simp only [Resources.fits, Bool.or_eq_true, Bool.not_eq_true', Bool.and_eq_false_iff,
    decide_eq_false_iff_not, decide_eq_true_eq, not_le, or_assoc]

theorem not_quotaAdmits_iff {project : Uuid} {need : Resources} :
    (!quotaAdmits s project p need) = true ↔
      p.cpuQuota - (projectUsage s project).1.cpuMillis < need.cpuMillis ∨
        p.memoryQuotaMiB - (projectUsage s project).1.memoryMiB < need.memoryMiB ∨
        p.concurrencyQuota ≤ ((projectUsage s project).2 : ℤ) := by
  simp only [quotaAdmits, Bool.not_eq_true', Bool.and_eq_false_iff, decide_eq_false_iff_not,
    not_le, not_lt, or_assoc]

theorem not_sweepAdmits_iff :
    (!sweepAdmits s j) = true ↔ ∃ x ∈ j.sweep, ∃ row ∈ s.sweeps.lookup x.1,
      row.maxConcurrent ≤ (sweepUsage s x.1 : ℤ) := by
  unfold sweepAdmits
  cases j.sweep with
  | none => simp
  | some x =>
    cases hrow : s.sweeps.lookup x.1 with
    | none => simp [hrow]
    | some row => simp [hrow]

/-- **The query computes the model's reason.** -/
theorem reasonColumn_eq (hlabels : Json.Reordered (mapJson w.row.labels) labels)
    (hdocument : Json.Reordered j.spec.toJson document) (p : ProjectRow) :
    reasonColumn s labels document w now j p = blockingReason s w now j p := by
  have hquota : (p.cpuQuota - (((usage s).lookup j.project).map (fun x => x.1.cpuMillis)).getD 0
        < j.resources.cpuMillis ∨
      p.memoryQuotaMiB - (((usage s).lookup j.project).map (fun x => x.1.memoryMiB)).getD 0
        < j.resources.memoryMiB ∨
      p.concurrencyQuota ≤ (((((usage s).lookup j.project).map Prod.snd).getD 0 : ℕ) : ℤ)) ↔
      (!quotaAdmits s j.project p j.resources) = true := by
    rw [not_quotaAdmits_iff, ← lookup_usage]
    cases (usage s).lookup j.project <;> rfl
  have hsweep : (j.sweep.bind (fun x => s.sweeps.lookup x.1)).any (fun row => decide
        (row.maxConcurrent
        ≤ (((j.sweep.bind (fun x => (sweepUsages s).lookup x.1)).getD 0 : ℕ) : ℤ)))
      = true ↔ (!sweepAdmits s j) = true := by
    rw [not_sweepAdmits_iff]
    cases j.sweep with
    | none => simp
    | some x => simp [lookup_sweepUsages, Option.any_eq_true]
  unfold reasonColumn blockingReason
  simp only [jsonbContains_labelsPath hlabels hdocument, not_fits_iff, hquota, hsweep]

/-- Maps with the same entries match the same way. -/
theorem placementMatches_perm {labels labels' wanted wanted' : Table String String}
    (hlabels : labels'.entries.Perm labels.entries)
    (hwanted : wanted'.entries.Perm wanted.entries) :
    placementMatches labels' wanted' = placementMatches labels wanted := by
  have hlookup : ∀ key, labels'.lookup key = labels.lookup key := fun key =>
    AList.perm_lookup hlabels
  unfold placementMatches
  rw [hwanted.all_eq]
  simp only [hlookup]

/-- **The recheck computes the model's reason.** -/
theorem recheckDecoded_eq {labels : Table String String} {job : Job}
    (hlabels : labels.entries.Perm w.row.labels.entries) (hjob : j.spec.Relisted job)
    (p : ProjectRow) (reason : Option NoWork) :
    recheckDecoded s w p j labels job reason = recheckReason s w p j reason := by
  obtain ⟨env, wanted, -, hwanted, hspec⟩ := hjob.spec
  have hplacement : wanted.entries.any (fun e => decide (labels.lookup e.1 ≠ some e.2)) =
      !placementMatches w.row.labels j.spec.spec.placementLabels := by
    rw [← placementMatches_perm hlabels hwanted, placementMatches, List.not_all_eq_any_not]
    simp only [ne_eq, decide_not]
  have hquota : (p.enabled = false ∨
      p.cpuQuota - (projectUsage s j.project).1.cpuMillis < j.spec.spec.resources.cpuMillis ∨
      p.memoryQuotaMiB - (projectUsage s j.project).1.memoryMiB < j.spec.spec.resources.memoryMiB ∨
      p.concurrencyQuota ≤ ((projectUsage s j.project).2 : ℤ)) ↔
      (!p.enabled || !quotaAdmits s j.project p j.spec.spec.resources) = true := by
    rw [Bool.or_eq_true, not_quotaAdmits_iff, Bool.not_eq_true']
  have hsweep : (j.sweep.bind (fun x => (s.sweeps.lookup x.1).map (fun row =>
      (row.maxConcurrent, sweepActive s x.1)))).any (fun x => decide (x.1 ≤ (x.2 : ℤ))) = true ↔
      (!sweepAdmits s j) = true := by
    rw [not_sweepAdmits_iff]
    cases j.sweep with
    | none => simp
    | some x => simp [sweepActive_eq, Option.any_eq_true]
  unfold recheckDecoded recheckReason
  rw [hspec]
  simp only [hplacement, hquota, hsweep, not_fits_iff]

/-- What the model's two readings of the rule ask in common. -/
structure Admitted (s : Store) (w : AcquisitionWorker) (p : ProjectRow) (j : JobRow)
    (need : Resources) : Prop where
  enabled : p.enabled = true
  placed : placementMatches w.row.labels j.spec.spec.placementLabels = true
  fits : (!need.fits w.free || decide (w.slots < 1)) = false
  quota : quotaAdmits s j.project p need = true
  concurrency : sweepAdmits s j = true

theorem blockingReason_eq_none_iff :
    blockingReason s w now j p = none ↔ Admitted s w p j j.resources ∧ j.nextEligibleAt ≤ now := by
  constructor
  · intro h
    unfold blockingReason at h
    split_ifs at h with henabled heligible hplaced hfits hquota hsweep
    exact ⟨⟨by simpa using henabled, by simpa using hplaced, by simpa using hfits,
      by simpa using hquota, by simpa using hsweep⟩, not_lt.mp heligible⟩
  · rintro ⟨h, heligible⟩
    unfold blockingReason
    simp [h.enabled, h.placed, h.fits, h.quota, h.concurrency, heligible]

theorem recheckReason_eq_none_iff {reason : Option NoWork} : recheckReason s w p j reason = none ↔
      Admitted s w p j j.spec.spec.resources ∧ reason = none := by
  constructor
  · intro h
    simp only [recheckReason] at h
    split_ifs at h with hplaced hfits hsweep hquota
    simp only [Bool.or_eq_true, Bool.not_eq_true', not_or, Bool.not_eq_false] at hquota
    exact ⟨⟨hquota.1, by simpa using hplaced, by simpa using hfits,
      hquota.2, by simpa using hsweep⟩, h⟩
  · rintro ⟨h, rfl⟩
    unfold recheckReason
    simp [h.enabled, h.placed, h.fits, h.quota, h.concurrency]

/-- **For a visible job both come to the same.** -/
theorem blocked_iff_recheck (hcolumns : j.resources = j.spec.spec.resources)
    (heligible : j.nextEligibleAt ≤ now) :
    blockingReason s w now j p = none ↔ recheckReason s w p j none = none := by
  rw [blockingReason_eq_none_iff, recheckReason_eq_none_iff, hcolumns]
  exact ⟨fun h => ⟨h.1, rfl⟩, fun h => ⟨h.1, heligible⟩⟩

/-! ## Work for a worker -/

/-- **A job that waits for a worker**: it is in the queue of a project the worker
serves, its time has come, and the recheck has nothing against it. -/
structure Store.Awaits (s : Store) (worker : Uuid) (w : AcquisitionWorker) (now : Time) (job : Uuid)
    (j : JobRow) (p : ProjectRow) : Prop where
  found : s.jobs.lookup job = some j
  queued : j.state.isQueued = true
  uncancelled : j.cancelRequested = false
  eligible : j.nextEligibleAt ≤ now
  served : (s.workerProjects.lookup (worker, j.project)).isSome = true
  project : s.projects.lookup j.project = some p
  passes : recheckDecoded s w p j w.row.labels j.spec none = none

/-- The selection sees a job that waits. -/
theorem Store.Awaits.candidate {worker : Uuid} (h : s.Awaits worker w now job j p)
    (hcolumns : j.resources = j.spec.spec.resources) :
    ∃ c ∈ candidates s worker w now, c.visible = true ∧ c.blocked = none := by
  have hpasses := h.passes
  rw [recheckDecoded_eq (.refl _) (.refl _)] at hpasses
  have henabled := (recheckReason_eq_none_iff.mp hpasses).1.enabled
  refine ⟨⟨job, j, true, none⟩, List.mem_filterMap.mpr ⟨(job, j), ?_, ?_⟩, rfl, rfl⟩
  · rw [Table.mem_select]
    exact ⟨h.found, by simp [h.queued, h.uncancelled, h.served]⟩
  · simp only [h.project, henabled, h.eligible,
      (blocked_iff_recheck hcolumns h.eligible).mpr hpasses, decide_true, Bool.and_self]

/-- A job that passes is assigned. -/
theorem tryAssign_assigns {worker attempt : Uuid} {request : AcquisitionRequest}
    {policy : AcquisitionPolicy} (h : s.Startable attempt job j)
    (hhost : readAcquisitionWorker s worker request.sessionID = .ok w)
    (hp : s.projects.lookup j.project = some p) (hqueued : j.state.isQueued = true)
    (huncancelled : j.cancelRequested = false) (heligible : j.nextEligibleAt ≤ now)
    (hready : w.readiness now policy = none) (hpasses : recheckReason s w p j none = none) :
    ∃ t a, tryAssign s now worker request policy attempt job none = .ok (t, some a, none) := by
  obtain ⟨inputs, hinputs⟩ := h.inputs
  obtain ⟨t, ht⟩ : ∃ t, assignJob s now worker request.sessionID attempt job j = .ok t :=
    assignJob_total h
  simp only [tryAssign, h.found, hp, hhost, orThrow_some, ok_bind, require_of h.valid,
    require_of h.sweep, hpasses, hready, hqueued, huncancelled, not_lt.mpr heligible,
    require_of h.hashed, require_of (And.intro h.budget h.pinned), hinputs, ht]
  exact ⟨_, _, rfl⟩

theorem Reachable.columns {w : World} (h : Reachable sha w)
    (hj : w.store.jobs.lookup job = some j) : j.resources = j.spec.spec.resources :=
  (h.ledger_sound.furnished.documents job _ (Store.toLedger_job hj)).columns.1

/-- **A worker that is ready gets work**, if a job waits for it. -/
theorem Reachable.acquire_assigns {w : World} (h : Reachable sha w)
    {observed queueNow now : Time} {identity : WorkerIdentity} {request : AcquisitionRequest}
    {policy : AcquisitionPolicy} {attempt : Uuid} {host : AcquisitionWorker}
    (hworker : identity.workerID ≠ 0) (hcredential : identity.credentialID ≠ 0)
    (hsession : request.sessionID ≠ 0) (hrequest : request.requestID ≠ 0) (htime : queueNow ≠ 0)
    (hauthorized : authorizeWorkerTx w.store identity = .ok ())
    (hhost : readAcquisitionWorker w.store identity.workerID request.sessionID = .ok host)
    (hkey : w.store.workerRequests.lookup
      (identity.workerID, request.sessionID, request.requestID) = none)
    (hattempt : w.store.attempts.lookup attempt = none)
    (hready : host.readiness observed policy = none) (hready' : host.readiness now policy = none)
    (hclock : queueNow ≤ now) (hawaits : w.store.Awaits identity.workerID host queueNow job j p) :
    ∃ s' a, acquireWork w.store observed queueNow now identity request policy attempt
      = .ok (s', .assignment a) := by
  have hidentity : canonicalUUID identity.workerID = true ∧
      canonicalUUID identity.credentialID = true :=
    ⟨decide_eq_true hworker, decide_eq_true hcredential⟩
  have hids : canonicalUUID request.sessionID = true ∧ canonicalUUID request.requestID = true :=
    ⟨decide_eq_true hsession, decide_eq_true hrequest⟩
  have hnew : ∀ k b, w.store.blockers.lookup k = some b →
      b.key ≠ (identity.workerID, request.sessionID, request.requestID) :=
    fun k b hb heq => h.observed hb (heq ▸ hkey)
  obtain ⟨sampled, hsampled, blockers, sequence, rfl⟩ := recordQueueBlockers_total (w := host)
    h.ledger_sound.named hworker hsession hrequest htime hnew
  have hseen : readAcquisitionWorker (w.store.observing blockers sequence) identity.workerID
      request.sessionID = .ok host := hhost
  obtain ⟨c, hc, hvisible, hfree⟩ := hawaits.candidate (h.columns hawaits.found)
  obtain ⟨hjob, hreason⟩ := selectAcquisitionCandidate_unblocked hc hvisible hfree
  obtain ⟨chosen, hchosen⟩ := Option.ne_none_iff_exists'.mp hjob
  -- The chosen job need not be the one that waits; it too passes the recheck.
  obtain ⟨c', hc', rfl, -, hblocked⟩ := selectAcquisitionCandidate_job hchosen
  obtain ⟨hj', hqueued, huncancelled, p', hp', hblocked', -⟩ := mem_candidates hc'
  have hfree' : blockingReason w.store host queueNow c'.job p' = none :=
    hblocked'.symm.trans (hblocked.symm.trans hreason)
  have heligible := (blockingReason_eq_none_iff.mp hfree').2
  have hpasses := (blocked_iff_recheck (h.columns hj') heligible).mp hfree'
  obtain ⟨t, a, hassigned⟩ : ∃ t a, tryAssign (w.store.observing blockers sequence) now
      identity.workerID request policy attempt c'.id none = .ok (t, some a, none) :=
    tryAssign_assigns ((h.startable hj' hqueued hp' hattempt).observing blockers sequence) hseen hp'
      hqueued huncancelled (heligible.trans hclock) hready' hpasses
  simp only [acquireWork, require_of hidentity, require_of hids, hauthorized, hkey, hhost, hready,
    selectAcquisitionCandidate_blockers, hsampled, hchosen, hreason, hassigned, ok_bind]
  exact ⟨_, _, rfl⟩

/-- **The selection and the locked recheck agree.** A job that the selection
returns is in the queue and its time has come; the reason it is returned with is
what the query computes over any listing of the stored labels and document; and
there is none exactly if the recheck, over what those decode to, finds none. So
an acquisition with a new key by the current session of an authorised worker that
is ready is answered with work, if a job waits for the worker. (An observation
may not carry the zero time, so the clock is past it.) -/
theorem selection_recheck_agree {w : World} (h : Reachable sha w) :
    (∀ worker host now job,
      (selectAcquisitionCandidate w.store worker host now).job = some job →
      ∃ j p, w.store.jobs.lookup job = some j ∧ w.store.projects.lookup j.project = some p ∧
        j.state.isQueued = true ∧ j.cancelRequested = false ∧ j.nextEligibleAt ≤ now ∧
        ∀ labels document, Json.Reordered (mapJson host.row.labels) labels →
          Json.Reordered j.spec.toJson document →
          (selectAcquisitionCandidate w.store worker host now).reason
            = reasonColumn w.store labels document host now j p ∧
          ∃ decoded spec, readMap labels = some decoded ∧ Job.ofJson document = some spec ∧
            ((selectAcquisitionCandidate w.store worker host now).reason = none ↔
              recheckDecoded w.store host p j decoded spec none = none)) ∧
    (∀ observed queueNow now identity request policy attempt host job j p,
      identity.workerID ≠ 0 → identity.credentialID ≠ 0 → request.sessionID ≠ 0 →
      request.requestID ≠ 0 → queueNow ≠ 0 → authorizeWorkerTx w.store identity = .ok () →
      readAcquisitionWorker w.store identity.workerID request.sessionID = .ok host →
      w.store.workerRequests.lookup (identity.workerID, request.sessionID, request.requestID)
      = none → w.store.attempts.lookup attempt = none →
      host.readiness observed policy = none → host.readiness now policy = none → queueNow ≤ now →
      w.store.Awaits identity.workerID host queueNow job j p →
      ∃ s' a, acquireWork w.store observed queueNow now identity request policy attempt
        = .ok (s', .assignment a)) := by
  refine ⟨fun worker host now job hjob => ?_, ?_⟩
  · obtain ⟨c, hc, rfl, hvisible, hreason⟩ := selectAcquisitionCandidate_job hjob
    obtain ⟨hj, hqueued, huncancelled, p, hp, hblocked, hshown⟩ := mem_candidates hc
    rw [hvisible, eq_comm, Bool.and_eq_true, decide_eq_true_iff] at hshown
    refine ⟨c.job, p, hj, hp, hqueued, huncancelled, hshown.2,
      fun labels document hlabels hdocument => ?_⟩
    have hvalid : c.job.spec.isValid = true :=
      (h.ledger_sound.furnished.documents c.id _ (Store.toLedger_job hj)).valid
    obtain ⟨decoded, hdecoded, hsame⟩ := readMap_reordered hlabels
    obtain ⟨spec, hspec, hrelisted⟩ :=
      Job.ofJson_reordered (Job.machine_of_isValid hvalid) hdocument
    rw [hreason, hblocked, reasonColumn_eq hlabels hdocument]
    refine ⟨rfl, decoded, spec, hdecoded, hspec, ?_⟩
    rw [recheckDecoded_eq hsame hrelisted]
    exact blocked_iff_recheck (h.columns hj) hshown.2
  · exact fun observed queueNow now identity request policy attempt host job j p hworker hcredential
      hsession hrequest htime hauthorized hhost hkey hattempt hready hready' hclock hawaits =>
      h.acquire_assigns hworker hcredential hsession hrequest htime hauthorized hhost hkey hattempt
        hready hready' hclock hawaits

/-- A job of the sample is selected for the sample's worker without a reason, and
the worker's request is answered with it. -/
theorem sample_selection :
    ∃ w s' a, Reachable Sample.sha w ∧
      acquireWork w.store second second second Sample.identity ⟨1, 1⟩ ⟨true⟩ 1
        = .ok (s', .assignment a) := by
  obtain ⟨w, hw, hp⟩ := Sample.reaches Sample.world_reachable (Sample.seated 1 second ++
      [(second, .submitJob 1 "k" (String.ofList (List.replicate 64 '0')) Sample.job [])])
    (fun w => (w.store.jobs.lookup 1).any (fun j : JobRow =>
      (w.store.projects.lookup j.project).any (fun p : ProjectRow =>
        (readAcquisitionWorker w.store 1 1).toOption.any (fun host : AcquisitionWorker =>
          j.state.isQueued && !j.cancelRequested && decide (j.nextEligibleAt ≤ second) &&
          (w.store.workerProjects.lookup (1, j.project)).isSome &&
          (recheckDecoded w.store host p j host.row.labels j.spec none).isNone &&
          (host.readiness second ⟨true⟩).isNone))) &&
      (authorizeWorkerTx w.store Sample.identity).toOption.isSome &&
      (w.store.workerRequests.lookup (1, 1, 1)).isNone &&
      (w.store.attempts.lookup 1).isNone) (by decide +kernel)
  simp only [Bool.and_eq_true, Option.any_eq_true, decide_eq_true_eq, Bool.not_eq_true',
    Option.isNone_iff_eq_none] at hp
  obtain ⟨⟨⟨⟨j, hj, p, hp, host, hhost, ⟨⟨⟨⟨hqueued, huncancelled⟩, heligible⟩, hserved⟩, hpasses⟩,
    hready⟩, hauthorized⟩, hkey⟩, hattempt⟩ := hp
  obtain ⟨u, hu⟩ := Option.isSome_iff_exists.mp hauthorized
  obtain ⟨-, hacquires⟩ := selection_recheck_agree hw
  obtain ⟨s', a, hacquired⟩ := hacquires second second second Sample.identity ⟨1, 1⟩ ⟨true⟩ 1 host 1
    j p (by decide) (by decide) (by decide) (by decide) (by decide) (toOption_eq_some.mp hu)
    (toOption_eq_some.mp hhost) hkey hattempt hready hready le_rfl
    ⟨hj, hqueued, huncancelled, heligible, hserved, hp, hpasses⟩
  exact ⟨w, s', a, hw, hacquired⟩

end Dispatch
