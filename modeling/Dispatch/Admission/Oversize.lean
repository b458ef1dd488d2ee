import Dispatch.Admission.Retry
import Dispatch.Spec.Sizes

/-!
# When a finished sweep cannot be retried

A retry stores the document of its source once more, with the jobs it takes
over. The transaction marshals it with Go's encoder and refuses a text above
two mebibytes as an invalid request. The source was admitted under the same
bound, but on its `jsonb` text, which has none of Go's escapes. So there are
sweeps that were admitted and cannot be retried, whatever the request: those
whose stored document, once it is escaped, leaves no room for the selection,
which takes 39 bytes for every job and 82 more (`SweepDocument.size_retry`).

No other check of the transaction makes a request invalid that finds its sweep
finished and a key of its own (`retrySweep_invalid_iff`).
-/

namespace Dispatch

open Txn

variable {sha : Uuid → ℕ} {s s' : Store} {now : Time} {fresh : ℕ → Uuid} {sweep : Uuid}

variable {sw : Sweep} {child : Job}

/-- **A sweep is to be retried**: it is finished, some child did not succeed, its
project is enabled and has room for each child that did not, and the key is
new. -/
structure Store.Retryable (s : Store) (project sweep : Uuid) (key : String) (row : SweepRow)
    (p : ProjectRow) : Prop where
  named : canonicalUUID project = true ∧ canonicalUUID sweep = true ∧ validKey key = true
  found : s.sweeps.lookup sweep = some row
  owned : row.project = project
  finished : (∀ x ∈ sweepChildren s sweep, x.2.state.isTerminal = true) ∧ unsuccessful s sweep ≠ []
  listed : s.projects.lookup project = some p
  enabled : p.enabled = true
  quota : ∀ x ∈ unsuccessful s sweep, x.2.resources.cpuMillis ≤ p.cpuQuota ∧
    x.2.resources.memoryMiB ≤ p.memoryQuotaMiB
  newKey : s.idempotency.lookup (project, .retry sweep, key) = none

/-- The document of a retry: that of its source, and what it takes over. -/
def retryDocument (s : Store) (sweep : Uuid) (row : SweepRow) : SweepDocument :=
  { row.spec with retry := some (sweep, (unsuccessful s sweep).map Prod.fst) }

/-- Inserting a job fails on the database only. -/
theorem insertRetry_throws {source id : Uuid} (t : Store) (x : (Uuid × JobRow) × ℕ) :
    Throws (fun e => e ≠ StoreError.invalid) (insertRetry now source id fresh t x) := by
  have hdatabase : StoreError.database ≠ .invalid := by decide
  refine .bind (.bind (.require hdatabase) fun _ => .bind (.orThrow hdatabase) fun _ =>
    .bind (.orThrow hdatabase) fun _ => .pure _) fun admitted => .foldlM (fun u y => ?_) _ _
  exact .bind (.orThrow hdatabase) fun _ => .pure _

/-- A sweep has as many children as its row says. -/
theorem Reachable.length_sweepChildren {w : World} (h : Reachable sha w) {row : SweepRow}
    (hrow : w.store.sweeps.lookup sweep = some row) :
    (sweepChildren w.store sweep).length = row.childCount := by
  have hrolled := h.keyed.rolled sweep (by simp [hrow])
  -- The indices on the roll are those below the count, each once.
  have hperm : ((w.store.roll sweep).map Prod.fst).Perm (List.range row.childCount) := by
    refine (List.perm_ext_iff_of_nodup ?_ List.nodup_range).mpr fun i => ?_
    · exact List.pairwise_map.mpr (hrolled.sorted.imp fun hlt => Nat.ne_of_lt hlt)
    · rw [List.mem_range, ← (h.staffed hrow).indices i]
      constructor
      · intro hi
        obtain ⟨x, hx, rfl⟩ := List.mem_map.mp hi
        exact ⟨x.2, Store.mem_roll.mp hx⟩
      · rintro ⟨c, hc⟩
        exact List.mem_map.mpr ⟨(i, c), Store.mem_roll.mpr hc, rfl⟩
  have hlength := hperm.length_eq
  rwa [List.length_map, List.length_range, Store.roll, List.length_map] at hlength

/-- **A retry is invalid exactly when its document is too large.** -/
theorem retrySweep_invalid_iff {w : World} (h : Reachable sha w) {project : Uuid} {key : String}
    {row : SweepRow} {p : ProjectRow} (hr : w.store.Retryable project sweep key row p) (id : Uuid) :
    retrySweep w.store now id fresh project sweep key = .error .invalid ↔
      2 * 2 ^ 20 < Json.size goStyle (retryDocument w.store sweep row).toJson := by
  have hchildren : (sweepChildren w.store sweep).filter (fun x => decide (x.2.project = project))
      = sweepChildren w.store sweep := hr.owned ▸ h.childrenIn_eq hr.found
  have hcount : (sweepChildren w.store sweep).length = row.childCount ∧
      1 ≤ (sweepChildren w.store sweep).length ∧
      (sweepChildren w.store sweep).length ≤ maxSweepJobs := by
    rw [h.length_sweepChildren hr.found]
    exact ⟨rfl, (h.staffed hr.found).count⟩
  have hmissing : lookupSweepRetry w.store project sweep key = .error .notFound := by
    rw [lookupSweepRetry, hr.newKey]
    rfl
  have hfinished := hr.finished
  have hquota := hr.quota
  rw [unsuccessful] at hfinished hquota
  have hdatabase : StoreError.database ≠ .invalid := by decide
  -- All checks before the document pass, and none after it makes a request invalid.
  simp only [retrySweep, require_of hr.named, ok_bind, hmissing, hr.found, orThrow_some,
    require_of hr.owned, hchildren, require_of hcount, require_of hfinished, hr.listed,
    require_of hr.enabled, require_of hquota]
  rw [← unsuccessful]
  have hspec : retrySweepSpec row.spec sweep ((unsuccessful w.store sweep).map Prod.fst)
      = (require (Json.size goStyle (retryDocument w.store sweep row).toJson ≤ 2 * 2 ^ 20)
          StoreError.invalid >>= fun _ => pure (retryDocument w.store sweep row)) := rfl
  by_cases hsize : Json.size goStyle (retryDocument w.store sweep row).toJson ≤ 2 * 2 ^ 20
  · refine iff_of_false (fun hinvalid => ?_) (not_lt.mpr hsize)
    rw [hspec, require_of hsize] at hinvalid
    refine absurd rfl ((?_ : Throws (fun e => e ≠ StoreError.invalid) _) _ hinvalid)
    exact .bind (.pure _) fun _ => .bind (.require (by decide)) fun _ =>
      .bind (.require hdatabase) fun _ => .bind (.orThrow hdatabase) fun _ =>
      .bind (.foldlM insertRetry_throws _ _) fun _ => .pure _
  · refine iff_of_true ?_ (not_le.mp hsize)
    rw [hspec, require, if_neg hsize]
    rfl

/-- **A finished sweep can be retried unless its document is too large.** In every
state of a run, and for every sweep in it, a retry of its own sweep too: all of
whose children are terminal, some of them unsuccessful, while its project is
enabled and has room for each of those. A request under a new key is not
answered as invalid exactly when the document that was submitted, marshalled by
Go, and 39 bytes for each unsuccessful child stay 82 bytes below two mebibytes. -/
theorem retry_valid_iff_source_fits {w : World} (h : Reachable sha w) {project : Uuid}
    {key : String} {row : SweepRow} {p : ProjectRow}
    (hr : w.store.Retryable project sweep key row p) (now : Time) (id : Uuid) (fresh : ℕ → Uuid) :
    retrySweep w.store now id fresh project sweep key ≠ .error .invalid ↔
      Json.size goStyle (⟨row.spec.sweep, none⟩ : SweepDocument).toJson
        + 39 * (unsuccessful w.store sweep).length + 82 ≤ 2 * 2 ^ 20 := by
  have hsome : (unsuccessful w.store sweep).map Prod.fst ≠ [] :=
    List.map_eq_nil_iff.not.mpr hr.finished.2
  rw [Ne, retrySweep_invalid_iff h hr, not_lt, retryDocument, SweepDocument.size_retry _ _ hsome,
    List.length_map]

/-! ## A sweep that cannot be retried -/

namespace Sample

/-- The store after a sweep of one child. -/
def oneChild (sw : Sweep) (child : Job) : Store :=
  { world.store with
    idempotency := AList.insert (1, .sweeps, "k") ⟨String.ofList (List.replicate 64 '0'), 1⟩ ∅
    sweeps := AList.insert 1 ⟨1, none, sw.metadata.name, ⟨sw.canonical, none⟩, 1, sw.maxConcurrent,
      sw.failFast, sw.cancelRunningOnFailure, second⟩ ∅
    jobs := AList.insert 1 (newSubmission second 1 child (some (1, 0))) ∅
    events := AList.insert (1, 1) ⟨none, .submitted child.canonical none, second⟩ ∅ }

theorem oneChild_submitted (hexpand : sw.expand = .ok [child])
    (hproject : sw.metadata.project = "p") (hresolved : resolved sw.jobTemplate [] = true)
    (hquota : child.spec.resources.cpuMillis ≤ 4000 ∧ child.spec.resources.memoryMiB ≤ 4096)
    (hvalid : child.isValid = true) (hfits : child.canonical.fitsColumn = true)
    (hcolumn : (⟨sw.canonical, none⟩ : SweepDocument).fitsColumn = true) :
    ∃ record, submitSweepResolved world.store second 1 (· + 1) "k"
      (String.ofList (List.replicate 64 '0')) sw [] = .ok (oneChild sw child, record) := by
  have hkey : validKey "k" = true ∧ hashPattern (String.ofList (List.replicate 64 '0')) = true := by
    decide +kernel
  have hnamed : projectNamed world.store "p" = some (1, ⟨"p", 4000, 4096, 4, true⟩) := by
    decide +kernel
  have hall : ∀ c ∈ [child], c.spec.resources.cpuMillis ≤ 4000 ∧
      c.spec.resources.memoryMiB ≤ 4096 := by
    intro c hc
    rwa [List.mem_singleton.mp hc]
  have hunkeyed : world.store.idempotency.lookup (1, .sweeps, "k") = none := rfl
  have hinsert : ((fun i => i + 1) 0 : Uuid) ≠ 0 ∧
      (newSubmission second 1 child (some (1, 0))).spec.fitsColumn = true := ⟨by decide, hfits⟩
  simp only [submitSweepResolved, require_of hkey, ok_bind, hexpand, Except.toOption, orThrow_some,
    require_of hresolved, hproject, hnamed, hunkeyed, require_of trivial, require_of hall,
    require_of hcolumn, List.zipIdx_cons, List.zipIdx_nil, List.foldlM_cons, List.foldlM_nil,
    insertChild, require_of hvalid, Store.insertJob, require_of hinsert]
  exact ⟨_, rfl⟩

/-- The row of the child once it is cancelled. -/
def cancelledChild (child : Job) : JobRow :=
  { newSubmission second 1 child (some (1, 0)) with
    state := .cancelled
    cancelRequested := true
    eventSequence := 2 }

/-- **A sweep is abandoned**: its only child is cancelled before it runs. -/
def abandoned (sw : Sweep) (child : Job) : World where
  store := { oneChild sw child with
    jobs := AList.insert 1 (cancelledChild child) ∅
    events := AList.insert (1, 2) ⟨none, .cancelRequested .queued .cancelled, second⟩
      (oneChild sw child).events }
  clock := second

theorem abandoned_reachable (hexpand : sw.expand = .ok [child])
    (hproject : sw.metadata.project = "p") (hresolved : resolved sw.jobTemplate [] = true)
    (hquota : child.spec.resources.cpuMillis ≤ 4000 ∧ child.spec.resources.memoryMiB ≤ 4096)
    (hvalid : child.isValid = true) (hfits : child.canonical.fitsColumn = true)
    (hcolumn : (⟨sw.canonical, none⟩ : SweepDocument).fitsColumn = true) :
    Reachable Sample.sha (abandoned sw child) := by
  obtain ⟨record, hsubmitted⟩ := oneChild_submitted hexpand hproject hresolved hquota hvalid hfits
    hcolumn
  have hsubmit : Reachable Sample.sha ⟨oneChild sw child, second⟩ :=
    world_reachable.step ⟨Nat.zero_le _, .submitSweep 1 (· + 1) "k"
      (String.ofList (List.replicate 64 '0')) sw [], .sweep record,
      by rw [Op.exec, hsubmitted]; rfl⟩
  exact hsubmit.step ⟨Nat.le_refl _, .cancel 1 1, .done, rfl⟩

theorem unsuccessful_abandoned :
    unsuccessful (abandoned sw child).store 1 = [(1, cancelledChild child)] := rfl

/-- It is to be retried under any new key. -/
theorem abandoned_retryable
    (hquota : child.spec.resources.cpuMillis ≤ 4000 ∧ child.spec.resources.memoryMiB ≤ 4096) :
    (abandoned sw child).store.Retryable 1 1 "r"
      ⟨1, none, sw.metadata.name, ⟨sw.canonical, none⟩, 1, sw.maxConcurrent, sw.failFast,
        sw.cancelRunningOnFailure, second⟩ ⟨"p", 4000, 4096, 4, true⟩ := by
  have hchildren : sweepChildren (abandoned sw child).store 1 = [(1, cancelledChild child)] := rfl
  refine ⟨by decide +kernel, rfl, rfl, ⟨fun x hx => ?_, ?_⟩, rfl, rfl, fun x hx => ?_, rfl⟩
  · rw [hchildren] at hx
    rw [List.mem_singleton.mp hx]
    rfl
  · rw [unsuccessful_abandoned]
    exact List.cons_ne_nil _ _
  · rw [unsuccessful_abandoned] at hx
    rw [List.mem_singleton.mp hx]
    exact hquota

/-- The sweep of one child, with long arguments. -/
def bracketedSweep (n : ℕ) : Sweep := { single with jobTemplate := bracketed job n }

/-- Its child. -/
def bracketedChild (n : ℕ) : Job :=
  bracketed { job with spec := { job.spec with env := AList.insert "RATE" "1" ∅ } } n

theorem expand_bracketedSweep {n : ℕ} (hn : n < 255) :
    (bracketedSweep (n + 1)).expand = .ok [bracketedChild (n + 1)] := by
  have hkind : (bracketedSweep (n + 1)).apiVersion = apiVersion ∧
      (bracketedSweep (n + 1)).kind = "Sweep" := ⟨rfl, rfl⟩
  have hmetadata : (bracketedSweep (n + 1)).metadata.validate = .ok () := by
    show single.metadata.validate = .ok ()
    exact toOption_eq_some.mp (by decide +kernel)
  have hproject : (bracketedSweep (n + 1)).metadata.project
      = (bracketedSweep (n + 1)).jobTemplate.metadata.project := rfl
  have htemplate : (bracketedSweep (n + 1)).jobTemplate.validate = .ok () :=
    Job.isValid_iff.mp (bracketed_isValid (by decide +kernel) (by show 1 + (n + 1) ≤ 256; omega))
  have hchild : (bracketedChild (n + 1)).validate = .ok () :=
    Job.isValid_iff.mp (bracketed_isValid (by decide +kernel) (by show 1 + (n + 1) ≤ 256; omega))
  have hpolicy : 1 ≤ (bracketedSweep (n + 1)).maxConcurrent ∧
      (bracketedSweep (n + 1)).maxConcurrent ≤ maxSweepJobs ∧
      ((bracketedSweep (n + 1)).cancelRunningOnFailure → (bracketedSweep (n + 1)).failFast) := by
    show 1 ≤ single.maxConcurrent ∧ single.maxConcurrent ≤ maxSweepJobs ∧
      (single.cancelRunningOnFailure → single.failFast)
    decide
  have hkeys : (bracketedSweep (n + 1)).matrix.entries ≠ [] ∧
      (bracketedSweep (n + 1)).matrix.entries.length ≤ 32 := by
    show single.matrix.entries ≠ [] ∧ single.matrix.entries.length ≤ 32
    decide +kernel
  have hcount : countMatrix 1 (bracketedSweep (n + 1)).matrix.entries = .ok 1 := by
    show countMatrix 1 single.matrix.entries = .ok 1
    exact toOption_eq_some.mp (by decide +kernel)
  have hsize : 0 + (bracketedChild (n + 1)).canonicalSize ≤ maxExpandedBytes := by
    have hbase : Json.size goStyle { job with
        spec := { job.spec with env := AList.insert "RATE" "1" ∅ } : Job }.toJson = 538 := by
      decide +kernel
    show 0 + Json.size goStyle (bracketedChild (n + 1)).toJson ≤ 16 * 2 ^ 20
    rw [bracketedChild, size_go_bracketed rfl, hbase]
    omega
  simp only [Sweep.expand, require_of hkind, ok_bind, hmetadata, require_of hproject, htemplate,
    require_of hpolicy, require_of hkeys, hcount]
  show collectChildren 0 [bracketedChild (n + 1)] = _
  simp only [collectChildren, hchild, ok_bind, require_of hsize]
  rfl

/-- What long arguments add to the document of the sweep. -/
theorem size_bracketedSweep (st : Json.Style) (n : ℕ) (retry : Option (ℕ × List ℕ)) :
    Json.size st (⟨bracketedSweep n, retry⟩ : SweepDocument).toJson + Json.size st job.toJson
      = Json.size st (⟨single, retry⟩ : SweepDocument).toJson
        + Json.size st (bracketed job n).toJson :=
  SweepDocument.size_jobTemplate st ⟨single, retry⟩ (bracketed job n)

theorem canonical_bracketedSweep (n : ℕ) : (bracketedSweep n).canonical = bracketedSweep n := rfl

theorem canonical_bracketedChild (n : ℕ) : (bracketedChild n).canonical = bracketedChild n := rfl

/-- The documents are well within the bounds of the columns. -/
theorem bracketedSweep_reachable {n : ℕ} (hn : n < 255) :
    Reachable Sample.sha (abandoned (bracketedSweep (n + 1)) (bracketedChild (n + 1))) := by
  refine abandoned_reachable (expand_bracketedSweep hn) rfl ?_ ⟨?_, ?_⟩
    (bracketed_isValid ?_ ?_) ?_ ?_
  · show (pinnedImage image && true && true) = true
    decide +kernel
  · show (1000 : ℤ) ≤ 4000
    decide
  · show (256 : ℤ) ≤ 4096
    decide
  · decide +kernel
  · show 1 + (n + 1) ≤ 256
    omega
  · have hbase : Json.size jsonbStyle { job with
        spec := { job.spec with env := AList.insert "RATE" "1" ∅ } : Job }.toJson ≤ 1000 := by
      decide +kernel
    rw [Job.fitsColumn, decide_eq_true_iff, canonical_bracketedChild, canonical_bracketedChild,
      bracketedChild, size_jsonb_bracketed rfl, specColumnLimit]
    omega
  · have hbase : Json.size jsonbStyle (⟨single, none⟩ : SweepDocument).toJson ≤ 1000 := by
      decide +kernel
    have hsize := size_bracketedSweep jsonbStyle (n + 1) none
    rw [size_jsonb_bracketed rfl] at hsize
    rw [SweepDocument.fitsColumn, decide_eq_true_iff, canonical_bracketedSweep, specColumnLimit]
    omega

theorem bracketedSweep_retryable (n : ℕ) :
    (abandoned (bracketedSweep n) (bracketedChild n)).store.Retryable 1 1 "r"
      ⟨1, none, (bracketedSweep n).metadata.name, ⟨(bracketedSweep n).canonical, none⟩, 1,
        (bracketedSweep n).maxConcurrent, (bracketedSweep n).failFast,
        (bracketedSweep n).cancelRunningOnFailure, second⟩ ⟨"p", 4000, 4096, 4, true⟩ := by
  refine abandoned_retryable ⟨?_, ?_⟩
  · show (1000 : ℤ) ≤ 4000
    decide
  · show (256 : ℤ) ≤ 4096
    decide

/-- The document of its retry. -/
theorem retryDocument_bracketedSweep (n : ℕ) (row : SweepRow)
    (hrow : row.spec = ⟨(bracketedSweep n).canonical, none⟩) :
    retryDocument (abandoned (bracketedSweep n) (bracketedChild n)).store 1 row
      = ⟨bracketedSweep n, some (1, [1])⟩ := by
  rw [retryDocument, hrow, canonical_bracketedSweep]
  rfl

end Sample

/-- **A sweep that was admitted and can never be retried.** Its document is 360
kilobytes long, and over two mebibytes when Go escapes it. -/
theorem bracketed_retry_invalid : ∃ w row p, Reachable Sample.sha w ∧
    w.store.Retryable 1 1 "r" row p ∧
    ∀ now id fresh, retrySweep w.store now id fresh 1 1 "r" = .error .invalid := by
  have hreach := Sample.bracketedSweep_reachable (show 42 < 255 by decide)
  have hretryable := Sample.bracketedSweep_retryable (42 + 1)
  refine ⟨_, _, _, hreach, hretryable, fun now id fresh => ?_⟩
  refine (retrySweep_invalid_iff hreach hretryable id).mpr ?_
  have hsize := Sample.size_bracketedSweep goStyle (42 + 1) (some (1, [1]))
  rw [Sample.size_go_bracketed rfl] at hsize
  rw [Sample.retryDocument_bracketedSweep _ _ rfl]
  omega

/-- With one such argument the sweep can be retried. -/
theorem one_bracketed_retry_valid : ∃ w row p, Reachable Sample.sha w ∧
    w.store.Retryable 1 1 "r" row p ∧
    retrySweep w.store second 2 (· + 2) 1 1 "r" ≠ .error .invalid := by
  have hreach := Sample.bracketedSweep_reachable (show 0 < 255 by decide)
  have hretryable := Sample.bracketedSweep_retryable (0 + 1)
  refine ⟨_, _, _, hreach, hretryable, ?_⟩
  refine (retry_valid_iff_source_fits hreach hretryable second 2 (· + 2)).mpr ?_
  have hbase : Json.size goStyle (⟨Sample.single, none⟩ : SweepDocument).toJson ≤ 2000 := by
    decide +kernel
  have hsize := Sample.size_bracketedSweep goStyle (0 + 1) none
  rw [Sample.size_go_bracketed rfl] at hsize
  have hfits : ∀ row : SweepRow, row.spec.sweep = Sample.bracketedSweep (0 + 1) →
      Json.size goStyle (⟨row.spec.sweep, none⟩ : SweepDocument).toJson + 39 * 1 + 82
        ≤ 2 * 2 ^ 20 := by
    intro row hrow
    rw [hrow]
    omega
  rw [Sample.unsuccessful_abandoned, List.length_singleton]
  exact hfits _ (Sample.canonical_bracketedSweep _)

end Dispatch
