import Dispatch.Store.Acquisition

/-!
# Datasets

A project registers an object version under a name, with the manifest of the
files in it. The registration is final: neither a replay nor a later upload
binds the name to other bytes, and no transaction changes or deletes a row.

The declaration of the upload is part of the row, and the object store has
verified the version before the transaction begins.
-/

namespace Dispatch

open Txn

/-- The largest object that is uploaded in one part. -/
def maxSinglePartBytes : ℤ := 64 * 2 ^ 20

/-- Visible ASCII, at most a kibibyte, and not the text `null`. -/
def validDatasetVersion (version : String) : Bool :=
  decide (version ≠ "") && decide (version ≠ "null") && decide (version.utf8ByteSize ≤ 1024) &&
    version.toList.all (fun c => decide (33 ≤ c.toNat) && decide (c.toNat ≤ 126))

/-- **Registration of a dataset.** An upload has one key, so the key stands
for `UNIQUE(upload_id)`. -/
def registerDataset (s : Store) (id : Uuid) (row : DatasetRow) : Except StoreError Store := do
  require (canonicalUUID row.project ∧ validDatasetVersion row.object.version) .invalid
  require (row.object.sizeBytes ≤ maxSinglePartBytes ∧
    row.manifest.validate row.object.sizeBytes ∧
    Json.size goStyle row.manifest.toJson ≤ 2 * 2 ^ 20) .invalid
  let p ← orThrow (s.projects.lookup row.project) .notFound
  require (p.enabled = true) .disabled
  require (∀ e ∈ s.datasets.entries, ¬ (e.2.project = row.project ∧ e.2.name = row.name) ∧
    e.2.object.key ≠ row.object.key) .conflict
  let datasets ← orThrow (s.datasets.insertNew id row) .database
  pure { s with datasets := datasets }

/-- **What a registration does**: it adds a dataset whose manifest describes
its archive. -/
theorem registerDataset_eq_ok {s s' : Store} {id : Uuid} {row : DatasetRow}
    (h : registerDataset s id row = .ok s') :
    s.datasets.lookup id = none ∧ row.manifest.validate row.object.sizeBytes = true ∧
      s' = { s with datasets := AList.insert id row s.datasets } := by
  simp only [registerDataset, bind_ok, require_ok, orThrow_ok, pure_ok] at h
  obtain ⟨-, -, -, ⟨-, hvalid, -⟩, p, -, -, -, -, -, datasets, hinsert, rfl⟩ := h
  obtain ⟨hfree, rfl⟩ := Table.insertNew_eq_some hinsert
  exact ⟨hfree, hvalid, rfl⟩

end Dispatch
