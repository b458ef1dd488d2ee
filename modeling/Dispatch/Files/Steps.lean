import Dispatch.Ledger.History
import Dispatch.Store.Footprint

/-!
# The files over runs

Nothing that is on file is ever taken back (`Files.Later`), and what a
transaction puts on file belongs to an authority it was granted under
(`Op.exec_files`). Everything else about the files is proved from these steps:
which limits hold (`Files.Integrity`), how the segments of a stream lie
(`Files.Catalog`), and whose entries a worker can touch.
-/

namespace Dispatch

open Txn

variable {worker : Uuid} {sha : Uuid → ℕ}

/-! ## What stays -/

/-- A multipart identity keeps its backend. -/
structure MultipartRow.Later (m m' : MultipartRow) : Prop where
  initialization : m'.initializationID = m.initializationID
  backend : ∀ b, m.backendUploadID = some b → m'.backendUploadID = some b

/-- A completion intent keeps its parts and its version. -/
structure MultipartCompletionRow.Later (m m' : MultipartCompletionRow) : Prop where
  request : m'.requestHash = m.requestHash ∧ m'.worker = m.worker ∧ m'.session = m.session ∧
    m'.request = m.request
  version : ∀ v, m.objectVersion = some v → m'.objectVersion = some v

theorem MultipartRow.Later.refl (m : MultipartRow) : m.Later m := ⟨rfl, fun _ => id⟩

theorem MultipartCompletionRow.Later.refl (m : MultipartCompletionRow) : m.Later m :=
  ⟨⟨rfl, rfl, rfl, rfl⟩, fun _ => id⟩

/-- **What no entry takes back.** -/
structure Files.Later (f f' : Files) : Prop where
  uploads : f.uploads.Extends f'.uploads
  multipart : ∀ id m, f.multipart.lookup id = some m →
    ∃ m', f'.multipart.lookup id = some m' ∧ m.Later m'
  uploadParts : f.uploadParts.Extends f'.uploadParts
  multipartCompletions : ∀ id m, f.multipartCompletions.lookup id = some m →
    ∃ m', f'.multipartCompletions.lookup id = some m' ∧ m.Later m'
  finalizations : f.finalizations.Extends f'.finalizations
  artifacts : f.artifacts.Extends f'.artifacts
  logSegments : f.logSegments.Extends f'.logSegments

theorem Files.Later.refl (f : Files) : f.Later f where
  uploads := .refl _
  multipart _ m hm := ⟨m, hm, .refl m⟩
  uploadParts := .refl _
  multipartCompletions _ m hm := ⟨m, hm, .refl m⟩
  finalizations := .refl _
  artifacts := .refl _
  logSegments := .refl _

theorem Files.Later.trans {f f' f'' : Files} (h : f.Later f') (h' : f'.Later f'') :
    f.Later f'' where
  uploads := h.uploads.trans h'.uploads
  multipart id m hm := by
    obtain ⟨m', hm', hinit, hbackend⟩ := h.multipart id m hm
    obtain ⟨m'', hm'', hinit', hbackend'⟩ := h'.multipart id m' hm'
    exact ⟨m'', hm'', hinit'.trans hinit, fun b hb => hbackend' b (hbackend b hb)⟩
  uploadParts := h.uploadParts.trans h'.uploadParts
  multipartCompletions id m hm := by
    obtain ⟨m', hm', ⟨hhash, hworker, hsession, hrequest⟩, hversion⟩ :=
      h.multipartCompletions id m hm
    obtain ⟨m'', hm'', ⟨hhash', hworker', hsession', hrequest'⟩, hversion'⟩ :=
      h'.multipartCompletions id m' hm'
    exact ⟨m'', hm'', ⟨hhash'.trans hhash, hworker'.trans hworker, hsession'.trans hsession,
      hrequest'.trans hrequest⟩, fun v hv => hversion' v (hversion v hv)⟩
  finalizations := h.finalizations.trans h'.finalizations
  artifacts := h.artifacts.trans h'.artifacts
  logSegments := h.logSegments.trans h'.logSegments

section

variable {op : Op} {authority : AttemptAuthority} {f f' : Files}

/-- **An entry takes nothing back.** -/
theorem Files.Step.later (h : Files.Step op authority f f') : f.Later f' := by
  have hrefl := Files.Later.refl f
  cases h with
  | declare upload u hfree => exact { hrefl with uploads := .insert u hfree }
  | identify upload initialization hmine hfree =>
    exact { hrefl with
      multipart := fun id m hm => ⟨m, Table.Extends.insert _ hfree id m hm, .refl m⟩ }
  | bind upload m backend hmine hm hunbound =>
    refine { hrefl with multipart := fun id m' hm' => ?_ }
    dsimp only
    rw [Table.lookup_modify, hm']
    split_ifs with hid
    · obtain rfl := Option.some.inj (hm.symm.trans (hid ▸ hm'))
      exact ⟨_, rfl, rfl, fun b hb => absurd (hunbound.symm.trans hb) (by simp)⟩
    · exact ⟨m', rfl, .refl m'⟩
  | part upload number sha256 hmine hsame =>
    refine { hrefl with uploadParts := fun k saved hsaved => ?_ }
    dsimp only
    rw [Table.lookup_insert_ite]
    split_ifs with hk
    · exact congrArg some (hsame saved (hk ▸ hsaved)).symm
    · exact hsaved
  | intend upload row hmine hfree hunstored =>
    exact { hrefl with
      multipartCompletions := fun id m hm => ⟨m, Table.Extends.insert _ hfree id m hm, .refl m⟩ }
  | store upload row version hmine hrow hunstored =>
    refine { hrefl with multipartCompletions := fun id m hm => ?_ }
    dsimp only
    rw [Table.lookup_modify, hm]
    split_ifs with hid
    · obtain rfl := Option.some.inj (hrow.symm.trans (hid ▸ hm))
      exact ⟨_, rfl, ⟨rfl, rfl, rfl, rfl⟩, fun v hv => absurd (hunstored.symm.trans hv) (by simp)⟩
    · exact ⟨m, rfl, .refl m⟩
  | claim id row hmine hfree => exact { hrefl with finalizations := .insert row hfree }
  | verify artifact row u hu hmine hfree => exact { hrefl with artifacts := .insert row hfree }
  | register id l hfree => exact { hrefl with logSegments := .insert l hfree }

theorem Files.Steps.later (h : Files.Steps op authority f f') : f.Later f' := by
  induction h with
  | refl => exact .refl f
  | tail _ hstep ih => exact ih.trans hstep.later

/-- **New uploads and segments are the authority's.** -/
theorem Files.Steps.found (h : Files.Steps op authority f f') :
    (∀ id u, f'.uploads.lookup id = some u → f.uploads.lookup id = some u ∨
      u.claims.authority = authority) ∧
    ∀ id l, f'.logSegments.lookup id = some l → f.logSegments.lookup id = some l ∨
      l.claims.authority = authority := by
  induction h with
  | refl => exact ⟨fun _ _ => .inl, fun _ _ => .inl⟩
  | tail _ hstep ih =>
    cases hstep with
    | declare upload u hfree hmine =>
      refine ⟨fun id u' hu' => ?_, ih.2⟩
      simp only [Table.lookup_insert_ite] at hu'
      split_ifs at hu'
      · exact .inr (Option.some.inj hu' ▸ hmine)
      · exact ih.1 id u' hu'
    | register segment l hfree h =>
      refine ⟨ih.1, fun id l' hl' => ?_⟩
      simp only [Table.lookup_insert_ite] at hl'
      split_ifs at hl'
      · exact .inr (Option.some.inj hl' ▸ h.mine)
      · exact ih.2 id l' hl'
    | _ => exact ih

end

/-! ## Every transaction -/

variable {op : Op} {s s' : Store} {now : Time}

/-- **The entries of a transaction** are those of an authority it was granted
under. -/
theorem Op.exec_files {reply : Reply} (h : op.exec sha s now = .ok (s', reply)) :
    s'.files = s.files ∨ ∃ worker authority, op.filer = some (worker, authority) ∧
      Granted s now worker authority ∧ Files.Steps op authority s.files s'.files := by
  cases hfiler : op.filer with
  | some x =>
    obtain rfl | ⟨hgranted, hentries⟩ := op.exec_entries h hfiler
    · exact .inl rfl
    · exact .inr ⟨x.1, x.2, rfl, hgranted, hentries.files⟩
  | none =>
    refine .inl ((Op.exec_writes h).files ?_)
    cases op <;>
      first | (simp only [Op.footprint]; decide) | exact absurd hfiler (by simp [Op.filer])

/-- **What is on file stays on file.** -/
theorem World.Later.files {w w' : World} (h : World.Later sha w w') :
    w.store.files.Later w'.store.files := by
  induction h with
  | refl => exact .refl _
  | tail _ hstep ih =>
    obtain ⟨-, op, reply, hexec⟩ := hstep
    obtain hsame | ⟨worker, authority, -, -, hsteps⟩ := op.exec_files hexec
    · exact hsame ▸ ih
    · exact ih.trans hsteps.later

end Dispatch
