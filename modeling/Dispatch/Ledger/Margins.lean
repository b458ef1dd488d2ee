import Dispatch.Ledger.Invariants
import Dispatch.Store.Footprint

/-!
# In the margin of the ledger

Two tables are not part of the ledger although later transactions decide by
them: the observations that acquisitions leave about blocked jobs, and the
claims that registrations were accepted with. Each is written by one kind of
transaction only. Acquisitions alone take notes (`Op.exec_blockers`), and what
a registration was accepted with is never rewritten (`Op.exec_registrations`).
-/

namespace Dispatch

open Txn

variable {sha : Uuid → ℕ} {op : Op} {now : Time} {s s' : Store}

/-! ## Registrations -/

theorem Store.recordRegistration_margins {worker request : Uuid} {hash : RegistrationClaims}
    (hsaved : ∀ saved ∈ s.registrations.lookup (worker, request), saved = hash) :
    s.registrations.Extends (s.recordRegistration worker request hash).registrations ∧
      (s.recordRegistration worker request hash).registrations.lookup (worker, request)
        = some hash := by
  unfold Store.recordRegistration
  split_ifs with hknown
  · obtain ⟨saved, hlookup⟩ := Option.isSome_iff_exists.mp hknown
    exact ⟨.refl _, hlookup.trans (congrArg some (hsaved saved hlookup))⟩
  · exact ⟨.insert hash (by simpa using hknown), AList.lookup_insert _⟩

/-- **A registration leaves its claims**, under its own request and for good. -/
theorem registerSession_margins {id : WorkerIdentity} {r : Registration} {x : Session}
    (h : registerSession sha s now id r = .ok (s', x)) :
    s.registrations.Extends s'.registrations ∧ ∃ hash, r.hash = .ok hash ∧
      s'.registrations.lookup (id.workerID, r.requestID) = some hash := by
  simp only [registerSession, bind_ok, require_ok] at h
  obtain ⟨hash, hhash, -, -, -, -, w, -, -, -, -, hsaved, h⟩ := h
  -- A session is installed on a store that has the registrations of the first one.
  have hinstalled : ∀ t : Store, t.registrations = s.registrations →
      installSession t now id.workerID r.requestID hash = .ok (s', x) →
      s.registrations.Extends s'.registrations ∧
        s'.registrations.lookup (id.workerID, r.requestID) = some hash := by
    intro t ht hinstall
    simp only [installSession, bind_ok, pure_pair_ok] at hinstall
    obtain ⟨sessions, -, rfl, -⟩ := hinstall
    rw [← ht] at hsaved ⊢
    exact Store.recordRegistration_margins (s := { t with
      sessions := sessions, workers := t.workers.modify id.workerID (·.register now hash) }) hsaved
  have hfiled : s.registrations.Extends s'.registrations ∧
      s'.registrations.lookup (id.workerID, r.requestID) = some hash := by
    split at h
    · split_ifs at h
      · simp only [bind_ok, pure_pair_ok] at h
        obtain ⟨-, -, -, -, rfl, -⟩ := h
        exact Store.recordRegistration_margins hsaved
    · split at h
      · simp only [bind_ok] at h
        obtain ⟨recovered, hrecovered, hinstall⟩ := h
        obtain ⟨_, _, fenced, -, -, -, -, hfenced, rfl⟩ := recoverSession_eq_ok hrecovered
        have hkept : Writes endTables s fenced :=
          foldlM_invariant (Writes endTables s) (.refl _ s)
            (fun t x t' _ ht hturn => ht.trans (fenceLostAttempt_writes hturn)) hfenced
        refine hinstalled _ ?_ hinstall
        exact hkept .registrations (by decide)
      · exact hinstalled s rfl h
  exact ⟨hfiled.1, hash, hhash, hfiled.2⟩

/-! ## Every transaction -/

/-- **Only acquisitions take notes.** -/
theorem Op.exec_blockers {reply : Reply} (h : op.exec sha s now = .ok (s', reply))
    (hop : ∀ key, ¬ op.acquires key) :
    s'.blockers = s.blockers ∧ s'.blockerSequence = s.blockerSequence := by
  have hfree : .blockers ∉ op.footprint ∧ .blockerSequence ∉ op.footprint := by
    cases op with
    | acquire observed queueNow identity request policy attempt =>
      exact absurd ⟨observed, queueNow, identity, request, policy, attempt, rfl, rfl⟩ (hop _)
    | _ => simp only [Op.footprint]; decide
  exact ⟨op.exec_writes h .blockers hfree.1, op.exec_writes h .blockerSequence hfree.2⟩

/-- **A registration stays on record.** -/
theorem Op.exec_registrations {reply : Reply} (h : op.exec sha s now = .ok (s', reply)) :
    s.registrations.Extends s'.registrations := by
  by_cases hregister : ∃ id r, op = .register id r
  · obtain ⟨id, r, rfl⟩ := hregister
    simp only [Op.exec, bind_ok, pure_pair_ok] at h
    obtain ⟨⟨t, _⟩, ht, rfl, -⟩ := h
    exact (registerSession_margins ht).1
  · have hsame : s'.registrations = s.registrations := by
      refine op.exec_writes h .registrations ?_
      cases op with
      | register id r => exact absurd ⟨id, r, rfl⟩ hregister
      | _ => simp only [Op.footprint]; decide
    exact hsame ▸ .refl _

theorem World.Later.registrations {w w' : World} (h : World.Later sha w w') :
    w.store.registrations.Extends w'.store.registrations := by
  induction h with
  | refl => exact .refl _
  | tail _ hstep ih =>
    obtain ⟨-, op, reply, hexec⟩ := hstep
    exact ih.trans (op.exec_registrations hexec)

end Dispatch
