import Dispatch.Ledger.Margins

/-!
# Observations of blocked jobs

An acquisition notes the jobs it had to pass over and why, under the key of its
own request. A second note for the same job and request must agree with the
first, so a note left behind by a request that was never answered could fail
the acquisition that comes after it. None is left behind: an acquisition
commits its notes together with its answer (`Reachable.observed`), and no
other transaction takes any.
-/

namespace Dispatch

open Txn

variable {sha : Uuid → ℕ} {op : Op} {now : Time} {s s' : Store}

variable {request : AcquisitionRequest} {k : Uuid × ℕ} {b : BlockerRow}

theorem recordQueueBlocker_lookup {worker : Uuid} {observedAt : Time}
    {blocker : Uuid × NoWork} (h : recordQueueBlocker s worker request observedAt blocker = .ok s')
    (hb : s'.blockers.lookup k = some b) :
    s.blockers.lookup k = some b ∨ b.key = (worker, request.sessionID, request.requestID) ∧
      k.1 = blocker.1 ∧ b.reason = blocker.2 := by
  obtain ⟨-, rfl⟩ | ⟨-, j, -, rfl⟩ := recordQueueBlocker_cases h
  · exact .inl hb
  · rw [Store.observing_blockers, Table.lookup_insert_ite] at hb
    split_ifs at hb with hk
    · obtain rfl := Option.some.inj hb
      subst hk
      exact .inr ⟨rfl, rfl, rfl⟩
    · exact .inl hb

theorem Store.Noted.lookup {worker : Uuid}
    (h : s.Noted worker request s')
    (hb : s'.blockers.lookup k = some b) :
    s.blockers.lookup k = some b ∨ b.key = (worker, request.sessionID, request.requestID) := by
  obtain ⟨observedAt, l, hfold⟩ := h
  refine foldlM_invariant (fun t => t.blockers.lookup k = some b → s.blockers.lookup k = some b ∨
    b.key = (worker, request.sessionID, request.requestID)) .inl ?_ hfold hb
  intro t x t' _ ht hturn hb
  obtain hold | ⟨hkey, -⟩ := recordQueueBlocker_lookup hturn hb
  · exact ht hold
  · exact .inr hkey

/-- **An acquisition keeps the notes as they are, or takes some and answers.** -/
theorem acquireWork_notes {observed queueNow : Time} {id : WorkerIdentity}
    {policy : AcquisitionPolicy} {attempt : Uuid}
    {result : AcquisitionResult}
    (h : acquireWork s observed queueNow now id request policy attempt = .ok (s', result)) :
    s' = s ∨ ∃ sampled, s.Noted id.workerID request sampled ∧ s'.blockers = sampled.blockers ∧
      s'.blockerSequence = sampled.blockerSequence ∧
      s'.workerRequests.lookup (id.workerID, request.sessionID, request.requestID) ≠ none := by
  cases acquireWork_acquired h with
  | replayed saved _ hkey => exact .inl rfl
  | repeated reason hkey => exact .inl rfl
  | refused blockers sequence reason hkey hnotes => exact .inr ⟨_, hnotes, rfl, rfl, by simp⟩
  | assigned blockers sequence assigned job j host p inputs hkey hnotes hassignable hinputs
      hassigned =>
    simp only [assignJob, bind_ok] at hassigned
    obtain ⟨attempts, -, reservations, -, hlogged⟩ := hassigned
    exact .inr ⟨_, hnotes, appendEvent_writes hlogged .blockers (by decide),
      appendEvent_writes hlogged .blockerSequence (by decide), by simp⟩

/-- **Every note belongs to an answered request.** -/
theorem Reachable.observed {w : World} (h : Reachable sha w)
    (hb : w.store.blockers.lookup k = some b) : w.store.workerRequests.lookup b.key ≠ none := by
  induction h generalizing k b with
  | start projects workers credentials workerProjects clock => exact (nomatch hb)
  | @step w w' hw hstep ih =>
    obtain ⟨hle, op, reply, hexec⟩ := hstep
    have hstays : ∀ b : BlockerRow, w.store.workerRequests.lookup b.key ≠ none →
        w'.store.workerRequests.lookup b.key ≠ none := by
      intro b hanswered
      obtain ⟨r, hr⟩ := Option.ne_none_iff_exists'.mp hanswered
      exact Option.ne_none_iff_exists'.mpr
        ⟨r, (hw.exec_ledger hle hexec).later.workerRequests _ _ hr⟩
    by_cases hop : ∃ key, op.acquires key
    · obtain ⟨_, observed, queueNow, identity, request, policy, attempt, rfl, -⟩ := hop
      simp only [Op.exec, bind_ok, pure_pair_ok] at hexec
      obtain ⟨⟨t, _⟩, ht, rfl, -⟩ := hexec
      obtain hsame | ⟨sampled, hnotes, hsame, -, hanswered⟩ := acquireWork_notes ht
      · exact hstays b (ih (hsame ▸ hb))
      · obtain hold | hkey := hnotes.lookup (hsame ▸ hb)
        · exact hstays b (ih hold)
        · exact hkey ▸ hanswered
    · rw [(Op.exec_blockers hexec (not_exists.mp hop)).1] at hb
      exact hstays b (ih hb)

end Dispatch
