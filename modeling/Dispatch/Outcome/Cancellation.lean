import Dispatch.Ledger.Invariants

/-!
# A cancellation decides the outcome of a job

A cancellation is a mark on the job, set under the locks that completions and
fences take as well, by a user or by the failure of a sibling. The mark is
never taken off (`JobRow.Later.cancelled`), and a marked job is in one of two
states (`JobRow.Sound.cancelled`): its worker is asked to stop, or it is
cancelled. So it cannot succeed, fail or wait for another attempt, whichever of
completion, expiry and recovery comes first afterwards. What a job ended with
before is as final (`JobRow.Later.final`).

That no attempt is made after the mark follows from the numbers of the
attempts: the counter stands still, and every number up to it was taken.
-/

namespace Dispatch

open Txn

variable {sha : Uuid → ℕ} {op : Op} {now : Time}

variable {job : Uuid} {j : JobRow}

/-- A job at two moments of a run. -/
theorem Reachable.later_job {w w' : World} (h : Reachable sha w)
    (hlater : World.Later sha w w')
    (hj : w.store.jobs.lookup job = some j) :
    ∃ j', w'.store.jobs.lookup job = some j' ∧ j.uncounted.Later j'.uncounted := by
  obtain ⟨k, hk, hkept⟩ := (h.later_ledger hlater).jobs job _ (Store.toLedger_job hj)
  obtain ⟨j', hj', rfl⟩ := Store.job_of_toLedger hk
  exact ⟨j', hj', hkept⟩

/-- **A cancellation asked for in time is marked.** -/
theorem requestCancellation_marks {s s' : Store} {project : Uuid}
    (h : requestCancellation s now project job = .ok s') (hj : s.jobs.lookup job = some j)
    (hsound : j.uncounted.Sound) (hopen : j.state.isTerminal = false) :
    ∃ j', s'.jobs.lookup job = some j' ∧ j'.cancelRequested = true := by
  simp only [requestCancellation, bind_ok, orThrow_ok] at h
  obtain ⟨-, -, k, hk, -, -, h⟩ := h
  obtain rfl := Option.mem_unique hj hk
  split at h
  · obtain ⟨row, events, hrow, -, rfl⟩ := Store.appendEvent_eq_ok h
    simp only [Table.lookup_modify, if_true, hj, Option.map_some, Option.some.injEq] at hrow
    subst hrow
    simp [hj]
  · -- The job is neither waiting nor running nor done: it is being cancelled.
    rename_i hstate
    obtain rfl := pure_ok.mp h
    refine ⟨j, hj, hsound.cancelled.mpr (.inl ?_)⟩
    cases hs : j.state <;> simp_all [JobState.isQueued, JobState.isTerminal, JobRow.uncounted]

/-- **The failure of a sibling is marked** on every job it stops. -/
theorem applySweepFailFast_marks {s s' : Store} {failed : Uuid}
    (h : applySweepFailFast s now failed = .ok s') {sweep : Uuid} {cancelRunning : Bool}
    (hpolicy : failFastPolicy s failed = some (sweep, cancelRunning))
    (hj : s.jobs.lookup job = some j)
    (hstops : failFastCandidate failed sweep cancelRunning job j = true) :
    ∃ j', s'.jobs.lookup job = some j' ∧ j'.cancelRequested = true := by
  simp only [applySweepFailFast, hpolicy, bind_ok, pure_ok] at h
  obtain ⟨events, -, rfl⟩ := h
  refine ⟨j.stop, ?_, rfl⟩
  simp only [Table.lookup_update, hj, Option.map_some, if_pos hstops]

/-- The attempts of a job whose counter stands still are those it had. -/
theorem Ledger.Numbered.same_attempts {l l' : Ledger} (hn : l.Numbered) (hn' : l'.Numbered)
    (hlater : l.Later l') {j' : JobRow} (hj : l.jobs.lookup job = some j)
    (hj' : l'.jobs.lookup job = some j') (hcounter : j'.attemptCounter = j.attemptCounter)
    {id : Uuid} {a : AttemptRow} (ha : l'.attempts.lookup id = some a) (hjob : a.job = job) :
    l.attempts.lookup id ≠ none := by
  subst hjob
  obtain ⟨hpos, hle⟩ := hn'.within id a j' ha hj'
  obtain ⟨id', b, hb, hjob, hnumber⟩ := hn.all a.job j a.number hj hpos (hcounter ▸ hle)
  obtain ⟨b', hb', hkept⟩ := hlater.attempts id' b hb
  obtain rfl := hn'.once id' id b' a hb' ha (hkept.job.trans hjob) (hkept.number.trans hnumber)
  simp [hb]

/-- **A cancellation decides the outcome.** A user's request for a job that is
not done marks it, and so does the failure of a sibling that stops it; a marked
job is never anything but cancelling or cancelled again, and is assigned no
further attempt; and what a job has ended with never changes. -/
theorem cancellation_decides {w : World} (h : Reachable sha w) {job : Uuid} {j : JobRow}
    (hj : w.store.jobs.lookup job = some j) :
    (∀ project now s' reply, Op.exec sha w.store now (.cancel project job) = .ok (s', reply) →
      j.state.isTerminal = false →
      ∃ j', s'.jobs.lookup job = some j' ∧ j'.cancelRequested = true) ∧
    (∀ s now failed s' sweep cancelRunning k, applySweepFailFast s now failed = .ok s' →
      failFastPolicy s failed = some (sweep, cancelRunning) → s.jobs.lookup job = some k →
      failFastCandidate failed sweep cancelRunning job k = true →
      ∃ k', s'.jobs.lookup job = some k' ∧ k'.cancelRequested = true) ∧
    (j.cancelRequested = true → ∀ w', World.Later sha w w' →
      (∃ j', w'.store.jobs.lookup job = some j' ∧
        (j'.state = .cancelling ∨ j'.state = .cancelled)) ∧
      ∀ id a, w'.store.attempts.lookup id = some a → a.job = job →
        w.store.attempts.lookup id ≠ none) ∧
    (j.state.isTerminal = true → ∀ w', World.Later sha w w' →
      ∃ j', w'.store.jobs.lookup job = some j' ∧ j'.state = j.state ∧
        j'.acceptedAttempt = j.acceptedAttempt ∧ j'.acceptedManifest = j.acceptedManifest) := by
  have hsound := h.ledger_sound.jobs job _ (Store.toLedger_job hj)
  refine ⟨fun project now s' reply hexec hopen => ?_,
    fun s now failed s' sweep cancelRunning k hstop hpolicy hk hstops =>
      applySweepFailFast_marks hstop hpolicy hk hstops,
    fun hcancel w' hlater => ?_, fun hfinal w' hlater => ?_⟩
  · simp only [Op.exec, bind_ok, pure_pair_ok] at hexec
    obtain ⟨t, hrequest, rfl, -⟩ := hexec
    exact requestCancellation_marks hrequest hj hsound hopen
  · obtain ⟨j', hj', hkept⟩ := h.later_job hlater hj
    have hreached := h.later hlater
    have hmarked := hkept.cancelled hcancel
    refine ⟨⟨j', hj', ?_⟩, fun id a ha hjob => ?_⟩
    · exact (hreached.ledger_sound.jobs job _ (Store.toLedger_job hj')).cancelled.mp hmarked.1
    · exact h.ledger_sound.numbered.same_attempts hreached.ledger_sound.numbered
        (h.later_ledger hlater) (Store.toLedger_job hj) (Store.toLedger_job hj') hmarked.2 ha hjob
  · obtain ⟨j', hj', hkept⟩ := h.later_job hlater hj
    have hsame := hkept.final hfinal
    exact ⟨j', hj', (congrArg JobRow.state hsame :), (congrArg JobRow.acceptedAttempt hsame :),
      (congrArg JobRow.acceptedManifest hsame :)⟩

/-- The running job of the small control plane is cancelled, and stays so. -/
theorem sample_cancellation : ∃ (w : World) (j : JobRow), w.store.jobs.lookup 1 = some j ∧
    j.cancelRequested = true ∧ ∀ w', World.Later Sample.sha w w' →
      (∃ j', w'.store.jobs.lookup 1 = some j' ∧ (j'.state = .cancelling ∨ j'.state = .cancelled)) ∧
      ∀ id a, w'.store.attempts.lookup id = some a → a.job = 1 →
        w.store.attempts.lookup id ≠ none := by
  obtain ⟨w, hw, hp⟩ := Sample.reaches Sample.assigned_reachable [(second, .cancel 1 1)]
    (fun w => (w.store.jobs.lookup 1).any JobRow.cancelRequested) (by decide +kernel)
  rw [Option.any_eq_true] at hp
  obtain ⟨j, hj, hcancel⟩ := hp
  exact ⟨w, j, hj, hcancel, (cancellation_decides hw hj).2.2.1 hcancel⟩

end Dispatch
