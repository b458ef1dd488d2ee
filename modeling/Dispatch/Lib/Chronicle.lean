import Mathlib.Tactic.Common

/-!
# Chronicles

Something that changes state may keep a chronicle: every change is recorded
under the next number, and the count of records is kept beside the state. A
chronicle tells the truth if the numbers recorded are exactly those up to the
count, and if reading the records in order, from the state everything starts
in, ends in the state at hand.

Reading is a partial function of the state found and the record, so that a
record made for another state than the one it meets ends the reading.
`Tells.record` is the one rule needed: a change together with the record of it,
under the next number, keeps a chronicle true.
-/

namespace Chronicle

variable {σ ε : Type}

/-- **The state after the first `n` records.** -/
def replay (next : σ → ε → Option σ) (start : σ) (records : ℕ → Option ε) : ℕ → Option σ
  | 0 => some start
  | n + 1 => do
    let state ← replay next start records n
    let record ← records (n + 1)
    next state record

/-- **A true chronicle**: no gap, nothing beyond the count, and the records tell
how the state came about. -/
structure Tells (next : σ → ε → Option σ) (start : σ) (records : ℕ → Option ε) (count : ℕ)
    (state : σ) : Prop where
  numbers : ∀ n, records n ≠ none ↔ 1 ≤ n ∧ n ≤ count
  replayed : replay next start records count = some state

variable {next : σ → ε → Option σ} {start state : σ} {records records' : ℕ → Option ε} {count : ℕ}

/-- What is read depends on the records that are read. -/
theorem replay_congr {m : ℕ} (h : ∀ n, n ≤ m → records' n = records n) :
    replay next start records' m = replay next start records m := by
  induction m with
  | zero => rfl
  | succ m ih =>
    rw [replay, replay, ih fun n hn => h n (Nat.le_succ_of_le hn), h (m + 1) (Nat.le_refl _)]

/-- Before the first record. -/
theorem Tells.empty (h : ∀ n, records n = none) : Tells next start records 0 start where
  numbers n := by
    rw [h n]
    constructor
    · exact fun hne => absurd rfl hne
    · exact fun hn => absurd (Nat.le_trans hn.1 hn.2) (by decide)
  replayed := rfl

/-- **A change is recorded under the next number.** -/
theorem Tells.record {record : ε} {after : σ} (h : Tells next start records count state)
    (hnext : next state record = some after)
    (hrecords : ∀ n, records' n = if n = count + 1 then some record else records n) :
    Tells next start records' (count + 1) after where
  numbers n := by
    rw [hrecords n]
    by_cases hn : n = count + 1
    · subst hn
      simp
    · rw [if_neg hn, h.numbers n]
      omega
  replayed := by
    have hbefore : ∀ n, n ≤ count → records' n = records n := fun n hn => by
      rw [hrecords n, if_neg (by omega)]
    rw [replay, replay_congr hbefore, h.replayed, hrecords (count + 1), if_pos rfl]
    exact hnext

end Chronicle
