import Mathlib.Data.List.Induction
import SegmentLog.Visible

/-!
Which transactions are committed. The outcome of a transaction in a list of records is the kind of
its last commit or rollback marker (`outcome?`), and what a reader sees is decided by these outcomes
alone (`Visible.records_eq`).
-/

namespace SegmentLog

/-- A marker that decides a transaction. -/
def Record.decides (r : Record) (txn : UInt64) : Bool :=
  r.txn = txn ∧ (r.kind = .txnCommit ∨ r.kind = .txnRollback)

/-- The kind of the last marker that decides a transaction. -/
def outcome? (log : List Record) (txn : UInt64) : Option Kind :=
  (log.filter (·.decides txn)).getLast?.map (·.kind)

/-- Whether a record of a log is shown to readers: writes outside transactions and in committed
ones, and all else outside transactions that is not a marker. -/
def shown (log : List Record) (r : Record) : Bool :=
  match r.kind with
  | .write => r.txn = 0 ∨ outcome? log r.txn = some .txnCommit
  | .commit | .abort | .checkpoint => r.txn = 0
  | .txnBegin | .txnCommit | .txnRollback => false

@[simp] theorem outcome?_nil (txn : UInt64) : outcome? [] txn = none := rfl

theorem outcome?_append (log later : List Record) (txn : UInt64) :
    outcome? (log ++ later) txn = (outcome? later txn).or (outcome? log txn) := by
  unfold outcome?
  rw [List.filter_append, List.getLast?_append]
  cases (later.filter (·.decides txn)).getLast? <;> rfl

theorem outcome?_singleton (r : Record) (txn : UInt64) :
    outcome? [r] txn = if r.decides txn then some r.kind else none := by
  unfold outcome?
  by_cases h : r.decides txn <;> simp [h]

theorem exists_of_outcome? {log : List Record} {txn : UInt64} {k : Kind}
    (h : outcome? log txn = some k) : ∃ r ∈ log, r.decides txn = true ∧ r.kind = k := by
  unfold outcome? at h
  obtain ⟨r, hr, hk⟩ := Option.map_eq_some_iff.mp h
  have hmem := List.mem_of_getLast? hr
  rw [List.mem_filter] at hmem
  exact ⟨r, hmem.1, hmem.2, hk⟩

/-- A record changes nothing for a transaction that it does not decide. -/
theorem shown_append_of_not_decides {log : List Record} {m r : Record}
    (hne : m.decides r.txn = false) : shown (log ++ [m]) r = shown log r := by
  unfold shown
  simp only [outcome?_append, outcome?_singleton, hne]
  rfl

/-- A record that is not the marker of an outcome changes nothing for others. -/
theorem shown_append_of_undecided {log : List Record} {m : Record} (hc : m.kind ≠ .txnCommit)
    (hr : m.kind ≠ .txnRollback) : shown (log ++ [m]) = shown log := by
  funext r
  apply shown_append_of_not_decides
  simp [Record.decides, hc, hr]

namespace Visible

theorem mem_committed_append (log : List Record) (r : Record) (txn : UInt64) :
    txn ∈ committed (log ++ [r]) ↔
      if r.decides txn then r.kind = .txnCommit else txn ∈ committed log := by
  have hfold : committed (log ++ [r]) = settle (committed log) r := by simp [committed]
  rw [hfold, settle]
  cases hk : r.kind <;> by_cases ht : r.txn = txn <;>
    simp [Record.decides, hk, ht, eq_comm (a := txn)]

/-- The committed transactions are those whose last outcome is a commit. -/
theorem mem_committed {log : List Record} {txn : UInt64} :
    txn ∈ committed log ↔ outcome? log txn = some .txnCommit := by
  induction log using List.reverseRecOn with
  | nil => simp [committed]
  | append_singleton log r ih =>
    rw [mem_committed_append, outcome?_append, outcome?_singleton, ih]
    by_cases hd : r.decides txn
    · simp [hd]
    · simp [hd]

theorem isSeen_eq (log : List Record) : isSeen (committed log) = shown log := by
  funext r
  have hzero : (r.txn == 0) = decide (r.txn = 0) := rfl
  unfold isSeen shown
  cases r.kind <;> simp [hzero, mem_committed]

theorem records_eq (log : List Record) : records log = log.filter (shown log) := by
  rw [records, isSeen_eq]

end Visible

end SegmentLog
