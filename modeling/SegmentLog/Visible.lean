import SegmentLog.Record

/-!
Which records of a log a reader sees. A transaction is committed when the last marker of its
outcome is a commit, wherever in the log that marker stands. Seen are the writes of committed
transactions and everything outside transactions, without the markers.
-/

namespace SegmentLog.Visible

def settle (committed : List UInt64) (r : Record) : List UInt64 :=
  match r.kind with
  | .txnCommit => r.txn :: committed
  | .txnRollback => committed.filter (· ≠ r.txn)
  | _ => committed

/-- The transactions whose last outcome is a commit. -/
def committed (records : List Record) : List UInt64 := records.foldl settle []

/-- Whether a record is seen when these transactions are committed. -/
def isSeen (committed : List UInt64) (r : Record) : Bool :=
  match r.kind with
  | .write => r.txn == 0 || committed.contains r.txn
  | .commit | .abort | .checkpoint => r.txn == 0
  | .txnBegin | .txnCommit | .txnRollback => false

def records (log : List Record) : List Record := log.filter (isSeen (committed log))

end SegmentLog.Visible
