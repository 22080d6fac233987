import SegmentLog.Cursor
import SegmentLog.Settings
import SegmentLog.Transactions

/-!
Opening a log replays it: every record is read once, the highest numbers are noted, and the
transactions without an outcome are collected. A transaction enters with its begin marker, or
with its first write where the log has no begin markers, and leaves with a marker of its
outcome.
-/

namespace SegmentLog

structure Report where
  scanned : Nat := 0
  lastSequence : UInt64 := 0
  lastTxn : UInt64 := 0
  /-- Transactions without an outcome, ascending. -/
  active : List UInt64 := []
  /-- Segment and offset where the log was cut. -/
  cutAt : Option (UInt64 × Nat) := none
  deriving DecidableEq, Repr

namespace Replay

def insertId (id : UInt64) : List UInt64 → List UInt64
  | [] => [id]
  | other :: rest =>
    if id < other then id :: other :: rest
    else if id = other then other :: rest
    else other :: insertId id rest

def track (active : List UInt64) (r : Record) : List UInt64 :=
  match r.kind with
  | .txnBegin => insertId r.txn active
  | .txnCommit | .txnRollback => active.filter (· ≠ r.txn)
  | .write => if r.txn = 0 then active else insertId r.txn active
  | _ => active

def step (report : Report) (r : Record) : Report :=
  { report with
    scanned := report.scanned + 1
    lastSequence := max report.lastSequence r.sequence
    lastTxn := max report.lastTxn r.txn
    active := track report.active r }

def ofRecords (records : List Record) : Report := records.foldl step {}

/-- Replays a log from its first record. Damage is refused, or ends the replay, as the policy
says; a refused file operation is always passed on. -/
def run (d : Disk) (c : Cursor) (policy : DamagePolicy) : Except Error Report :=
  let scan := c.scan d
  let report := ofRecords scan.records
  match scan.stop with
  | none => .ok report
  | some e =>
    if policy = .truncateTail ∧ e.isDamage = true then
      .ok { report with cutAt := scan.cursor.position }
    else .error e

end Replay

end SegmentLog
