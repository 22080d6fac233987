import SegmentLog.Octets

/-!
Records, the atoms of the log. A record belongs to transaction 0 when it belongs to none. The
three markers say what became of a transaction; readers of the log never see them.
-/

namespace SegmentLog

inductive Kind
  | write
  | commit
  | abort
  | checkpoint
  | txnBegin
  | txnCommit
  | txnRollback
  deriving DecidableEq, Repr

namespace Kind

/-- The octet that stands for a kind on disk. -/
def tag : Kind → UInt8
  | write => 1
  | commit => 2
  | abort => 3
  | checkpoint => 4
  | txnBegin => 5
  | txnCommit => 6
  | txnRollback => 7

def ofTag? (octet : UInt8) : Option Kind :=
  if octet = 1 then some write
  else if octet = 2 then some commit
  else if octet = 3 then some abort
  else if octet = 4 then some checkpoint
  else if octet = 5 then some txnBegin
  else if octet = 6 then some txnCommit
  else if octet = 7 then some txnRollback
  else none

/-- Markers tell the life of a transaction. -/
def isMarker : Kind → Bool
  | txnBegin | txnCommit | txnRollback => true
  | _ => false

def name : Kind → String
  | write => "Write"
  | commit => "Commit"
  | abort => "Abort"
  | checkpoint => "Checkpoint"
  | txnBegin => "TxnBegin"
  | txnCommit => "TxnCommit"
  | txnRollback => "TxnRollback"

@[simp] theorem ofTag?_tag (k : Kind) : ofTag? k.tag = some k := by
  cases k <;> rfl

theorem tag_of_ofTag? {octet : UInt8} {k : Kind} (h : ofTag? octet = some k) : k.tag = octet := by
  simp only [ofTag?] at h
  repeat' split at h
  all_goals first | contradiction | (cases h; simp [tag, *])

end Kind

structure Record where
  /-- Place in the order of the whole log. -/
  sequence : UInt64
  /-- Owning transaction, 0 for none. -/
  txn : UInt64
  kind : Kind
  flags : UInt8 := 0
  key : Octets := []
  value : Octets := []
  deriving DecidableEq, Repr

namespace Record

def write (sequence txn : UInt64) (key value : Octets) : Record :=
  { sequence, txn, kind := .write, key, value }

def marker (kind : Kind) (sequence txn : UInt64) : Record :=
  { sequence, txn, kind }

def payload (r : Record) : Octets := r.key ++ r.value

end Record

end SegmentLog
