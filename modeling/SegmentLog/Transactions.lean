import SegmentLog.Error

/-!
The table of live transactions, with the number the next one gets. A transaction is live from
its beginning until it is committed or aborted. While the marker of its outcome is being
written it is committing or out of the table, and it is put back if that fails.
-/

namespace SegmentLog

inductive Phase
  | active
  | committing
  | committed
  | aborted
  deriving DecidableEq, Repr

namespace Phase

/-- A transaction stays as it is in these phases. -/
def isTerminal : Phase → Bool
  | committed | aborted => true
  | _ => false

def name : Phase → String
  | active => "Active"
  | committing => "Committing"
  | committed => "Committed"
  | aborted => "Aborted"

/-- The phase as a word in a sentence. -/
def word : Phase → String
  | active => "active"
  | committing => "committing"
  | committed => "committed"
  | aborted => "aborted"

end Phase

structure Transaction where
  id : UInt64
  phase : Phase := .active
  deriving DecidableEq, Repr

/-- Live transactions by ascending number. -/
structure Transactions where
  nextId : UInt64
  live : List Transaction
  deriving DecidableEq, Repr

namespace Transactions

def ofActive (nextId : UInt64) (active : List UInt64) : Transactions where
  nextId := if nextId = 0 then 1 else nextId
  live := active.map ({ id := · })

/-- Puts a transaction in its place, instead of one of the same number. -/
def put (t : Transaction) : List Transaction → List Transaction
  | [] => [t]
  | u :: rest =>
    if t.id < u.id then t :: u :: rest
    else if t.id = u.id then t :: rest
    else u :: put t rest

def find? (ts : Transactions) (id : UInt64) : Option Transaction :=
  ts.live.find? (·.id = id)

/-- The phase of a live transaction. -/
def phase? (ts : Transactions) (id : UInt64) : Option Phase := (ts.find? id).map (·.phase)

def activeIds (ts : Transactions) : List UInt64 :=
  (ts.live.filter (·.phase = .active)).map (·.id)

def erase (ts : Transactions) (id : UInt64) : Transactions :=
  { ts with live := ts.live.filter (·.id ≠ id) }

/-- Changes the phase of a transaction, if it is live. -/
def setPhase (ts : Transactions) (id : UInt64) (phase : Phase) : Transactions :=
  { ts with live := ts.live.map fun t => if t.id = id then { t with phase } else t }

def start (ts : Transactions) : UInt64 × Transactions :=
  (ts.nextId, { nextId := ts.nextId + 1, live := put { id := ts.nextId } ts.live })

def startCommit (ts : Transactions) (id : UInt64) : Except Error Transactions :=
  if ts.phase? id = some .active then .ok (ts.setPhase id .committing)
  else .error (.notActive id)

/-- Back to active, when the marker of the commit could not be written. -/
def revertCommit (ts : Transactions) (id : UInt64) : Transactions := ts.setPhase id .active

def finishCommit (ts : Transactions) (id : UInt64) : Transactions := ts.erase id

/-- Takes an active transaction out of the table, for aborting it. -/
def takeForAbort (ts : Transactions) (id : UInt64) : Except Error (Transaction × Transactions) :=
  if ts.phase? id = some .active then .ok ({ id, phase := .aborted }, ts.erase id)
  else .error (.notActive id)

/-- Puts a transaction back, when the marker of its rollback could not be written. -/
def restore (ts : Transactions) (t : Transaction) : Transactions :=
  { ts with live := put { t with phase := .active } ts.live }

end Transactions

end SegmentLog
