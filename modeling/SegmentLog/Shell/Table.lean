import SegmentLog.Log
import SegmentLog.Text.Utf8

/-!
The lines a command prints: records as a table of columns, and what is known of a log.
-/

namespace SegmentLog.Shell

def lines (ls : List String) : String := String.join (ls.map (· ++ "\n"))

/-- Four columns of fixed width and a last one as it comes. -/
def row (sequence txn kind key value : String) : String :=
  Text.column 8 sequence ++ " | " ++ Text.column 5 txn ++ " | " ++ Text.column 10 kind ++
    " | " ++ Text.column 16 key ++ " | " ++ value

/-- The line under the heads of the columns. -/
def rule : String :=
  let dashes (n : Nat) := String.ofList (List.replicate n '-')
  "-|-".intercalate [dashes 8, dashes 5, dashes 10, dashes 16, dashes 16]

def recordRow (r : Record) : String :=
  row (toString r.sequence) (toString r.txn) r.kind.name (Text.ofOctets r.key)
    (Text.ofOctets r.value)

def table (records : List Record) : String :=
  lines (["Records in WAL:", row "LSN" "TxID" "Type" "Key" "Value", rule] ++
    records.map recordRow)

def idList (ids : List UInt64) : String := "[" ++ ", ".intercalate (ids.map toString) ++ "]"

/-- What is known of a log. -/
def statusLines (l : Log) : List String :=
  [ "Directory:            " ++ l.settings.folder,
    "Active segment:       " ++ toString l.currentSegment,
    "Records scanned:      " ++ toString l.report.scanned,
    "Last sequence:        " ++ toString l.lastSequence,
    "Next transaction id:  " ++ toString l.nextTxn,
    "Unresolved txns:      " ++ idList l.transactions.activeIds ] ++
  match l.report.cutAt with
  | some (id, offset) => [s!"Truncated at:         segment {id} offset {offset}"]
  | none => []

/-- The transaction that a ticket holds open. -/
def ticketLine (txn : Option UInt64) : String :=
  "CLI transaction:      " ++
    match txn with
    | some id => toString id
    | none => "none"

end SegmentLog.Shell
