import SegmentLog.Fault
import SegmentLog.Text

/-!
Why an operation on the log failed, and the one place where a cause is put into words. A cause
counts as corruption when octets on disk are wrong, as truncation when the log ends inside a
record; no cause is both (`not_isCorruption_of_isTruncation`).
-/

namespace SegmentLog

inductive Activity
  | createFolder
  | resolveFolder
  | listSegments
  | openSegment
  | flushSegment
  | syncSegment
  | truncateSegment
  | removeSegment
  | readHeader
  | readPayload
  | readTicket
  | writeTicket
  | replaceTicket
  | other (name : String)
  deriving DecidableEq, Repr

def Activity.name : Activity → String
  | createFolder => "create WAL directory"
  | resolveFolder => "resolve WAL directory"
  | listSegments => "list segments"
  | openSegment => "open segment"
  | flushSegment => "flush segment"
  | syncSegment => "sync segment"
  | truncateSegment => "truncate segment"
  | removeSegment => "remove segment"
  | readHeader => "read record header"
  | readPayload => "read record payload"
  | readTicket => "read tracker state"
  | writeTicket => "write tracker state"
  | replaceTicket => "replace tracker state"
  | other name => name

inductive SettingsFlaw
  | emptyFolder
  /-- A segment could not hold even one header. -/
  | limitTooSmall (least limit : Nat)
  | zeroInterval
  | other (text : String)
  deriving DecidableEq, Repr

def SettingsFlaw.message : SettingsFlaw → String
  | emptyFolder => "WAL directory must not be empty"
  | limitTooSmall least limit => s!"max_segment_bytes must be at least {least} (got {limit})"
  | zeroInterval => "flush_interval must be non-zero"
  | other text => text

inductive TicketConflict
  | alreadyOpen (txn : UInt64)
  | notOpen (txn : UInt64)
  | noneOpen (advice : String)
  | other (text : String)
  deriving DecidableEq, Repr

def TicketConflict.message : TicketConflict → String
  | alreadyOpen txn => s!"transaction {txn} is already active"
  | notOpen txn => s!"no active transaction with id {txn}"
  | noneOpen advice => s!"no active transaction - {advice}"
  | other text => text

inductive TicketFlaw
  | unexpectedEnd
  | invalidFlag (octet : UInt8)
  | other (text : String)
  deriving DecidableEq, Repr

def TicketFlaw.message : TicketFlaw → String
  | unexpectedEnd => "tracker state: io error: unexpected end of file"
  | invalidFlag octet =>
    s!"tracker state: invalid u8 while decoding bool, expected 0 or 1, found {octet}"
  | other text => text

inductive Error
  | io (during : Activity) (path : String) (fault : Fault)
  | shortBuffer (length needed : Nat)
  /-- Too few octets for the payload the header declares. -/
  | unexpectedEnd (length needed : Nat)
  | checksumMismatch (stored computed : UInt32)
  | unknownKind (tag : UInt8)
  | fieldTooLarge (field : String) (length most : Nat)
  | corruption (path : String) (offset : Nat) (cause : Error)
  /-- The segment ends inside the record at this offset. -/
  | truncated (path : String) (offset needed found : Nat)
  | closed
  | notActive (txn : UInt64)
  | ticket (conflict : TicketConflict)
  | undecodable (flaw : TicketFlaw)
  | settings (flaw : SettingsFlaw)
  deriving DecidableEq, Repr

namespace Error

def message : Error → String
  | io during path fault => s!"IO error during {during.name} on {path}: {fault.message}"
  | shortBuffer length needed => s!"short buffer: {length} bytes, record header needs {needed}"
  | unexpectedEnd length needed =>
    s!"unexpected end of record: need {needed} bytes, have {length}"
  | checksumMismatch stored computed =>
    "checksum mismatch: stored " ++ Text.hexWord stored ++ ", computed " ++ Text.hexWord computed
  | unknownKind tag => s!"unknown record type tag {tag}"
  | fieldTooLarge field length most => s!"{field} too large: {length} bytes (max {most})"
  | corruption path offset cause =>
    s!"WAL corruption in {path} at offset {offset}: {cause.message}"
  | truncated path offset needed found =>
    s!"WAL truncated in {path} at offset {offset}: need {needed} bytes, found {found}"
  | closed => "WAL is closed"
  | notActive txn => s!"invalid or inactive transaction {txn}"
  | ticket conflict => s!"transaction tracker: {conflict.message}"
  | undecodable flaw => s!"Serialization error: {flaw.message}"
  | settings flaw => s!"Configuration error: {flaw.message}"

def isCorruption : Error → Bool
  | corruption .. | checksumMismatch .. | unknownKind .. => true
  | _ => false

/-- The log ends inside a record, as after a torn write. -/
def isTruncation : Error → Bool
  | truncated .. | shortBuffer .. | unexpectedEnd .. => true
  | _ => false

/-- What a damaged log is refused for: corruption or truncation, not a refused file operation. -/
def isDamage (e : Error) : Bool := e.isCorruption || e.isTruncation

def isIo : Error → Bool
  | io .. => true
  | _ => false

theorem not_isCorruption_of_isTruncation {e : Error} (h : e.isTruncation = true) :
    e.isCorruption = false := by
  cases e <;> simp_all [isCorruption, isTruncation]

end Error

end SegmentLog
