import SegmentLog.Disk
import SegmentLog.Error

/-!
A ticket remembers on disk which one transaction a user has open, from one run of the command
line to the next. It is independent of the table of a log. Its file holds nine octets, whether
the transaction is open and its number, and is replaced as a whole: the new octets go to a
scratch file that is then renamed. Numbers are never given out twice, whatever became of their
transaction.
-/

namespace SegmentLog

/-- The last transaction begun, and whether it is still open. -/
structure Ticket where
  isOpen : Bool := false
  last : UInt64 := 0
  deriving DecidableEq, Repr

namespace Ticket

/-- The file of the ticket, inside the folder of the log. -/
def fileName : String := ".txstate"

/-- The file that a new ticket is written to before it takes the place of the old one. -/
def scratchName : String := fileName ++ ".tmp"

def place (folder : String) : Place := ⟨folder, fileName⟩

def scratch (folder : String) : Place := ⟨folder, scratchName⟩

/-! ## On disk -/

def toOctets (t : Ticket) : Octets :=
  (if t.isOpen then 1 else 0) :: Octets.littleEndian 8 t.last.toNat

/-- The ticket at the front of `bs`; what follows it is ignored. -/
def ofOctets : Octets → Except TicketFlaw Ticket
  | [] => .error .unexpectedEnd
  | flag :: rest =>
    if flag ≠ 0 ∧ flag ≠ 1 then .error (.invalidFlag flag)
    else if rest.length < 8 then .error .unexpectedEnd
    else
      .ok { isOpen := flag = 1, last := UInt64.ofNat (Octets.ofLittleEndian (rest.take 8)) }

def size : Nat := 9

/-- The ticket of a folder; a missing file stands for one that was never used. -/
def load (d : Disk) (folder : String) : Except Error Ticket :=
  match d.readStart (place folder) size with
  | .error .notFound => .ok {}
  | .error f => .error (.io .readTicket (place folder).path f)
  | .ok bs =>
    match ofOctets bs with
    | .error flaw => .error (.undecodable flaw)
    | .ok t => .ok t

def store (d : Disk) (folder : String) (t : Ticket) : Except Error Unit × Disk :=
  match d.writeFile (scratch folder) t.toOctets with
  | (.error f, d) => (.error (.io .writeTicket (scratch folder).path f), d)
  | (.ok _, d) =>
    match d.rename (scratch folder) (place folder) with
    | .error f => (.error (.io .replaceTicket (place folder).path f), d)
    | .ok d => (.ok (), d)

/-! ## One open transaction -/

/-- Opens a transaction, unless one is open. Its number is above all earlier ones and not below
`floor`. -/
def begin (d : Disk) (folder : String) (floor : UInt64) : Except Error UInt64 × Disk :=
  match load d folder with
  | .error e => (.error e, d)
  | .ok t =>
    if t.isOpen then (.error (.ticket (.alreadyOpen t.last)), d)
    else
      let id := max (t.last + 1) floor
      match store d folder { isOpen := true, last := id } with
      | (.error e, d) => (.error e, d)
      | (.ok _, d) => (.ok id, d)

def finish (d : Disk) (folder : String) (txn : UInt64) : Except Error Unit × Disk :=
  match load d folder with
  | .error e => (.error e, d)
  | .ok t =>
    if t.isOpen = false ∨ t.last ≠ txn then (.error (.ticket (.notOpen txn)), d)
    else store d folder { t with isOpen := false }

def current (d : Disk) (folder : String) : Except Error (Option UInt64) :=
  match load d folder with
  | .error e => .error e
  | .ok t => .ok (if t.isOpen then some t.last else none)

end Ticket

end SegmentLog
