import SegmentLog.Shell.Arguments
import SegmentLog.Shell.Table
import SegmentLog.Ticket

/-!
The commands of the command line. Each opens the log, does one thing and closes the log again,
whatever came of it; the transaction that is open between two commands is remembered by a ticket
in the folder of the log.
-/

namespace SegmentLog.Shell

/-- What came of a command: its answer and what it printed. -/
structure Outcome where
  answer : Except Error Unit
  output : String := ""

/-- What a command line comes to: the exit code, what it printed, and the error it ended with. -/
structure Result where
  exit : Nat
  output : String := ""
  error : Option Error := none

/-- Opens a log, acts on it and closes it. An error of the action counts before one of the closing. -/
def withLog (d : Disk) (settings : Settings) (action : Log → Disk → Outcome × Log × Disk) :
    Outcome × Disk :=
  match Log.start d settings with
  | (.error e, d) => ({ answer := .error e }, d)
  | (.ok l, d) =>
    match action l d with
    | (outcome, l, d) =>
      match outcome.answer, l.close d with
      | .error _, (_, _, d) => (outcome, d)
      | .ok _, (closed, _, d) => ({ outcome with answer := closed }, d)

/-! ## Actions on a log -/

def writeAction (key value : String) (l : Log) (d : Disk) : Outcome × Log × Disk :=
  match l.write d 0 (Text.toOctets key) (Text.toOctets value) with
  | (.error e, l, d) => ({ answer := .error e }, l, d)
  | (.ok sequence, l, d) =>
    ({ answer := .ok ()
       output := lines [s!"Wrote record: LSN={sequence}, key={key}, value={value}"] }, l, d)

def readAction (l : Log) (d : Disk) : Outcome × Log × Disk :=
  match l.readAll d with
  | (.error e, l, d) => ({ answer := .error e }, l, d)
  | (.ok records, l, d) => ({ answer := .ok (), output := table records }, l, d)

/-- A write is flushed before it is reported. -/
def txWriteAction (txn : UInt64) (key value : String) (l : Log) (d : Disk) :
    Outcome × Log × Disk :=
  match l.write d txn (Text.toOctets key) (Text.toOctets value) with
  | (.error e, l, d) => ({ answer := .error e }, l, d)
  | (.ok sequence, l, d) =>
    match l.sync d with
    | (.error e, l, d) => ({ answer := .error e }, l, d)
    | (.ok _, l, d) =>
      ({ answer := .ok ()
         output :=
          lines [s!"Wrote record: LSN={sequence}, TxID={txn}, key={key}, value={value}"] }, l, d)

/-- The number clears every transaction that the log mentions. -/
def beginAction (folder : String) (l : Log) (d : Disk) : Outcome × Log × Disk :=
  match Ticket.begin d folder l.nextTxn with
  | (.error e, d) => ({ answer := .error e }, l, d)
  | (.ok txn, d) =>
    ({ answer := .ok (), output := lines [s!"Started new transaction {txn}"] }, l, d)

def statusAction (folder : String) (l : Log) (d : Disk) : Outcome × Log × Disk :=
  match Ticket.current d folder with
  | .error e => ({ answer := .error e, output := lines (statusLines l) }, l, d)
  | .ok txn => ({ answer := .ok (), output := lines (statusLines l ++ [ticketLine txn]) }, l, d)

def commitAction (txn : UInt64) (l : Log) (d : Disk) : Outcome × Log × Disk :=
  match l.commit d txn with
  | (answer, l, d) => ({ answer }, l, d)

def abortAction (txn : UInt64) (l : Log) (d : Disk) : Outcome × Log × Disk :=
  match l.abort d txn with
  | (answer, l, d) => ({ answer }, l, d)

/-! ## Commands -/

/-- The transaction that is open; without one there is nothing to do. -/
def openTxn (d : Disk) (folder advice : String) : Except Error UInt64 :=
  match Ticket.current d folder with
  | .error e => .error e
  | .ok none => .error (.ticket (.noneOpen advice))
  | .ok (some txn) => .ok txn

/-- Ends the open transaction by a step on the log. A transaction that the log does not know has
written nothing, and ends all the same. -/
def finishTxn (folder : String) (txn : UInt64) (ended unknown : String)
    (step : Outcome × Disk) : Outcome × Disk :=
  match step with
  | ({ answer := .error (.notActive _), .. }, d) =>
    match Ticket.finish d folder txn with
    | (answer, d) => ({ answer, output := lines [unknown] }, d)
  | ({ answer := .error e, .. }, d) => ({ answer := .error e }, d)
  | ({ answer := .ok _, .. }, d) =>
    match Ticket.finish d folder txn with
    | (answer, d) => ({ answer, output := lines [ended] }, d)

def runCommand (d : Disk) (folder : String) (settings : Settings) : Command → Outcome × Disk
  | .write key value => withLog d settings (writeAction key value)
  | .read => withLog d settings readAction
  | .beginTx =>
    match withLog d settings (beginAction folder) with
    | ({ answer := .error e, .. }, d) => ({ answer := .error e }, d)
    | (outcome, d) => (outcome, d)
  | .txWrite key value =>
    match openTxn d folder "use 'begin-tx' first" with
    | .error e => ({ answer := .error e }, d)
    | .ok txn => withLog d settings (txWriteAction txn key value)
  | .commit =>
    match openTxn d folder "nothing to commit" with
    | .error e => ({ answer := .error e }, d)
    | .ok txn =>
      finishTxn folder txn s!"Committed transaction {txn}"
        s!"Transaction {txn} has no logged writes; nothing to commit"
        (withLog d settings (commitAction txn))
  | .abort =>
    match openTxn d folder "nothing to abort" with
    | .error e => ({ answer := .error e }, d)
    | .ok txn =>
      finishTxn folder txn s!"Aborted transaction {txn}"
        s!"Transaction {txn} has no logged writes; discarded"
        (withLog d settings (abortAction txn))
  | .status => withLog d settings (statusAction folder)

/-- Runs a command after its folder was made and its absolute path found. -/
def runIn (d : Disk) (i : Invocation) : Outcome × Disk :=
  let given := i.options.folderText
  match d.makeFolders given with
  | (.error f, d) => ({ answer := .error (.io .createFolder given f) }, d)
  | (.ok _, d) =>
    match d.resolve given with
    | .error f => ({ answer := .error (.io .resolveFolder given f) }, d)
    | .ok folder => runCommand d folder (i.options.toSettings folder) i.command

def version : String := "0.1.0"

def versionText : String := lines ["wald " ++ version]

def helpText : String :=
  lines
    [ "Segmented write-ahead log with transactions",
      "",
      "Usage: wald [OPTIONS] <COMMAND>",
      "",
      "Commands:",
      "  write <KEY> <VALUE>     Write a key-value pair outside any transaction",
      "  read                    Print every committed record",
      "  begin-tx                Begin a new transaction",
      "  tx-write <KEY> <VALUE>  Write a key-value pair in the open transaction",
      "  commit                  Commit the open transaction",
      "  abort                   Abort the open transaction",
      "  status                  Show recovery state",
      "",
      "Options:",
      "  -d, --dir <DIR>               Directory holding the WAL segments",
      "      --sync <SYNC>             Fsync after every write (true or false)",
      "      --segment-size <BYTES>    Maximum size of each segment file",
      "      --buffer-size <BYTES>     Size of the write buffer",
      "      --flush-interval-ms <MS>  Interval of the background flusher",
      "      --truncate-tail           Cut a damaged log tail on open",
      "  -h, --help                    Print help",
      "  -V, --version                 Print version" ]

/-- Runs an invocation; an error gives exit code 1. -/
def runInvocation (d : Disk) (i : Invocation) : Result × Disk :=
  match runIn d i with
  | ({ answer := .ok _, output }, d) => ({ exit := 0, output }, d)
  | ({ answer := .error e, output }, d) => ({ exit := 1, output, error := some e }, d)

def Stop.result : Stop → Result
  | .version => { exit := 0, output := versionText }
  | .help => { exit := 0, output := helpText }
  | .misuse => { exit := 2 }

def run (d : Disk) (words : List String) : Result × Disk :=
  match parse words with
  | .error stop => (stop.result, d)
  | .ok i => runInvocation d i

end SegmentLog.Shell
