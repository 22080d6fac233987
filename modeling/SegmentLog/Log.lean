import SegmentLog.Appender
import SegmentLog.Replay
import SegmentLog.Visible

/-!
A write-ahead log over a folder of segments. It numbers the records it adds, keeps the table of
live transactions and shows only what is committed. A record gets the number after the last one,
and a record that cannot be added does not use its number up. Writes may name any transaction:
another process may have begun it.

Every operation answers together with the log and the disk after it.
-/

namespace SegmentLog

structure Log where
  settings : Settings
  appender : Appender
  /-- The highest sequence number given out. -/
  lastSequence : UInt64
  transactions : Transactions
  closed : Bool := false
  report : Report
  deriving DecidableEq, Repr

namespace Log

/-- The log that a replay leaves behind. -/
def ofReport (settings : Settings) (a : Appender) (report : Report) : Log where
  settings
  appender := a
  lastSequence := report.lastSequence
  transactions := Transactions.ofActive (report.lastTxn + 1) report.active
  report

/-- Opens a log, creating what is missing: the last segment is opened for appending, the log is
replayed, and a damaged tail is cut off where the policy says so. -/
def start (d : Disk) (settings : Settings) : Except Error Log × Disk :=
  match settings.validate with
  | .error e => (.error e, d)
  | .ok _ =>
    match Appender.start d settings with
    | (.error e, d) => (.error e, d)
    | (.ok a, d) =>
      match Cursor.start d settings.folder with
      | .error e => (.error e, d)
      | .ok c =>
        match Replay.run d c settings.policy with
        | .error e => (.error e, d)
        | .ok report =>
          match report.cutAt with
          | none => (.ok (ofReport settings a report), d)
          | some (id, offset) =>
            match a.cut d id offset with
            | (.error e, _, d) => (.error e, d)
            | (.ok _, a, d) => (.ok (ofReport settings a report), d)

def currentSegment (l : Log) : UInt64 := l.appender.active.id

def nextSequence (l : Log) : UInt64 := l.lastSequence + 1

def nextTxn (l : Log) : UInt64 := l.transactions.nextId

def add (l : Log) (d : Disk) (r : Record) (force : Bool) : Except Error UInt64 × Log × Disk :=
  if l.closed then (.error .closed, l, d)
  else
    match l.appender.append d r force with
    | (.error e, a, d) => (.error e, { l with appender := a }, d)
    | (.ok sequence, a, d) =>
      (.ok sequence, { l with appender := a, lastSequence := sequence }, d)

/-! ## Records -/

/-- Writes a key and its value. Outside transactions the record is flushed. -/
def write (l : Log) (d : Disk) (txn : UInt64) (key value : Octets) :
    Except Error UInt64 × Log × Disk :=
  l.add d (Record.write l.nextSequence txn key value) (txn == 0)

def checkpoint (l : Log) (d : Disk) : Except Error UInt64 × Log × Disk :=
  l.add d (Record.marker .checkpoint l.nextSequence 0) true

/-! ## Transactions -/

/-- Begins a transaction. Nothing is logged, so one that never writes leaves no trace. -/
def begin (l : Log) : Except Error UInt64 × Log :=
  if l.closed then (.error .closed, l)
  else
    match l.transactions.start with
    | (id, ts) => (.ok id, { l with transactions := ts })

/-- Commits an active transaction by a flushed marker. If the marker cannot be added the
transaction is active again. -/
def commit (l : Log) (d : Disk) (txn : UInt64) : Except Error Unit × Log × Disk :=
  match l.transactions.startCommit txn with
  | .error e => (.error e, l, d)
  | .ok ts =>
    let l := { l with transactions := ts }
    match l.add d (Record.marker .txnCommit l.nextSequence txn) true with
    | (.error e, l, d) => (.error e, { l with transactions := l.transactions.revertCommit txn }, d)
    | (.ok _, l, d) => (.ok (), { l with transactions := l.transactions.finishCommit txn }, d)

/-- Aborts an active transaction. Its marker is not flushed: without an outcome a transaction is
just as invisible. -/
def abort (l : Log) (d : Disk) (txn : UInt64) : Except Error Unit × Log × Disk :=
  match l.transactions.takeForAbort txn with
  | .error e => (.error e, l, d)
  | .ok (t, ts) =>
    let l := { l with transactions := ts }
    match l.add d (Record.marker .txnRollback l.nextSequence txn) false with
    | (.error e, l, d) => (.error e, { l with transactions := l.transactions.restore t }, d)
    | (.ok _, l, d) => (.ok (), l, d)

/-! ## Reading -/

def recordsOf (d : Disk) (folder : String) : Except Error (List Record) :=
  match Cursor.start d folder with
  | .error e => .error e
  | .ok c =>
    let scan := c.scan d
    match scan.stop with
    | some e => .error e
    | none => .ok scan.records

/-- Every visible record in the order of the log; what is buffered is flushed first. -/
def readAll (l : Log) (d : Disk) : Except Error (List Record) × Log × Disk :=
  if l.closed then (.error .closed, l, d)
  else
    match l.appender.flush d with
    | (.error e, a, d) => (.error e, { l with appender := a }, d)
    | (.ok _, a, d) =>
      match recordsOf d l.settings.folder with
      | .error e => (.error e, { l with appender := a }, d)
      | .ok log => (.ok (Visible.records log), { l with appender := a }, d)

/-! ## Flushing and closing -/

def sync (l : Log) (d : Disk) : Except Error Unit × Log × Disk :=
  if l.closed then (.error .closed, l, d)
  else
    match l.appender.flush d with
    | (answer, a, d) => (answer, { l with appender := a }, d)

def tick (l : Log) (d : Disk) : Log × Disk :=
  match l.appender.tick d with
  | (a, d) => ({ l with appender := a }, d)

def close (l : Log) (d : Disk) : Except Error Unit × Log × Disk :=
  if l.closed then (.ok (), l, d)
  else
    match l.appender.close d with
    | (answer, a, d) => (answer, { l with appender := a, closed := true }, d)

/-- Lets go of a log, which closes it if that was not done; nobody is told of a failure. -/
def drop (l : Log) (d : Disk) : Disk := (l.appender.close d).2.2

end Log

end SegmentLog
