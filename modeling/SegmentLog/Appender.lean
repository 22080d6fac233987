import SegmentLog.Segment
import SegmentLog.Settings

/-!
An appender adds records at the end of a log, in the segment of the highest number. Octets pass
through a buffer, which is written out when it is asked for, when it has grown to its limit, on
every append in sync mode, before a new segment is begun, at the ticks of a clock, and on
closing. A record that would grow a segment past its limit begins a new one; an empty segment
takes a record of any length, and no record is split.

A flush that fails lets go of the file. The next flush with something to write opens it again and
cuts it back to the length known to be written. Until then what was written stands in the file: all
of it, when only the sync was refused.

Every operation answers together with the appender and the disk after it.
-/

namespace SegmentLog

structure Appender where
  folder : String
  active : Segment
  /-- The active segment opened for writing; nothing after a failed flush and after closing. -/
  file : Option Node
  /-- Length of the active segment, what is buffered included. -/
  offset : Nat
  buffer : Octets := []
  segmentLimit : Nat
  bufferLimit : Nat
  sync : Bool
  closed : Bool := false
  deriving DecidableEq, Repr

namespace Appender

def path (a : Appender) : String := a.active.path a.folder

/-- Octets of the active segment that are known to be written. -/
def settled (a : Appender) : Nat := a.offset - a.buffer.length

def openSegment (d : Disk) (folder : String) (s : Segment) : Except Error (Node × Nat × Disk) :=
  match d.openWrite (s.place folder) with
  | .error f => .error (.io .openSegment (s.path folder) f)
  | .ok (n, d) => .ok (n, d.size n, d)

/-- The segment of the highest number, the first one where there is none. -/
def lastOf (segments : List Segment) : Segment :=
  segments.getLast?.getD (Segment.ofId Segment.firstId)

/-- Opens the last segment of a folder; folder and segment are created when they are missing. -/
def start (d : Disk) (settings : Settings) : Except Error Appender × Disk :=
  match d.makeFolders settings.folder with
  | (.error f, d) => (.error (.io .createFolder settings.folder f), d)
  | (.ok _, d) =>
    match Segment.list d settings.folder with
    | .error e => (.error e, d)
    | .ok segments =>
      match openSegment d settings.folder (lastOf segments) with
      | .error e => (.error e, d)
      | .ok (n, offset, d) =>
        (.ok
          { folder := settings.folder
            active := lastOf segments
            file := some n
            offset
            segmentLimit := settings.segmentLimit
            bufferLimit := settings.bufferLimit
            sync := settings.sync }, d)

/-! ## Flushing -/

/-- Opens the active segment again and cuts off whatever a failed flush left behind. -/
def reopen (a : Appender) (d : Disk) : Except Error Node × Disk :=
  match openSegment d a.folder a.active with
  | .error e => (.error e, d)
  | .ok (n, _, d) =>
    match d.resize n a.settled with
    | .error f => (.error (.io .truncateSegment a.path f), d)
    | .ok d => (.ok n, d)

def writeOut (a : Appender) (d : Disk) (n : Node) : Except Error Unit × Appender × Disk :=
  match d.append n a.buffer with
  | (.error f, d) => (.error (.io .flushSegment a.path f), { a with file := none }, d)
  | (.ok _, d) =>
    match if a.sync then d.sync n else .ok () with
    | .error f => (.error (.io .syncSegment a.path f), { a with file := none }, d)
    | .ok _ => (.ok (), { a with file := some n, buffer := [] }, d)

def flush (a : Appender) (d : Disk) : Except Error Unit × Appender × Disk :=
  if a.buffer = [] then (.ok (), a, d)
  else
    match a.file with
    | some n => a.writeOut d n
    | none =>
      match a.reopen d with
      | (.error e, d) => (.error e, a, d)
      | (.ok n, d) => a.writeOut d n

/-- A tick of the clock flushes; what it fails for, nobody is told. -/
def tick (a : Appender) (d : Disk) : Appender × Disk :=
  if a.closed then (a, d) else (a.flush d).2

/-! ## Appending -/

/-- Goes on in the segment of the next number, once the active one is written out. -/
def rotate (a : Appender) (d : Disk) : Except Error Unit × Appender × Disk :=
  match a.flush d with
  | (.error e, a, d) => (.error e, a, d)
  | (.ok _, a, d) =>
    let s := Segment.ofId (a.active.id + 1)
    match openSegment d a.folder s with
    | .error e => (.error e, { a with file := none }, d)
    | .ok (n, offset, d) => (.ok (), { a with active := s, file := some n, offset }, d)

def overflows (a : Appender) (length : Nat) : Bool :=
  0 < a.offset && a.segmentLimit < a.offset + length

def makeRoom (a : Appender) (d : Disk) (length : Nat) : Except Error Unit × Appender × Disk :=
  if a.overflows length then a.rotate d else (.ok (), a, d)

/-- Puts octets into the buffer and flushes where it has to be; if that fails the octets are
taken out again, while those before them stay. -/
def enqueue (a : Appender) (d : Disk) (bs : Octets) (force : Bool) :
    Except Error Unit × Appender × Disk :=
  let grown := { a with buffer := a.buffer ++ bs, offset := a.offset + bs.length }
  if force || a.sync || a.bufferLimit ≤ grown.buffer.length then
    match grown.flush d with
    | (.ok _, b, d) => (.ok (), b, d)
    | (.error e, b, d) =>
      (.error e,
        { b with buffer := b.buffer.take a.buffer.length, offset := b.offset - bs.length }, d)
  else (.ok (), grown, d)

/-- Adds a record; with `force` it is flushed, with all that is buffered before it. Answers with
the sequence number of the record. -/
def append (a : Appender) (d : Disk) (r : Record) (force : Bool) :
    Except Error UInt64 × Appender × Disk :=
  match r.encode with
  | .error e => (.error e, a, d)
  | .ok bs =>
    if a.closed then (.error .closed, a, d)
    else
      match a.makeRoom d bs.length with
      | (.error e, a, d) => (.error e, a, d)
      | (.ok _, a, d) =>
        match a.enqueue d bs force with
        | (.error e, a, d) => (.error e, a, d)
        | (.ok _, a, d) => (.ok r.sequence, a, d)

/-! ## Closing -/

def letGo (a : Appender) (d : Disk) : Except Error Unit × Appender × Disk :=
  match a.file with
  | none => (.ok (), a, d)
  | some n =>
    match if a.sync then d.sync n else .ok () with
    | .error f => (.error (.io .syncSegment a.path f), { a with file := none }, d)
    | .ok _ => (.ok (), { a with file := none }, d)

/-- Closes for good. The clock stops with a last tick, whatever it says; then what is still
buffered is flushed. Closing again does nothing. -/
def close (a : Appender) (d : Disk) : Except Error Unit × Appender × Disk :=
  if a.closed then (.ok (), a, d)
  else
    match { a with closed := true }.flush d with
    | (_, a, d) =>
      match a.flush d with
      | (.error e, a, d) => (.error e, a, d)
      | (.ok _, a, d) => a.letGo d

/-! ## Cutting -/

def removeAbove (d : Disk) (folder : String) (id : UInt64) :
    List Segment → Except Error Unit × Disk
  | [] => (.ok (), d)
  | s :: rest =>
    if id < s.id then
      match d.remove (s.place folder) with
      | .error f => (.error (.io .removeSegment (s.path folder) f), d)
      | .ok d => removeAbove d folder id rest
    else removeAbove d folder id rest

/-- The listed segment of a number, or the one that would be created for it. -/
def find (segments : List Segment) (id : UInt64) : Segment :=
  (segments.filter (·.id = id)).getLast?.getD (Segment.ofId id)

def resizeSegment (d : Disk) (folder : String) (s : Segment) (length : Nat) :
    Except Error Unit × Disk :=
  match openSegment d folder s with
  | .error e => (.error e, d)
  | .ok (n, _, d) =>
    match d.resize n length with
    | .error f => (.error (.io .truncateSegment (s.path folder) f), d)
    | .ok d =>
      match d.sync n with
      | .error f => (.error (.io .syncSegment (s.path folder) f), d)
      | .ok _ => (.ok (), d)

/-- Cuts the log at an offset of a segment: later segments go, what is buffered is dropped, and
appending goes on at the cut. -/
def cut (a : Appender) (d : Disk) (id : UInt64) (offset : Nat) :
    Except Error Unit × Appender × Disk :=
  if a.closed then (.error .closed, a, d)
  else
    let a := { a with buffer := [], file := none }
    match Segment.list d a.folder with
    | .error e => (.error e, a, d)
    | .ok segments =>
      match removeAbove d a.folder id segments with
      | (.error e, d) => (.error e, a, d)
      | (.ok _, d) =>
        let s := find segments id
        match resizeSegment d a.folder s offset with
        | (.error e, d) => (.error e, a, d)
        | (.ok _, d) =>
          match openSegment d a.folder s with
          | .error e => (.error e, a, d)
          | .ok (n, offset, d) => (.ok (), { a with active := s, file := some n, offset }, d)

end Appender

end SegmentLog
