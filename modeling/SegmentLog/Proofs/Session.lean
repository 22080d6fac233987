import SegmentLog.Log
import SegmentLog.Proofs.Runs

/-!
A log in use. A session holds a disk and at most one open log, and is asked to open a log, to work
on it and to close it. Between requests the clock ticks, the settings for the next opening may be
changed, others may change the disk, and the process may be killed, which loses the open log with
its buffer.
-/

namespace SegmentLog

inductive Request
  /-- Opens the log; one that is open is let go first. -/
  | start
  | begin
  | write (txn : UInt64) (key value : Octets)
  | commit (txn : UInt64)
  | abort (txn : UInt64)
  | checkpoint
  | sync
  | readAll
  | close
  deriving DecidableEq, Repr

inductive Answer
  | opened (report : Report)
  | number (n : UInt64)
  | done
  | records (rs : List Record)
  | failed (e : Error)
  | absent
  deriving DecidableEq, Repr

namespace Answer

def of {α : Type} (reply : α → Answer) : Except Error α → Answer
  | .ok x => reply x
  | .error e => failed e

def isFailure : Answer → Bool
  | failed _ | absent => true
  | _ => false

def isRefused : Answer → Bool
  | failed e => e.isIo
  | _ => false

end Answer

inductive Event
  | ask (q : Request)
  /-- Other settings for the next opening. -/
  | configure (settings : Settings)
  /-- A tick of the clock. -/
  | tick
  /-- Others change the disk. -/
  | disturb (d : Disk)
  /-- The process is killed. -/
  | crash

structure Session where
  disk : Disk
  log : Option Log := none
  settings : Settings

namespace Session

def onLog {α : Type} (s : Session) (reply : α → Answer)
    (op : Log → Disk → Except Error α × Log × Disk) : Answer × Session :=
  match s.log with
  | none => (.absent, s)
  | some l =>
    match op l s.disk with
    | (answer, l, d) => (.of reply answer, { s with disk := d, log := some l })

def released (s : Session) : Disk :=
  match s.log with
  | none => s.disk
  | some l => l.drop s.disk

def serve (s : Session) : Request → Answer × Session
  | .start =>
    match Log.start s.released s.settings with
    | (.ok l, d) => (.opened l.report, { s with disk := d, log := some l })
    | (.error e, d) => (.failed e, { s with disk := d, log := none })
  | .begin => s.onLog .number fun l d => (l.begin.1, l.begin.2, d)
  | .write txn key value => s.onLog .number fun l d => l.write d txn key value
  | .commit txn => s.onLog (fun _ => .done) fun l d => l.commit d txn
  | .abort txn => s.onLog (fun _ => .done) fun l d => l.abort d txn
  | .checkpoint => s.onLog .number fun l d => l.checkpoint d
  | .sync => s.onLog (fun _ => .done) fun l d => l.sync d
  | .readAll => s.onLog .records fun l d => l.readAll d
  | .close => s.onLog (fun _ => .done) fun l d => l.close d

def step (s : Session) : Event → Session
  | .ask q => (s.serve q).2
  | .configure settings => { s with settings }
  | .tick =>
    match s.log with
    | none => s
    | some l => { s with disk := (l.tick s.disk).2, log := some (l.tick s.disk).1 }
  | .disturb d => { s with disk := d }
  | .crash => { s with log := none }

def run (s : Session) (es : List Event) : Session := es.foldl step s

def answers (s : Session) : List Event → List Answer
  | [] => []
  | .ask q :: rest => (s.serve q).1 :: answers (s.step (.ask q)) rest
  | e :: rest => answers (s.step e) rest

@[simp] theorem run_nil (s : Session) : s.run [] = s := rfl

@[simp] theorem run_cons (s : Session) (e : Event) (es : List Event) :
    s.run (e :: es) = (s.step e).run es := rfl

theorem run_append (s : Session) (es fs : List Event) :
    s.run (es ++ fs) = (s.run es).run fs := List.foldl_append

/-- The number of the segment that an open log adds records to. -/
def segment? (s : Session) : Option UInt64 := s.log.map (·.currentSegment)

/-- A request that begins a segment past the last number, so that numbers start over. -/
def wraps (s : Session) : Event → Bool
  | .ask .start => false
  | .ask q =>
    match s.segment?, (s.serve q).2.segment? with
    | some old, some new => new < old
    | _, _ => false
  | _ => false

/-- Letting go of the open log writes out its buffer. -/
def letsGo (s : Session) : Bool :=
  match s.log with
  | none => true
  | some l => (l.appender.close s.disk).1.isOk

abbrev Along (P : Session → Event → Prop) (s : Session) (es : List Event) : Prop :=
  SegmentLog.Along step P s es

theorem along_append {P : Session → Event → Prop} {s : Session} {es fs : List Event} :
    s.Along P (es ++ fs) ↔ s.Along P es ∧ (s.run es).Along P fs := SegmentLog.Along.append

end Session

end SegmentLog
