import SegmentLog.Record.Codec

/-!
Settings of a log, and the rule for those it can work with.
-/

namespace SegmentLog

inductive DamagePolicy
  | strict
  /-- Keep what stands before the first damaged record and cut the log there. -/
  | truncateTail
  deriving DecidableEq, Repr

def DamagePolicy.standard : DamagePolicy := .strict

structure Settings where
  folder : String := "./data/wal"
  /-- A segment that holds something is not grown past this length. -/
  segmentLimit : Nat := 1073741824
  sync : Bool := true
  /-- A buffer that has reached this length is flushed. -/
  bufferLimit : Nat := 4096
  /-- Time between two flushes in the background, in nanoseconds. -/
  flushInterval : Nat := 1000000000
  policy : DamagePolicy := .standard
  deriving DecidableEq, Repr

namespace Settings

def ofFolder (folder : String) : Settings := { folder }

def flaw? (s : Settings) : Option SettingsFlaw :=
  if s.folder = "" then some .emptyFolder
  else if s.segmentLimit < Header.size then some (.limitTooSmall Header.size s.segmentLimit)
  else if s.flushInterval = 0 then some .zeroInterval
  else none

def validate (s : Settings) : Except Error Unit :=
  match s.flaw? with
  | some flaw => .error (.settings flaw)
  | none => .ok ()

end Settings

end SegmentLog
