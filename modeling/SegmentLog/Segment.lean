import SegmentLog.Disk
import SegmentLog.Error
import SegmentLog.Text

/-!
Segments: the numbered files of a log. A segment is written as a number of twenty digits with
the extension `wal`, but any number of leading zeros is read, so that `7.wal` stands before
`00000000000000000010.wal`. Listing a folder gives its segments by ascending number. A name that is
no text stands for no segment, and there are none of that kind here.
-/

namespace SegmentLog

/-- A segment found in a folder: its number and its file name. -/
structure Segment where
  id : UInt64
  name : String
  deriving DecidableEq, Repr

namespace Segment

def extension : String := "wal"

/-- The number of the first segment in an empty folder. -/
def firstId : UInt64 := 1

/-- The file name under which a segment is created. Twenty digits hold every number. -/
def fileName (id : UInt64) : String :=
  String.ofList (Text.fixedDigits 10 20 id.toNat) ++ "." ++ extension

/-- The segment of a number, under the name it is created with. -/
def ofId (id : UInt64) : Segment := ⟨id, fileName id⟩

def idOfName? (name : String) : Option UInt64 :=
  match Path.splitExtension name.toList with
  | (stem, some ext) => if ext = extension.toList then Text.word64? stem else none
  | (_, none) => none

def idOfPath? (path : String) : Option UInt64 := (Path.fileName? path).bind idOfName?

/-- The segment a file name stands for. -/
def ofName? (name : String) : Option Segment := (idOfName? name).map fun id => ⟨id, name⟩

def place (folder : String) (s : Segment) : Place := ⟨folder, s.name⟩

def path (folder : String) (s : Segment) : String := (s.place folder).path

/-- Puts a segment into a list in ascending order, before those of the same number. -/
def insert (s : Segment) : List Segment → List Segment
  | [] => [s]
  | t :: rest => if s.id ≤ t.id then s :: t :: rest else t :: insert s rest

def sort (segments : List Segment) : List Segment := segments.foldr insert []

/-- The segments of a folder by ascending number; a folder that is missing has none. -/
def list (d : Disk) (folder : String) : Except Error (List Segment) :=
  match d.files folder with
  | .ok names => .ok (sort (names.filterMap ofName?))
  | .error .notFound => .ok []
  | .error f => .error (.io .listSegments folder f)

end Segment

end SegmentLog
