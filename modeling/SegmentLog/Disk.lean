import SegmentLog.Body
import SegmentLog.Fault
import SegmentLog.Location
import SegmentLog.Path

/-!
A disk: names for folders, files and full devices. A name leads to a file's body by number, so a
file opened once stays open when its name is moved or removed. A full device opens like an empty
file, but takes no octet, has no length to set and reads as zeros without end.

Every operation is a function from disk to disk that says why it is refused. A refused operation
leaves the disk as it was, and its result holds no disk, except where a part of it may have
happened: octets written before a write was stopped, folders made above one that cannot be.

The device of a file may refuse what is asked of it (`Refusals`). What is refused changes from
outside only, as when a medium fills up or fails.

A path has to be one that the system interface can carry (`pathFault?`), and each name in it has
to fit in a folder (`child`); both are checked before the disk is asked what stands there.
-/

namespace SegmentLog

/-- What a name stands for. A node is also what an open file remembers of it. -/
inductive Node
  | folder
  | file (body : Nat)
  | full
  deriving DecidableEq, Repr

structure Place where
  folder : String
  name : String
  deriving DecidableEq, Repr

def Place.path (p : Place) : String := Path.join p.folder p.name

/-- What the device of a file refuses, and why. A write stops after a number of octets; a sync that is
refused comes behind octets that were written. -/
structure Refusals where
  opening : Option Fault := none
  writing : Option (Nat × Fault) := none
  resizing : Option Fault := none
  syncing : Option Fault := none
  removing : Option Fault := none
  deriving DecidableEq, Repr

structure Disk where
  nodes : List (Location × Node) := []
  /-- The contents of the files, by number. -/
  bodies : Nat → Body := fun _ => {}
  refusals : Nat → Refusals := fun _ => {}
  /-- A number above those of all bodies in use. -/
  nextBody : Nat := 0
  /-- The folder from which relative paths start. -/
  here : Location := .top

namespace Disk

/-! ## Names -/

def node? (d : Disk) (loc : Location) : Option Node :=
  if loc = .top then some .folder else d.nodes.lookup loc

def nameLimit : Nat := 255

def pathLimit : Nat := 4096

/-- Why a path is refused by its text alone, whatever is on the disk. -/
def pathFault? (path : String) : Option Fault :=
  if '\x00' ∈ path.toList then some .nulInPath
  else if pathLimit ≤ path.utf8ByteSize then some .nameTooLong
  else none

/-- What a name in a folder stands for; no name past the limit can stand for anything. -/
def child (d : Disk) (loc : Location) (name : String) : Except Fault (Option Node) :=
  if nameLimit < name.utf8ByteSize then .error .nameTooLong else .ok (d.node? (loc.enter name))

/-- Follows names from a folder on; every step has to lead to a folder. -/
def walk (d : Disk) : Location → List String → Except Fault Location
  | loc, [] => .ok loc
  | loc, name :: rest =>
    if name = "." then d.walk loc rest
    else if name = ".." then d.walk loc.leave rest
    else
      match d.child loc name with
      | .error f => .error f
      | .ok none => .error .notFound
      | .ok (some .folder) => d.walk (loc.enter name) rest
      | .ok (some _) => .error .notFolder

def start (d : Disk) (path : String) : Location := if Path.isAbsolute path then .top else d.here

def locate (d : Disk) (folder : String) : Except Fault Location :=
  match pathFault? folder with
  | some f => .error f
  | none => d.walk (d.start folder) (Path.parts folder)

/-- The location of a place, and what stands there. The place is one path to the file system, so
the limits hold for its folder and its name together. -/
def look (d : Disk) (p : Place) : Except Fault (Location × Option Node) :=
  match pathFault? p.path, d.locate p.folder with
  | some f, _ => .error f
  | none, .error f => .error f
  | none, .ok loc => (d.child loc p.name).map fun n => (loc.enter p.name, n)

def unlink (d : Disk) (loc : Location) : Disk :=
  { d with nodes := d.nodes.filter (·.1 ≠ loc) }

def link (d : Disk) (loc : Location) (n : Node) : Disk :=
  { d.unlink loc with nodes := (loc, n) :: (d.unlink loc).nodes }

def setBody (d : Disk) (body : Nat) (new : Body) : Disk :=
  { d with bodies := fun b => if b = body then new else d.bodies b }

def create (d : Disk) (loc : Location) : Disk :=
  { (d.link loc (.file d.nextBody)).setBody d.nextBody {} with nextBody := d.nextBody + 1 }

/-! ## Open files -/

/-- What is refused for a node; a full device has its own ways. -/
def refusalsOf (d : Disk) : Node → Refusals
  | .file body => d.refusals body
  | _ => {}

def openWrite (d : Disk) (p : Place) : Except Fault (Node × Disk) :=
  match d.look p with
  | .error f => .error f
  | .ok (loc, none) => .ok (.file d.nextBody, d.create loc)
  | .ok (_, some .folder) => .error .isFolder
  | .ok (_, some n) =>
    match (d.refusalsOf n).opening with
    | some f => .error f
    | none => .ok (n, d)

def openRead (d : Disk) (p : Place) : Except Fault Node :=
  match d.look p with
  | .error f => .error f
  | .ok (_, none) => .error .notFound
  | .ok (_, some n) => .ok n

def size (d : Disk) : Node → Nat
  | .file body => (d.bodies body).length
  | _ => 0

/-- Adds octets at the end. Of a write that is refused the first octets may have been added. -/
def append (d : Disk) (n : Node) (bs : Octets) : Except Fault Unit × Disk :=
  match n with
  | .file body =>
    match (d.refusals body).writing.filter (·.1 < bs.length) with
    | some (count, f) => (.error f, d.setBody body ((d.bodies body).append (bs.take count)))
    | none => (.ok (), d.setBody body ((d.bodies body).append bs))
  | .full => (if bs = [] then .ok () else .error .noSpace, d)
  | .folder => (.error .isFolder, d)

/-- One past the largest length that can be asked for. -/
def sizeLimit : Nat := 9223372036854775808

def fileLimit : Nat := 17592186040320

def resize (d : Disk) (n : Node) (length : Nat) : Except Fault Disk :=
  match n with
  | .file body =>
    match (d.refusals body).resizing with
    | some f => .error f
    | none =>
      if length ≤ (d.bodies body).length then .ok (d.setBody body ((d.bodies body).resize length))
      else if sizeLimit ≤ length then .error .lengthOutOfRange
      else if fileLimit < length then .error .fileTooLarge
      else .ok (d.setBody body ((d.bodies body).resize length))
  | _ => if sizeLimit ≤ length then .error .lengthOutOfRange else .error .invalid

/-- Waits until what was written is on the medium. -/
def sync (d : Disk) : Node → Except Fault Unit
  | .file body =>
    match (d.refusals body).syncing with
    | some f => .error f
    | none => .ok ()
  | .full => .error .invalid
  | .folder => .ok ()

def read (d : Disk) (n : Node) (offset count : Nat) : Except Fault Octets :=
  match n with
  | .file body => .ok ((d.bodies body).slice offset count)
  | .full => .ok (List.replicate count 0)
  | .folder => .error .isFolder

/-! ## Whole files -/

def remove (d : Disk) (p : Place) : Except Fault Disk :=
  match d.look p with
  | .error f => .error f
  | .ok (_, none) => .error .notFound
  | .ok (_, some .folder) => .error .isFolder
  | .ok (loc, some n) =>
    match (d.refusalsOf n).removing with
    | some f => .error f
    | none => .ok (d.unlink loc)

/-- The first octets of a file that is read to its end, at most `count`. A full device has no end:
what is read of it outgrows the memory. -/
def readStart (d : Disk) (p : Place) (count : Nat) : Except Fault Octets :=
  match d.openRead p with
  | .error f => .error f
  | .ok .full => .error .outOfMemory
  | .ok n => d.read n 0 (min count (d.size n))

/-- Makes these the only octets of a file. Its old octets are gone even when the new ones find no
room. -/
def writeFile (d : Disk) (p : Place) (bs : Octets) : Except Fault Unit × Disk :=
  match d.openWrite p with
  | .error f => (.error f, d)
  | .ok (.file body, d) => (d.setBody body {}).append (.file body) bs
  | .ok (n, d) => d.append n bs

/-- Gives a file another name, in place of whatever file had that name. -/
def rename (d : Disk) (p q : Place) : Except Fault Disk :=
  match d.look p, d.look q with
  | .error f, _ => .error f
  | _, .error f => .error f
  | .ok (_, none), _ => .error .notFound
  | _, .ok (_, some .folder) => .error .isFolder
  | .ok (old, some n), .ok (new, _) => .ok ((d.unlink old).link new n)

/-! ## Folders -/

/-- The names of the regular files in a folder. The empty path names no folder. A file whose path
is refused by its text cannot be asked whether it is regular, and is left out. -/
def files (d : Disk) (folder : String) : Except Fault (List String) :=
  if folder = "" then .error .notFound
  else
    match d.locate folder with
    | .error f => .error f
    | .ok loc =>
      .ok (d.nodes.filterMap fun
        | (other, .file _) =>
          (loc.nameIn? other).filter fun name => pathFault? (Path.join folder name) = none
        | _ => none)

def makeFolder (d : Disk) (base : Location) (names : List String) :
    Except Fault (Location × Disk) :=
  match d.walk base names.dropLast, names.getLast? with
  | .error f, _ => .error f
  | .ok _, none => .error .nameTaken
  | .ok loc, some name =>
    if name = "." ∨ name = ".." then .error .nameTaken
    else
      match d.child loc name with
      | .error f => .error f
      | .ok (some _) => .error .nameTaken
      | .ok none => .ok (loc.enter name, d.link (loc.enter name) .folder)

/-- One folder made, where a folder that is there already is as good as a new one. -/
def makeFolderAnyway (d : Disk) (base : Location) (names : List String) :
    Except Fault (Location × Disk) :=
  match d.makeFolder base names with
  | .ok made => .ok made
  | .error f =>
    match d.walk base names with
    | .ok loc => .ok (loc, d)
    | .error _ => .error f

/-- The names of the folder above: the last name goes, and with it the dots around it. -/
def namesAbove (names : List String) : List String :=
  Path.dropDots (Path.dropDots names).dropLast

theorem length_namesAbove_lt {names : List String} (h : names ≠ []) :
    (namesAbove names).length < names.length := by
  have hdots (xs : List String) : (Path.dropDots xs).length ≤ xs.length := by
    simpa [Path.dropDots] using (List.dropWhile_suffix (p := (· = ".")) (l := xs.reverse)).length_le
  have hone := hdots names
  have htwo := hdots (Path.dropDots names).dropLast
  have hpos := List.length_pos_iff.mpr h
  simp only [namesAbove, List.length_dropLast] at *
  omega

/-- Makes a folder and, where they are missing, the folders above it, and finds its location. Once
the folder above is there, the names that are left lead on from it. -/
def makeFoldersAt (d : Disk) (base : Location) (names : List String) :
    Except Fault Location × Disk :=
  if h : names = [] then (.ok base, d)
  else
    have : (namesAbove names).length < names.length := length_namesAbove_lt h
    match d.makeFolderAnyway base names with
    | .ok (loc, d) => (.ok loc, d)
    | .error .notFound =>
      match d.makeFoldersAt base (namesAbove names) with
      | (.error f, d) => (.error f, d)
      | (.ok above, d) =>
        match d.makeFolderAnyway above (names.drop (namesAbove names).length) with
        | .ok (loc, d) => (.ok loc, d)
        | .error f => (.error f, d)
    | .error f => (.error f, d)
termination_by names.length

def makeFolders (d : Disk) (folder : String) : Except Fault Unit × Disk :=
  match pathFault? folder with
  | some f => (.error f, d)
  | none =>
    match d.makeFoldersAt (d.start folder) (Path.parts folder) with
    | (.ok _, d) => (.ok (), d)
    | (.error f, d) => (.error f, d)

/-- The absolute path of a folder given by its path. The way there is taken by absolute paths, so
each of them has to be one that the system interface can carry, also where the way turns back. -/
def resolve (d : Disk) (folder : String) : Except Fault String :=
  match d.locate folder with
  | .error f => .error f
  | .ok loc =>
    match ((d.start folder).passed (Path.parts folder)).findSome? (pathFault? ·.path) with
    | some f => .error f
    | none => .ok loc.path

end Disk

end SegmentLog
