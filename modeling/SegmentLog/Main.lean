import SegmentLog.Disk.Edit
import SegmentLog.Shell

/-!
The program. It reads the folder of the log into a disk, runs the command line on it, and takes
the changes back to the folder.
-/

namespace SegmentLog.Main

open Shell

def ofBytes (bytes : ByteArray) : Octets := bytes.data.toList

def toBytes (bs : Octets) : ByteArray := ⟨bs.toArray⟩

/-- The files of a folder that a command may look at. -/
def isOwn (name : String) : Bool :=
  (Segment.ofName? name).isSome || name = Ticket.fileName || name = Ticket.scratchName

/-- A disk that holds the folder of a log with its files. -/
def load (folder : String) : IO Disk := do
  let loc := Disk.under .top folder
  let mut d : Disk := ({} : Disk).plantFolder .top folder
  for entry in ← (← IO.FS.realPath folder).readDir do
    if isOwn entry.fileName then
      try
        let bytes ← IO.FS.readBinFile (Path.join folder entry.fileName)
        d := d.edit loc entry.fileName fun _ => .ofOctets (ofBytes bytes)
      catch _ =>
        d := d.plantFolder loc entry.fileName
  return d

/-- Takes a changed file to its folder. Octets that were added are appended; anything else is
written beside the file and then takes its name. -/
def saveFile (path : String) (old new : Octets) : IO Unit := do
  if old.isPrefixOf new then
    let handle ← IO.FS.Handle.mk path .append
    handle.write (toBytes (new.drop old.length))
  else
    let scratch := path ++ ".new"
    IO.FS.writeBinFile scratch (toBytes new)
    IO.FS.rename scratch path

/-- The files of a folder, those of the log before those of the ticket. -/
def filesBelow (d : Disk) (loc : Location) : List String :=
  let names := (d.below loc).filterMap fun (name, node) =>
    if node = .folder then none else some name
  let (segments, others) := names.partition fun name => (Segment.ofName? name).isSome
  segments ++ others

/-- Takes the files that changed between two disks to the folder of a log. -/
def save (folder : String) (before after : Disk) : IO Unit := do
  let loc := Disk.under .top folder
  for name in filesBelow after loc do
    let old := before.contents (loc.enter name)
    let new := after.contents (loc.enter name)
    if old ≠ new ∨ (before.node? (loc.enter name)).isNone then
      saveFile (Path.join folder name) old new
  for name in filesBelow before loc do
    if (after.node? (loc.enter name)).isNone then
      IO.FS.removeFile (Path.join folder name)

def report (result : Result) : IO UInt32 := do
  IO.print result.output
  match result.error with
  | some e => IO.eprintln e.message
  | none => if result.exit = 2 then IO.eprint helpText
  return UInt32.ofNat result.exit

def resolve (given : String) : IO String := do
  IO.FS.createDirAll given
  return toString (← IO.FS.realPath given)

def runInvocation (invocation : Invocation) : IO UInt32 := do
  let folder ← resolve invocation.options.folderText
  let before ← load folder
  let options := { invocation.options with folder := some folder }
  let (result, after) := Shell.runInvocation before { invocation with options }
  save folder before after
  report result

end SegmentLog.Main

def main (words : List String) : IO UInt32 := do
  match SegmentLog.Shell.parse words with
  | .error stop => SegmentLog.Main.report stop.result
  | .ok invocation =>
    try SegmentLog.Main.runInvocation invocation
    catch e =>
      IO.eprintln (toString e)
      return 1
