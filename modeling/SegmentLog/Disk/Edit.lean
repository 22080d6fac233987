import SegmentLog.Disk

/-!
Changes made to a disk from outside the log, such as damage to a file or a device that fills up,
and a listing of what is there. What is changed is given by a path from a base folder on. Folders
that the path leads through and that are missing are made first, those that it leaves again by
`..` as well.
-/

namespace SegmentLog.Disk

def under (base : Location) (path : String) : Location := (Path.parts path).foldl .step base

def plantAlong (d : Disk) (loc : Location) : List String → Disk
  | [] => d
  | name :: rest =>
    let next := loc.step name
    match d.node? next with
    | some _ => d.plantAlong next rest
    | none => (d.link next .folder).plantAlong next rest

/-- Makes every folder that is missing along a path, but for its last name. -/
def plantAbove (d : Disk) (base : Location) (path : String) : Disk :=
  d.plantAlong base (Path.parts path).dropLast

def plantFolder (d : Disk) (base : Location) (path : String) : Disk :=
  d.plantAlong base (Path.parts path)

/-- Puts a full device in place of what stands at a path. -/
def plantFull (d : Disk) (base : Location) (path : String) : Disk :=
  (d.plantAbove base path).link (under base path) .full

def contents (d : Disk) (loc : Location) : Octets :=
  match d.node? loc with
  | some (.file body) => (d.bodies body).octets
  | _ => []

def edit (d : Disk) (base : Location) (path : String) (change : Body → Body) : Disk :=
  let d := d.plantAbove base path
  match d.node? (under base path) with
  | some (.file body) => d.setBody body (change (d.bodies body))
  | some _ => d
  | none => (d.create (under base path)).setBody d.nextBody (change {})

def uproot (d : Disk) (loc : Location) : Disk :=
  { d with nodes := d.nodes.filter fun (other, _) => !loc.leadsTo other }

/-- Moves what stands at one path, with everything below, in place of whatever stands at another. -/
def move (d : Disk) (base : Location) (path newPath : String) : Disk :=
  let d := d.plantAbove base newPath
  let source := under base path
  let target := under base newPath
  let moved := d.nodes.filterMap fun (loc, n) =>
    if source.leadsTo loc then some (target.enterAll (source.namesTo loc), n) else none
  { d with nodes := moved ++ ((d.uproot source).uproot target).nodes }

/-- The path from a base folder to a node below it; that of a folder ends in a slash. -/
def pathFrom (base loc : Location) (n : Node) : String :=
  let path := "/".intercalate (base.namesTo loc).reverse
  if n = .folder then path ++ "/" else path

/-- Everything below a base folder by its path from there, in the order of the paths. A folder
comes before what it holds, but after a neighbour whose name goes on where its own ends with a
character that is less than a slash. -/
def below (d : Disk) (base : Location) : List (String × Node) :=
  let found := d.nodes.filterMap fun (loc, n) =>
    if base.leadsTo loc ∧ loc ≠ base then some (pathFrom base loc n, n) else none
  found.mergeSort fun a b => decide (a.1 ≤ b.1)

end SegmentLog.Disk
