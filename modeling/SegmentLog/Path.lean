/-!
Paths as text: how a name is joined to a folder, which part of a path is its file name, and how
a file name splits at its last dot. A name is a text: that the octets of a name may be no text, as a
file system allows, is left out, and so are the files that have such names.
-/

namespace SegmentLog.Path

/-- A name read to its end, if it is one. -/
def named (name : List Char) : List String := if name = [] then [] else [String.ofList name]

/-- The names in a text after the start of a name. -/
def partsFrom (name : List Char) : List Char → List String
  | [] => named name
  | c :: rest => if c = '/' then named name ++ partsFrom [] rest else partsFrom (name ++ [c]) rest

def parts (path : String) : List String := partsFrom [] path.toList

def isAbsolute (path : String) : Bool := path.toList.head? = some '/'

/-- A name inside a folder; no slash is added after an empty folder or one that ends in one. -/
def join (folder name : String) : String :=
  match folder.toList.getLast? with
  | none => name
  | some c => if c = '/' then folder ++ name else folder ++ "/" ++ name

/-- The names along a path without the dots it ends in, which mean the folder itself. -/
def dropDots (names : List String) : List String := (names.reverse.dropWhile (· = ".")).reverse

def fileName? (path : String) : Option String :=
  match (dropDots (parts path)).getLast? with
  | none => none
  | some name => if name = ".." then none else some name

/-- What stands before and after the last dot of a file name. A name without a dot, or with its
only dot in front, has no extension. -/
def splitExtension (name : List Char) : List Char × Option (List Char) :=
  match name.reverse.dropWhile (· ≠ '.') with
  | [] | [_] => (name, none)
  | _ :: stem => (stem.reverse, some (name.reverse.takeWhile (· ≠ '.')).reverse)

end SegmentLog.Path
