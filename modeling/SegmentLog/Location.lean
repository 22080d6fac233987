/-!
Locations on a disk: the names that lead from the top folder to a node. Locations of different
depths differ, whatever their names, and are told apart by their depths alone.
-/

namespace SegmentLog

/-- The names that lead to a node, innermost first, and how many they are. -/
structure Location where
  depth : Nat
  names : List String
  length_names : names.length = depth
  deriving DecidableEq, Repr

namespace Location

def top : Location := ⟨0, [], rfl⟩

def enter (loc : Location) (name : String) : Location :=
  ⟨loc.depth + 1, name :: loc.names, by simp [loc.length_names]⟩

/-- The folder around a location; the top folder is its own. -/
def leave (loc : Location) : Location :=
  ⟨loc.depth - 1, loc.names.tail, by simp [loc.length_names]⟩

/-- The name of a location in a folder, if it stands there. -/
def nameIn? (folder loc : Location) : Option String :=
  match loc.names with
  | [] => none
  | name :: _ => if loc.leave = folder then some name else none

/-- Whether one location is that of the other or of a folder around it. -/
def leadsTo (loc other : Location) : Bool := loc.names.isSuffixOf other.names

/-- The names from a location on to one that it leads to, innermost first. -/
def namesTo (loc other : Location) : List String := other.names.take (other.depth - loc.depth)

/-- The location that names lead to from here, innermost first. -/
def enterAll (loc : Location) (names : List String) : Location :=
  names.foldr (fun name inner => inner.enter name) loc

/-- One name on, where a dot stays and two dots go back. -/
def step (loc : Location) (name : String) : Location :=
  if name = "." then loc else if name = ".." then loc.leave else loc.enter name

/-- The locations that names lead through, one for each name. -/
def passed (loc : Location) : List String → List Location
  | [] => []
  | name :: rest => loc.step name :: passed (loc.step name) rest

/-- The absolute path of a location. -/
def path (loc : Location) : String := "/" ++ "/".intercalate loc.names.reverse

theorem ext_names {loc other : Location} (h : loc.names = other.names) : loc = other := by
  obtain ⟨depth, names, hdepth⟩ := loc
  obtain ⟨depth', names', hdepth'⟩ := other
  simp only at h
  subst h
  simp only [mk.injEq, and_true]
  omega

@[simp] theorem enter_ne_top (loc : Location) (name : String) : loc.enter name ≠ top := by
  simp [enter, top]

@[simp] theorem leave_enter (loc : Location) (name : String) : (loc.enter name).leave = loc :=
  rfl

@[simp] theorem enter_inj {loc other : Location} {name name' : String} :
    loc.enter name = other.enter name' ↔ loc = other ∧ name = name' := by
  constructor
  · intro h
    have hnames := congrArg names h
    simp only [enter, List.cons.injEq] at hnames
    exact ⟨ext_names hnames.2, hnames.1⟩
  · rintro ⟨rfl, rfl⟩
    rfl

@[simp] theorem nameIn?_enter (folder loc : Location) (name : String) :
    nameIn? folder (loc.enter name) = if loc = folder then some name else none := rfl

end Location

end SegmentLog
