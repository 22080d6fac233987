import SegmentLog.Octets

/-!
The contents of a file, kept as runs: octets that were written, and zeros that stand where a
length was set past the end. A run of zeros is kept as its number, so a length costs nothing
before something reads the zeros it stands for. What counts is the octets the runs stand for
(`Body.octets`): every operation does to them what its name says.
-/

namespace SegmentLog

/-- A part of a body. -/
inductive Run
  | written (bs : Octets)
  | zeros (count : Nat)
  deriving DecidableEq, Repr

namespace Run

def octets : Run → Octets
  | written bs => bs
  | zeros count => List.replicate count 0

def length : Run → Nat
  | written bs => bs.length
  | zeros count => count

def take (n : Nat) : Run → Run
  | written bs => written (bs.take n)
  | zeros count => zeros (min n count)

def drop (n : Nat) : Run → Run
  | written bs => written (bs.drop n)
  | zeros count => zeros (count - n)

@[simp] theorem length_octets (r : Run) : r.octets.length = r.length := by
  cases r <;> simp [octets, length]

@[simp] theorem octets_take (n : Nat) (r : Run) : (r.take n).octets = r.octets.take n := by
  cases r <;> simp [octets, take]

@[simp] theorem octets_drop (n : Nat) (r : Run) : (r.drop n).octets = r.octets.drop n := by
  cases r <;> simp [octets, drop]

end Run

/-- The contents of a file. -/
structure Body where
  runs : List Run := []
  deriving DecidableEq, Repr

namespace Body

/-- The octets a body stands for. -/
def octets (b : Body) : Octets := b.runs.flatMap Run.octets

def ofOctets (bs : Octets) : Body := ⟨[.written bs]⟩

def lengthOf : List Run → Nat
  | [] => 0
  | r :: rest => r.length + lengthOf rest

/-- The number of octets. -/
def length (b : Body) : Nat := lengthOf b.runs

/-- Adds octets at the end. -/
def append (b : Body) (bs : Octets) : Body := ⟨b.runs ++ [.written bs]⟩

/-- Adds zeros at the end. -/
def extend (b : Body) (count : Nat) : Body := ⟨b.runs ++ [.zeros count]⟩

def takeRuns (n : Nat) : List Run → List Run
  | [] => []
  | r :: rest => if n ≤ r.length then [r.take n] else r :: takeRuns (n - r.length) rest

/-- The first octets. -/
def take (n : Nat) (b : Body) : Body := ⟨takeRuns n b.runs⟩

def dropRuns (n : Nat) : List Run → List Run
  | [] => []
  | r :: rest => if n < r.length then r.drop n :: rest else dropRuns (n - r.length) rest

/-- What is left after the first octets. -/
def drop (n : Nat) (b : Body) : Body := ⟨dropRuns n b.runs⟩

/-- Sets the length: cuts octets off the end, or adds zeros. -/
def resize (b : Body) (length : Nat) : Body :=
  if length ≤ b.length then b.take length else b.extend (length - b.length)

/-- At most `count` octets from offset `start` on. -/
def slice (b : Body) (start count : Nat) : Octets := ((b.drop start).take count).octets

/-- Changes one octet; past the end there is none to change. -/
def modify (b : Body) (offset : Nat) (change : UInt8 → UInt8) : Body :=
  match b.slice offset 1 with
  | [old] => ⟨(b.take offset).runs ++ .written [change old] :: (b.drop (offset + 1)).runs⟩
  | _ => b

/-! ## What the operations do to the octets -/

@[simp] theorem octets_empty : ({} : Body).octets = [] := rfl

@[simp] theorem octets_ofOctets (bs : Octets) : (ofOctets bs).octets = bs := by
  simp [octets, ofOctets, Run.octets]

@[simp] theorem octets_append (b : Body) (bs : Octets) :
    (b.append bs).octets = b.octets ++ bs := by
  simp [octets, append, Run.octets]

@[simp] theorem octets_extend (b : Body) (count : Nat) :
    (b.extend count).octets = b.octets ++ List.replicate count 0 := by
  simp [octets, extend, Run.octets]

theorem length_flatMap_octets (runs : List Run) :
    (runs.flatMap Run.octets).length = lengthOf runs := by
  induction runs with
  | nil => rfl
  | cons r rest ih =>
    rw [List.flatMap_cons, List.length_append, ih, Run.length_octets, lengthOf]

@[simp] theorem length_octets (b : Body) : b.octets.length = b.length :=
  length_flatMap_octets b.runs

theorem flatMap_takeRuns (n : Nat) (runs : List Run) :
    (takeRuns n runs).flatMap Run.octets = (runs.flatMap Run.octets).take n := by
  induction runs generalizing n with
  | nil => simp [takeRuns]
  | cons r rest ih =>
    by_cases h : n ≤ r.length
    · have hzero : n - r.length = 0 := by omega
      simp [takeRuns, h, List.take_append, hzero]
    · have hall : r.octets.take n = r.octets := List.take_of_length_le (by simp; omega)
      simp [takeRuns, h, List.take_append, ih, hall]

@[simp] theorem octets_take (n : Nat) (b : Body) : (b.take n).octets = b.octets.take n :=
  flatMap_takeRuns n b.runs

theorem flatMap_dropRuns (n : Nat) (runs : List Run) :
    (dropRuns n runs).flatMap Run.octets = (runs.flatMap Run.octets).drop n := by
  induction runs generalizing n with
  | nil => simp [dropRuns]
  | cons r rest ih =>
    by_cases h : n < r.length
    · have hzero : n - r.length = 0 := by omega
      simp [dropRuns, h, List.drop_append, hzero]
    · have hnone : r.octets.drop n = [] := List.drop_eq_nil_of_le (by simp; omega)
      simp [dropRuns, h, List.drop_append, ih, hnone]

@[simp] theorem octets_drop (n : Nat) (b : Body) : (b.drop n).octets = b.octets.drop n :=
  flatMap_dropRuns n b.runs

@[simp] theorem slice_eq (b : Body) (start count : Nat) :
    b.slice start count = b.octets.slice start count := by
  simp [slice, Octets.slice]

theorem octets_resize (b : Body) (length : Nat) :
    (b.resize length).octets =
      b.octets.take length ++ List.replicate (length - b.length) 0 := by
  by_cases h : length ≤ b.length
  · have hzero : length - b.length = 0 := by omega
    simp [resize, h, hzero]
  · have hall : b.octets.take length = b.octets := List.take_of_length_le (by simp; omega)
    simp [resize, h, hall]

@[simp] theorem length_resize (b : Body) (length : Nat) : (b.resize length).length = length := by
  rw [← length_octets, octets_resize, List.length_append, List.length_take, List.length_replicate,
    length_octets]
  omega

end Body

end SegmentLog
