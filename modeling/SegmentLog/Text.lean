import SegmentLog.Octets

/-!
Text in fixed forms: numbers in a fixed number of digits, columns of a fixed width, and octets
shown as text where they need not be valid UTF-8. Everything is built on lists of characters.
-/

namespace SegmentLog.Text

/-- The last `width` digits of a number in a base, leading zeros included. -/
def fixedDigits (base : Nat) : Nat → Nat → List Char
  | 0, _ => []
  | width + 1, n => fixedDigits base width (n / base) ++ [Nat.digitChar (n % base)]

/-- Text filled up on the right with blanks to a width counted in characters. -/
def column (width : Nat) (text : String) : String :=
  text ++ String.ofList (List.replicate (width - text.length) ' ')

/-- A word as `0x` and eight lower-case hexadecimal digits. -/
def hexWord (n : UInt32) : String :=
  "0x" ++ String.ofList (fixedDigits 16 8 n.toNat)

def digit? (c : Char) : Option Nat :=
  if '0' ≤ c ∧ c ≤ '9' then some (c.toNat - '0'.toNat) else none

def digitsFrom? (acc : Nat) : List Char → Option Nat
  | [] => some acc
  | c :: rest =>
    match digit? c with
    | some d => digitsFrom? (acc * 10 + d) rest
    | none => none

/-- The value of a nonempty string of decimal digits; leading zeros do not count. -/
def digits? : List Char → Option Nat
  | [] => none
  | c :: rest => digitsFrom? 0 (c :: rest)

/-- A number that fits 64 bits in decimal, after at most one plus sign. -/
def word64? (cs : List Char) : Option UInt64 :=
  let digits := match cs with
    | '+' :: rest => rest
    | cs => cs
  match digits? digits with
  | some n => if n < UInt64.size then some (UInt64.ofNat n) else none
  | none => none

@[simp] theorem length_fixedDigits (base width n : Nat) :
    (fixedDigits base width n).length = width := by
  induction width generalizing n with
  | zero => rfl
  | succ width ih => simp [fixedDigits, ih]

end SegmentLog.Text
