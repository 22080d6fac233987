import SegmentLog.Octets

/-!
Octets shown as text. Well-formed UTF-8 is decoded; of anything else, each longest start of a
character that breaks off becomes one replacement character, and so does every octet that can
start none. Text goes back to octets by the usual encoding.
-/

namespace SegmentLog.Text

/-- The character that stands for octets that are no text. -/
def replacement : Char := Char.ofNat 0xFFFD

/-- What a lead octet announces: how many octets follow, the least and the greatest value of the
first of them, and the bits the lead octet itself carries. -/
structure Lead where
  tails : Nat
  low : UInt8
  high : UInt8
  bits : Nat

/-- The second octet is restricted where it would otherwise encode a character in more octets
than it needs, a surrogate, or a number past the last character. -/
def Lead.ofOctet? (b : UInt8) : Option Lead :=
  if b < 0x80 then some ⟨0, 0x80, 0xBF, b.toNat⟩
  else if b < 0xC2 then none
  else if b < 0xE0 then some ⟨1, 0x80, 0xBF, b.toNat - 0xC0⟩
  else if b = 0xE0 then some ⟨2, 0xA0, 0xBF, 0⟩
  else if b = 0xED then some ⟨2, 0x80, 0x9F, 0xD⟩
  else if b < 0xF0 then some ⟨2, 0x80, 0xBF, b.toNat - 0xE0⟩
  else if b = 0xF0 then some ⟨3, 0x90, 0xBF, 0⟩
  else if b < 0xF4 then some ⟨3, 0x80, 0xBF, b.toNat - 0xF0⟩
  else if b = 0xF4 then some ⟨3, 0x80, 0x8F, 4⟩
  else none

/-- Takes the announced octets as far as they fit: the character and how many were taken. -/
def follow (low high : UInt8) (bits taken : Nat) : Nat → Octets → Char × Nat
  | 0, _ => (Char.ofNat bits, taken)
  | _ + 1, [] => (replacement, taken)
  | tails + 1, b :: rest =>
    if low ≤ b ∧ b ≤ high then
      follow 0x80 0xBF (bits * 64 + (b.toNat - 0x80)) (taken + 1) tails rest
    else (replacement, taken)

/-- The character that starts with octet `b`, and how many octets after `b` belong to it. -/
def firstChar (b : UInt8) (rest : Octets) : Char × Nat :=
  match Lead.ofOctet? b with
  | some lead => follow lead.low lead.high lead.bits 0 lead.tails rest
  | none => (replacement, 0)

def chars : Octets → List Char
  | [] => []
  | b :: rest => (firstChar b rest).1 :: chars (rest.drop (firstChar b rest).2)
termination_by bs => bs.length
decreasing_by simp only [List.length_drop, List.length_cons]; omega

def ofOctets (bs : Octets) : String := String.ofList (chars bs)

def toOctets (text : String) : Octets := text.toUTF8.data.toList

end SegmentLog.Text
