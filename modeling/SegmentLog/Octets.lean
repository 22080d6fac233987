/-!
Octet strings, and words written in a fixed number of octets. A word is written in
little-endian order by peeling off its last octet; big-endian order is the same string
reversed. A string is the writing, in as many octets as it has, of the number it stands for
(`littleEndian_ofLittleEndian`, `bigEndian_ofBigEndian`).
-/

namespace SegmentLog

/-- A string of octets, such as the contents of a file. -/
abbrev Octets := List UInt8

namespace Octets

/-- The `width` octets of `n`, least significant first; what does not fit is dropped. -/
def littleEndian : Nat → Nat → Octets
  | 0, _ => []
  | width + 1, n => UInt8.ofNat n :: littleEndian width (n / 256)

/-- The number an octet string stands for, least significant octet first. -/
def ofLittleEndian : Octets → Nat
  | [] => 0
  | b :: rest => b.toNat + 256 * ofLittleEndian rest

/-- The `width` octets of `n`, most significant first; what does not fit is dropped. -/
def bigEndian (width n : Nat) : Octets := (littleEndian width n).reverse

/-- The number an octet string stands for, most significant octet first. -/
def ofBigEndian (bs : Octets) : Nat := ofLittleEndian bs.reverse

/-- At most `count` octets from offset `start` on. -/
def slice (bs : Octets) (start count : Nat) : Octets := (bs.drop start).take count

@[simp] theorem length_littleEndian (width n : Nat) : (littleEndian width n).length = width := by
  induction width generalizing n with
  | zero => rfl
  | succ width ih => simp [littleEndian, ih]

@[simp] theorem length_bigEndian (width n : Nat) : (bigEndian width n).length = width := by
  simp [bigEndian]

theorem littleEndian_ofLittleEndian (bs : Octets) :
    littleEndian bs.length (ofLittleEndian bs) = bs := by
  induction bs with
  | nil => rfl
  | cons b rest ih =>
    have hb := b.toNat_lt
    have hdiv : (b.toNat + 256 * ofLittleEndian rest) / 256 = ofLittleEndian rest := by omega
    have hword : UInt8.ofNat (b.toNat + 256 * ofLittleEndian rest) = b := by
      apply UInt8.toNat_inj.mp
      simp
    simp [littleEndian, ofLittleEndian, hdiv, ih, hword]

theorem bigEndian_ofBigEndian (bs : Octets) : bigEndian bs.length (ofBigEndian bs) = bs := by
  have h := littleEndian_ofLittleEndian bs.reverse
  rw [List.length_reverse] at h
  simp [bigEndian, ofBigEndian, h]

@[simp] theorem length_slice (bs : Octets) (start count : Nat) :
    (bs.slice start count).length = min count (bs.length - start) := by
  simp [slice]

end Octets

end SegmentLog
