import Mathlib.Tactic.Ring
import Mathlib.Logic.Function.Iterate
import SegmentLog.Proofs.Codec

/-!
What the checksum detects. Shifting the register loses nothing (`shift_injective`) and goes along
with exclusive or (`shift_xor`). Up to four octets therefore enter the register as one word
(`update_eq`), so two windows of one length leave different registers behind
(`update_window`), and the octets after the window keep them apart (`update_injective`). A
change of a record's payload that stays within four adjacent octets is always detected
(`Record.burst_detected`).
-/

namespace SegmentLog

theorem Octets.ofLittleEndian_lt_of_length_le {bs : Octets} {n : Nat} (h : bs.length ≤ n) :
    ofLittleEndian bs < 256 ^ n :=
  Nat.lt_of_lt_of_le (ofLittleEndian_lt bs) (Nat.pow_le_pow_right (by decide) h)

namespace Checksum

/-! ## Shifting the register -/

theorem and_one_eq_one_iff (x : UInt32) : x &&& 1 = 1 ↔ x.toNat % 2 = 1 := by
  rw [← UInt32.toNat_inj, UInt32.toNat_and]
  exact Eq.congr (Nat.and_one_is_mod _) rfl

/-- What shifting a register adds for the bit that leaves it. -/
theorem shift_eq (x : UInt32) : shift x = (x >>> 1) ^^^ if x &&& 1 = 1 then polynomial else 0 := by
  unfold shift
  split
  · rfl
  · exact UInt32.xor_zero.symm

theorem toNat_shift_of_even {x : UInt32} (h : x.toNat % 2 = 0) : (shift x).toNat = x.toNat / 2 := by
  have hbit : ¬ x &&& 1 = 1 := by
    rw [and_one_eq_one_iff]
    omega
  rw [shift, if_neg hbit, UInt32.toNat_shiftRight]
  exact Nat.shiftRight_one _

theorem shift_xor (x y : UInt32) : shift (x ^^^ y) = shift x ^^^ shift y := by
  have hparity : (x ^^^ y).toNat % 2 = (x.toNat % 2) ^^^ (y.toNat % 2) := by
    rw [UInt32.toNat_xor, ← Nat.and_one_is_mod, ← Nat.and_one_is_mod, ← Nat.and_one_is_mod,
      Nat.and_xor_distrib_right]
  have hadded : (if (x ^^^ y) &&& 1 = 1 then polynomial else 0) =
      (if x &&& 1 = 1 then polynomial else 0) ^^^ if y &&& 1 = 1 then polynomial else 0 := by
    simp only [and_one_eq_one_iff, hparity]
    -- it is added for one of two bits, or twice, or not at all
    rcases Nat.mod_two_eq_zero_or_one x.toNat with hx | hx <;>
      rcases Nat.mod_two_eq_zero_or_one y.toNat with hy | hy <;>
      simp [hx, hy]
  rw [shift_eq, shift_eq x, shift_eq y, UInt32.shiftRight_xor, hadded]
  ac_rfl

theorem eq_zero_of_shift {x : UInt32} (h : shift x = 0) : x = 0 := by
  rw [← UInt32.toNat_inj]
  by_cases hbit : x &&& 1 = 1
  · -- the highest bit of the polynomial tells that a bit has left the register
    rw [shift, if_pos hbit, UInt32.xor_eq_zero_iff] at h
    have hhalf : x.toNat / 2 = polynomial.toNat := by
      rw [← h, UInt32.toNat_shiftRight]
      exact (Nat.shiftRight_one _).symm
    have hpolynomial : polynomial.toNat = 3988292384 := rfl
    have hbound := x.toNat_lt
    omega
  · have heven : x.toNat % 2 = 0 := by
      rw [and_one_eq_one_iff] at hbit
      omega
    have hhalf := toNat_shift_of_even heven
    have hzero : (0 : UInt32).toNat = 0 := rfl
    rw [h] at hhalf
    omega

theorem shift_injective : Function.Injective shift := by
  intro x y h
  rw [← UInt32.xor_eq_zero_iff] at h ⊢
  rw [← shift_xor] at h
  exact eq_zero_of_shift h

/-! ## Octets through the register -/

theorem step_eq (register : UInt32) (octet : UInt8) :
    step register octet = shift^[8] (register ^^^ octet.toUInt32) := rfl

theorem shifts_xor (n : Nat) (x y : UInt32) : shift^[n] (x ^^^ y) = shift^[n] x ^^^ shift^[n] y :=
  Function.Semiconj₂.iterate shift_xor n x y

/-- Bits that stand above others are shifted down to their place. -/
theorem shifts_ofNat {n k : Nat} (h : 2 ^ k * n < 2 ^ 32) :
    shift^[k] (UInt32.ofNat (2 ^ k * n)) = UInt32.ofNat n := by
  induction k with
  | zero => simp
  | succ k ih =>
    have hdouble : 2 ^ (k + 1) * n = 2 * (2 ^ k * n) := by ring
    have hword : (UInt32.ofNat (2 ^ (k + 1) * n)).toNat = 2 * (2 ^ k * n) := by
      rw [UInt32.toNat_ofNat_of_lt' h, hdouble]
    have hshift : shift (UInt32.ofNat (2 ^ (k + 1) * n)) = UInt32.ofNat (2 ^ k * n) := by
      rw [← UInt32.toNat_inj, toNat_shift_of_even (by omega), hword,
        UInt32.toNat_ofNat_of_lt' (by change _ < 2 ^ 32; omega)]
      omega
    rw [Function.iterate_succ_apply, hshift]
    exact ih (by omega)

/-- A word and the octet below it do not overlap. -/
theorem ofNat_octet_add {b n : Nat} (hb : b < 256) (h : b + 256 * n < 2 ^ 32) :
    UInt32.ofNat (b + 256 * n) = UInt32.ofNat b ^^^ UInt32.ofNat (256 * n) := by
  have hsum : b + 256 * n = b ^^^ (256 * n) := by
    apply Nat.eq_of_testBit_eq
    intro j
    have hadd := Nat.testBit_two_pow_mul_add n (i := 8) hb j
    have hmul := Nat.testBit_two_pow_mul (i := 8) (a := n) (j := j)
    rw [show b + 256 * n = 2 ^ 8 * n + b by omega, hadd, Nat.testBit_xor,
      show 256 * n = 2 ^ 8 * n by omega, hmul]
    by_cases hj : j < 8
    · have hlow : ¬ 8 ≤ j := by omega
      simp [hj, hlow]
    · have hpow : 2 ^ 8 ≤ 2 ^ j := Nat.pow_le_pow_right (by decide) (by omega)
      have hzero : b.testBit j = false := Nat.testBit_lt_two_pow (Nat.lt_of_lt_of_le hb hpow)
      have hge : 8 ≤ j := by omega
      simp [hj, hge, hzero]
  rw [← UInt32.toNat_inj, UInt32.toNat_xor, UInt32.toNat_ofNat_of_lt' h,
    UInt32.toNat_ofNat_of_lt' (by change _ < 2 ^ 32; omega),
    UInt32.toNat_ofNat_of_lt' (by change _ < 2 ^ 32; omega), ← hsum]

/-- Up to four octets go through the register as one word. -/
theorem update_eq (register : UInt32) {bs : Octets} (h : bs.length ≤ 4) :
    update register bs =
      shift^[8 * bs.length] (register ^^^ UInt32.ofNat (Octets.ofLittleEndian bs)) := by
  induction bs generalizing register with
  | nil => simp [update, Octets.ofLittleEndian]
  | cons b rest ih =>
    simp only [List.length_cons] at h
    have hb : b.toNat < 256 := b.toNat_lt
    have hrest : Octets.ofLittleEndian rest < 256 ^ 3 :=
      Octets.ofLittleEndian_lt_of_length_le (by omega)
    -- the later octets stand above the first one, which is shifted out of their way
    have hlater : UInt32.ofNat (Octets.ofLittleEndian rest) =
        shift^[8] (UInt32.ofNat (256 * Octets.ofLittleEndian rest)) := by
      have hshifts := shifts_ofNat (n := Octets.ofLittleEndian rest) (k := 8) (by omega)
      exact hshifts.symm
    have hword : UInt32.ofNat (Octets.ofLittleEndian (b :: rest)) =
        b.toUInt32 ^^^ UInt32.ofNat (256 * Octets.ofLittleEndian rest) := by
      have hoctet : UInt32.ofNat b.toNat = b.toUInt32 := UInt32.ofNat_uInt8ToNat b
      rw [Octets.ofLittleEndian, ofNat_octet_add hb (by omega), hoctet]
    calc update register (b :: rest)
        = update (step register b) rest := rfl
      _ = shift^[8 * rest.length] (shift^[8] (register ^^^ b.toUInt32) ^^^
            UInt32.ofNat (Octets.ofLittleEndian rest)) := by rw [ih _ (by omega), step_eq]
      _ = shift^[8 * rest.length] (shift^[8] (register ^^^
            UInt32.ofNat (Octets.ofLittleEndian (b :: rest)))) := by
          rw [hlater, ← shifts_xor, hword, UInt32.xor_assoc]
      _ = shift^[8 * (b :: rest).length] (register ^^^
            UInt32.ofNat (Octets.ofLittleEndian (b :: rest))) := by
          rw [← Function.iterate_add_apply]
          rfl

/-- Octets that follow keep two registers apart. -/
theorem update_injective (bs : Octets) : Function.Injective (update · bs) := by
  induction bs with
  | nil => exact fun _ _ h => h
  | cons b rest ih =>
    intro x y h
    have hstep : step x b = step y b := ih h
    rw [step_eq, step_eq] at hstep
    exact (UInt32.xor_left_inj _).mp (shift_injective.iterate 8 hstep)

/-- Two windows of one length that leave the same register behind are the same. -/
theorem update_window {register : UInt32} {old new : Octets} (hlength : new.length = old.length)
    (hfour : old.length ≤ 4) (h : update register new = update register old) : new = old := by
  rw [update_eq register hfour, update_eq register (by omega), hlength] at h
  have hword := (UInt32.xor_right_inj _).mp (shift_injective.iterate _ h)
  have hnew : Octets.ofLittleEndian new < 256 ^ 4 :=
    Octets.ofLittleEndian_lt_of_length_le (by omega)
  have hold : Octets.ofLittleEndian old < 256 ^ 4 := Octets.ofLittleEndian_lt_of_length_le hfour
  rw [← UInt32.toNat_inj, UInt32.toNat_ofNat_of_lt' hnew, UInt32.toNat_ofNat_of_lt' hold] at hword
  rw [← Octets.littleEndian_ofLittleEndian new, ← Octets.littleEndian_ofLittleEndian old, hword,
    hlength]

/-- Octets that differ within four adjacent places only have different checksums. -/
theorem ofOctets_ne_of_burst {front old new back : Octets} (hlength : new.length = old.length)
    (hfour : old.length ≤ 4) (hne : new ≠ old) :
    ofOctets (front ++ new ++ back) ≠ ofOctets (front ++ old ++ back) := by
  intro h
  rw [ofOctets, ofOctets, finish, finish, UInt32.xor_left_inj] at h
  simp only [update_append] at h
  exact hne (update_window hlength hfour (update_injective back h))

/-- Five octets are too many: the generator itself is not detected. -/
example : ofOctets [0x41, 0x06, 0x71, 0xDB, 0x01] = ofOctets [0, 0, 0, 0, 0] := by
  decide +kernel

end Checksum

namespace Record

/-- Changed octets are told from the form of a record: whatever follows them they are refused,
because the checksum of what stands behind the header is not that of the record. -/
def Detects (r : Record) (changed : Octets) : Prop :=
  let computed := Checksum.ofOctets (changed.drop Header.size)
  computed ≠ r.checksum ∧
    ∀ tail, decode (changed ++ tail) = .error (.checksumMismatch r.checksum computed)

variable {r : Record}

/-- Behind the header of a record other octets of the same number decode only if their checksum is
that of the record. -/
theorem decode_of_changed (h : r.Fits) {payload : Octets}
    (hlength : payload.length = r.payload.length)
    (hsum : Checksum.ofOctets payload ≠ r.checksum) (tail : Octets) :
    decode (r.header.toOctets ++ payload ++ tail) =
      .error (.checksumMismatch r.checksum (Checksum.ofOctets payload)) := by
  have hpayload : r.header.payloadLength = r.payload.length := by
    simp [Record.payload, Header.payloadLength, header]
  have hhead : Header.ofOctets (r.header.toOctets ++ payload ++ tail) = r.header := by
    rw [List.append_assoc]
    exact Header.ofOctets_toOctets_append r.header _ (fits_header h)
  have hslice : (r.header.toOctets ++ payload ++ tail).slice Header.size r.header.payloadLength =
      payload :=
    Octets.slice_middle (Header.length_toOctets r.header) (hlength.trans hpayload.symm)
  have hlen : (r.header.toOctets ++ payload ++ tail).length =
      Header.size + r.header.payloadLength + tail.length := by
    simp [hlength, hpayload]
    omega
  have hstored : r.header.checksum = r.checksum := rfl
  rw [decode, hlen, if_neg (by omega)]
  simp only [hhead, Header.recordLength]
  rw [if_neg (by omega), hslice, assemble, hstored, if_pos hsum]

/-- The header of a record stands in front of a change of its payload. -/
theorem exists_eq_header_append {front back : Octets} (h : r.form = front ++ back)
    (hsize : Header.size ≤ front.length) : ∃ rest, front = r.header.toOctets ++ rest := by
  have hheader : r.header.toOctets <+: r.form := List.prefix_append _ _
  have hhead : r.header.toOctets <+: front := by
    refine List.prefix_of_prefix_length_le hheader ⟨back, h.symm⟩ ?_
    rw [Header.length_toOctets]
    exact hsize
  obtain ⟨rest, hrest⟩ := hhead
  exact ⟨rest, hrest.symm⟩

/-- A change within four adjacent octets of the payload is detected. -/
theorem detects_of_burst (h : r.Fits) {front old new back : Octets}
    (hsplit : r.form = front ++ old ++ back) (hsize : Header.size ≤ front.length)
    (hfour : old.length ≤ 4) (hlength : new.length = old.length) (hne : new ≠ old) :
    r.Detects (front ++ new ++ back) := by
  obtain ⟨rest, rfl⟩ := exists_eq_header_append (hsplit.trans (List.append_assoc _ _ _)) hsize
  have hpayload : r.payload = rest ++ old ++ back := by
    simpa [form] using hsplit
  have hchanged : r.header.toOctets ++ rest ++ new ++ back =
      r.header.toOctets ++ (rest ++ new ++ back) := by simp
  have hdrop : (r.header.toOctets ++ rest ++ new ++ back).drop Header.size =
      rest ++ new ++ back := by
    rw [hchanged, ← Header.length_toOctets r.header, List.drop_left]
  have hsum : Checksum.ofOctets (rest ++ new ++ back) ≠ r.checksum := by
    rw [checksum_eq, hpayload]
    exact Checksum.ofOctets_ne_of_burst hlength hfour hne
  rw [Detects, hdrop]
  refine ⟨hsum, fun tail => ?_⟩
  rw [hchanged]
  exact decode_of_changed h (by simp [hpayload, hlength]) hsum tail

/-- Damage to the payload of a record that is confined to four adjacent octets is detected, wherever
the key ends. So is every change of a single octet. -/
theorem burst_detected {bs : Octets} (h : r.encode = .ok bs) :
    (∀ front old new back : Octets, bs = front ++ old ++ back → Header.size ≤ front.length →
      old.length ≤ 4 → new.length = old.length → new ≠ old → r.Detects (front ++ new ++ back)) ∧
    ∀ (i : Nat) (mask : UInt8), Header.size ≤ i → i < bs.length → mask ≠ 0 →
      r.Detects (bs.modify i (· ^^^ mask)) := by
  obtain ⟨hf, rfl⟩ := encode_eq_ok_iff.mp h
  refine ⟨fun front old new back => detects_of_burst hf, ?_⟩
  intro i mask hsize hi hmask
  have hsplit : r.form = r.form.take i ++ [r.form[i]] ++ r.form.drop (i + 1) := by
    simp
  have hmodify : r.form.modify i (· ^^^ mask) =
      r.form.take i ++ [r.form[i] ^^^ mask] ++ r.form.drop (i + 1) := by
    rw [List.modify_eq_take_cons_drop hi]
    simp
  rw [hmodify]
  apply detects_of_burst hf hsplit
  · rw [List.length_take]
    omega
  · simp
  · simp
  · simpa using hmask

/-- Four octets are changed, of which the first two end the key and the others begin the value. Then
one bit of the last octet is flipped. -/
theorem burst_detected_acrossKey :
    let r := write 7 3 [97, 98, 99] [100, 101, 102]
    let head := r.form.take 27
    r.encode = .ok (head ++ [98, 99, 100, 101] ++ [102]) ∧
    r.Detects (head ++ [0, 255, 7, 101] ++ [102]) ∧
    r.Detects ((head ++ [98, 99, 100, 101] ++ [102]).modify 31 (· ^^^ 128)) := by
  intro r head
  have hencode : r.encode = .ok (head ++ [98, 99, 100, 101] ++ [102]) := by decide +kernel
  obtain ⟨hburst, hflip⟩ := burst_detected hencode
  refine ⟨hencode, ?_, ?_⟩
  · exact hburst head [98, 99, 100, 101] [0, 255, 7, 101] [102] rfl (by decide +kernel) (by decide)
      rfl (by decide)
  · exact hflip 31 128 (by decide) (by decide +kernel) (by decide)

end Record

end SegmentLog
