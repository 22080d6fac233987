import SegmentLog.Octets.Lemmas
import SegmentLog.Record.Codec

/-!
The form of a record on disk is read back exactly: what is written decodes to the record whatever
follows it (`decode_encode_append`), and octets that decode start with the written form of the
record they decode to (`encode_of_decode`).
-/

namespace SegmentLog

/-! ## Words in the middle of a string -/

namespace Octets

theorem slice_middle {front mid back : Octets} {start count : Nat}
    (hs : front.length = start) (hc : mid.length = count) :
    (front ++ mid ++ back).slice start count = mid := by
  subst hs hc
  simp [slice]

theorem take_add_slice (bs : Octets) (start count : Nat) :
    bs.take (start + count) = bs.take start ++ bs.slice start count := by
  simp [slice, List.take_add]

/-- A word that is read and written again gives the octets it was read from. -/
theorem bigEndian_word (bs : Octets) {start count : Nat} (h : start + count ≤ bs.length) :
    bigEndian count (Header.word bs start count) = bs.slice start count := by
  have hlen : (bs.slice start count).length = count := by simp; omega
  have hback := bigEndian_ofBigEndian (bs.slice start count)
  rwa [hlen] at hback

theorem word_lt (bs : Octets) (start count : Nat) : Header.word bs start count < 256 ^ count := by
  have hlt := ofBigEndian_lt (bs.slice start count)
  have hlen : (bs.slice start count).length ≤ count := by simp
  exact Nat.lt_of_lt_of_le hlt (Nat.pow_le_pow_right (by decide) hlen)

end Octets

/-! ## Headers -/

namespace Header

@[simp] theorem length_toOctets (h : Header) : h.toOctets.length = size := by
  simp [toOctets, size]

/-- The lengths fit their fields. -/
def Fits (h : Header) : Prop := h.keyLength < 65536 ∧ h.valueLength < 65536

/-- A word that stands between `front` and `back` is read from there. -/
theorem word_bigEndian {bs back : Octets} {start count n : Nat} (front : Octets)
    (hbs : bs = front ++ Octets.bigEndian count n ++ back) (hs : front.length = start)
    (hn : n < 256 ^ count) : word bs start count = n := by
  subst hbs
  rw [word, Octets.slice_middle hs (Octets.length_bigEndian count n),
    Octets.ofBigEndian_bigEndian count n hn]

theorem word_octet {bs back : Octets} {start : Nat} {b : UInt8} (front : Octets)
    (hbs : bs = front ++ [b] ++ back) (hs : front.length = start) :
    word bs start 1 = b.toNat := by
  subst hbs
  have hone : [b].length = 1 := rfl
  rw [word, Octets.slice_middle hs hone]
  simp [Octets.ofBigEndian, Octets.ofLittleEndian]

theorem ofOctets_toOctets_append (h : Header) (rest : Octets) (hf : h.Fits) :
    ofOctets (h.toOctets ++ rest) = h := by
  have hseq : word (h.toOctets ++ rest) 0 8 = h.sequence.toNat :=
    word_bigEndian [] (by simp [toOctets]; rfl) rfl h.sequence.toNat_lt
  have htxn : word (h.toOctets ++ rest) 8 8 = h.txn.toNat :=
    word_bigEndian (Octets.bigEndian 8 h.sequence.toNat)
      (by simp [toOctets]; rfl) (by simp) h.txn.toNat_lt
  have htag : word (h.toOctets ++ rest) 16 1 = h.tag.toNat :=
    word_octet (Octets.bigEndian 8 h.sequence.toNat ++ Octets.bigEndian 8 h.txn.toNat)
      (by simp [toOctets]; rfl) (by simp)
  have hflags : word (h.toOctets ++ rest) 17 1 = h.flags.toNat :=
    word_octet (Octets.bigEndian 8 h.sequence.toNat ++ Octets.bigEndian 8 h.txn.toNat ++
      [h.tag]) (by simp [toOctets]; rfl) (by simp)
  have hkey : word (h.toOctets ++ rest) 18 2 = h.keyLength :=
    word_bigEndian (Octets.bigEndian 8 h.sequence.toNat ++
      Octets.bigEndian 8 h.txn.toNat ++ [h.tag, h.flags]) (by simp [toOctets]; rfl) (by simp) hf.1
  have hvalue : word (h.toOctets ++ rest) 20 2 = h.valueLength :=
    word_bigEndian (Octets.bigEndian 8 h.sequence.toNat ++
      Octets.bigEndian 8 h.txn.toNat ++ [h.tag, h.flags] ++ Octets.bigEndian 2 h.keyLength)
      (by simp [toOctets]; rfl) (by simp) hf.2
  have hsum : word (h.toOctets ++ rest) 22 4 = h.checksum.toNat :=
    word_bigEndian (Octets.bigEndian 8 h.sequence.toNat ++
      Octets.bigEndian 8 h.txn.toNat ++ [h.tag, h.flags] ++ Octets.bigEndian 2 h.keyLength ++
      Octets.bigEndian 2 h.valueLength) (by simp [toOctets]; rfl) (by simp) h.checksum.toNat_lt
  simp [ofOctets, hseq, htxn, htag, hflags, hkey, hvalue, hsum]

theorem fits_ofOctets (bs : Octets) : (ofOctets bs).Fits :=
  ⟨Octets.word_lt bs 18 2, Octets.word_lt bs 20 2⟩

/-- An octet that is read as a word of one octet and written again. -/
theorem singleton_word (bs : Octets) (start : Nat) (h : start + 1 ≤ bs.length) :
    [UInt8.ofNat (word bs start 1)] = bs.slice start 1 := by
  rw [← Octets.bigEndian_word bs h]
  rfl

theorem toOctets_ofOctets {bs : Octets} (h : size ≤ bs.length) :
    (ofOctets bs).toOctets = bs.take size := by
  have h26 : 26 ≤ bs.length := h
  have hseq : (UInt64.ofNat (word bs 0 8)).toNat = word bs 0 8 :=
    UInt64.toNat_ofNat_of_lt' (Octets.word_lt bs 0 8)
  have htxn : (UInt64.ofNat (word bs 8 8)).toNat = word bs 8 8 :=
    UInt64.toNat_ofNat_of_lt' (Octets.word_lt bs 8 8)
  have hsum : (UInt32.ofNat (word bs 22 4)).toNat = word bs 22 4 :=
    UInt32.toNat_ofNat_of_lt' (Octets.word_lt bs 22 4)
  have htag := singleton_word bs 16 (by omega)
  have hflags := singleton_word bs 17 (by omega)
  simp only [toOctets, ofOctets, hseq, htxn, hsum]
  rw [Octets.bigEndian_word bs (by omega), Octets.bigEndian_word bs (by omega),
    Octets.bigEndian_word bs (by omega), Octets.bigEndian_word bs (by omega),
    Octets.bigEndian_word bs (by omega),
    show ∀ a b : UInt8, [a, b] = [a] ++ [b] from fun _ _ => rfl, htag, hflags]
  -- the slices are adjacent, from the first octet of the header to its last
  have h0 := Octets.take_add_slice bs 0 8
  have h8 := Octets.take_add_slice bs 8 8
  have h16 := Octets.take_add_slice bs 16 1
  have h17 := Octets.take_add_slice bs 17 1
  have h18 := Octets.take_add_slice bs 18 2
  have h20 := Octets.take_add_slice bs 20 2
  have h22 := Octets.take_add_slice bs 22 4
  simp only [List.take_zero, List.nil_append, Nat.reduceAdd] at h0 h8 h16 h17 h18 h20 h22
  rw [size, h22, h20, h18, h17, h16, h8, h0]
  simp [List.append_assoc]

theorem word_take {bs : Octets} {start count n : Nat} (h : start + count ≤ n) :
    word (bs.take n) start count = word bs start count := by
  have hslice : Octets.slice (bs.take n) start count = bs.slice start count := by
    rw [Octets.slice, Octets.slice, List.drop_take, List.take_take]
    congr 1
    omega
  rw [word, hslice]
  rfl

/-- Octets cut off behind the header do not change it. -/
theorem ofOctets_take {bs : Octets} {n : Nat} (h : size ≤ n) :
    ofOctets (bs.take n) = ofOctets bs := by
  have h26 : 26 ≤ n := h
  simp only [ofOctets]
  rw [word_take (by omega), word_take (by omega), word_take (by omega), word_take (by omega),
    word_take (by omega), word_take (by omega), word_take (by omega)]

end Header

/-! ## Records -/

namespace Record

/-- The key and the value fit their length fields. -/
def Fits (r : Record) : Prop := r.key.length ≤ fieldLimit ∧ r.value.length ≤ fieldLimit

instance (r : Record) : Decidable r.Fits := inferInstanceAs (Decidable (_ ∧ _))

/-- The octets of a record that fits. -/
def form (r : Record) : Octets := r.header.toOctets ++ r.payload

theorem encode_of_fits {r : Record} (h : r.Fits) : r.encode = .ok r.form := by
  obtain ⟨hk, hv⟩ := h
  rw [encode, if_neg (by omega), if_neg (by omega)]
  rfl

theorem encode_eq_ok_iff {r : Record} {bs : Octets} :
    r.encode = .ok bs ↔ r.Fits ∧ bs = r.form := by
  constructor
  · intro h
    unfold encode at h
    split at h
    · cases h
    · split at h
      · cases h
      · rename_i hk hv
        cases h
        exact ⟨⟨by omega, by omega⟩, rfl⟩
  · rintro ⟨h, rfl⟩
    exact encode_of_fits h

@[simp] theorem length_form (r : Record) : r.form.length = r.encodedLength := by
  simp [form, payload, encodedLength, Nat.add_assoc]

theorem size_le_encodedLength (r : Record) : Header.size ≤ r.encodedLength := by
  simp only [encodedLength]
  omega

theorem form_ne_nil (r : Record) : r.form ≠ [] := by
  have hlength := size_le_encodedLength r
  rw [← length_form] at hlength
  rintro hnil
  rw [hnil] at hlength
  exact absurd hlength (by decide)

theorem ne_nil_of_encode {r : Record} {bs : Octets} (h : r.encode = .ok bs) : bs ≠ [] := by
  obtain ⟨-, rfl⟩ := encode_eq_ok_iff.mp h
  exact r.form_ne_nil

theorem fits_header {r : Record} (h : r.Fits) : r.header.Fits := by
  obtain ⟨hk, hv⟩ := h
  simp only [fieldLimit] at hk hv
  exact ⟨by simp only [header]; omega, by simp only [header]; omega⟩

theorem recordLength_header (r : Record) : r.header.recordLength = r.encodedLength := by
  simp [Header.recordLength, Header.payloadLength, header, encodedLength, Nat.add_assoc]

/-- The key and the value are checked as one string when they are read. -/
theorem checksum_eq (r : Record) : r.checksum = Checksum.ofOctets r.payload := by
  rw [checksum, Checksum.ofOctets, payload, Checksum.update_append]

theorem assemble_header (r : Record) : assemble r.header r.payload = .ok r := by
  have hkey : r.payload.take r.key.length = r.key := by simp [payload]
  have hvalue : r.payload.drop r.key.length = r.value := by simp [payload]
  simp [assemble, header, checksum_eq, hkey, hvalue]

theorem decode_form_append {r : Record} (h : r.Fits) (tail : Octets) :
    decode (r.form ++ tail) = .ok r := by
  have hlen : (r.form ++ tail).length = r.encodedLength + tail.length := by simp
  have hsize := size_le_encodedLength r
  have hhead : Header.ofOctets (r.form ++ tail) = r.header := by
    rw [form, List.append_assoc]
    exact Header.ofOctets_toOctets_append r.header _ (fits_header h)
  have hpay : (r.form ++ tail).slice Header.size r.header.payloadLength = r.payload := by
    apply Octets.slice_middle (Header.length_toOctets r.header)
    simp [payload, Header.payloadLength, header]
  rw [decode, if_neg (by omega)]
  simp only [hhead, recordLength_header]
  rw [if_neg (by omega), hpay, assemble_header]

theorem decode_encode_append {r : Record} {bs : Octets} (h : r.encode = .ok bs) (tail : Octets) :
    decode (bs ++ tail) = .ok r := by
  obtain ⟨hf, rfl⟩ := encode_eq_ok_iff.mp h
  exact decode_form_append hf tail

/-- A record that is put together has the header and the payload that it is put together from. -/
theorem form_of_assemble {h : Header} {payload : Octets} {r : Record}
    (hl : payload.length = h.payloadLength) (ha : assemble h payload = .ok r) :
    r.header = h ∧ r.payload = payload := by
  unfold assemble at ha
  simp only at ha
  split at ha
  · cases ha
  rename_i hsum
  split at ha
  · cases ha
  rename_i kind hkind
  cases ha
  have hk : (payload.take h.keyLength).length = h.keyLength := by
    simp only [Header.payloadLength] at hl
    rw [List.length_take]
    omega
  have hv : (payload.drop h.keyLength).length = h.valueLength := by
    simp only [Header.payloadLength] at hl
    rw [List.length_drop]
    omega
  have hp : payload.take h.keyLength ++ payload.drop h.keyLength = payload :=
    List.take_append_drop _ _
  refine ⟨?_, hp⟩
  simp only [header, checksum_eq, Record.payload, hk, hv, hp, Kind.tag_of_ofTag? hkind]
  rw [Classical.not_not.mp hsum]

/-- Octets that decode begin with the form of the record they decode to. -/
theorem form_of_decode {bs : Octets} {r : Record} (h : decode bs = .ok r) :
    r.Fits ∧ r.encodedLength ≤ bs.length ∧ bs.take r.encodedLength = r.form ∧
      Header.ofOctets bs = r.header := by
  unfold decode at h
  split at h
  · cases h
  rename_i hsize
  simp only at h
  split at h
  · cases h
  rename_i htotal
  have hlen : (bs.slice Header.size (Header.ofOctets bs).payloadLength).length =
      (Header.ofOctets bs).payloadLength := by
    simp only [Header.recordLength] at htotal
    simp
    omega
  obtain ⟨hh, hp⟩ := form_of_assemble hlen h
  have henc : r.encodedLength = (Header.ofOctets bs).recordLength := by
    rw [← recordLength_header, hh]
  have hfits := Header.fits_ofOctets bs
  rw [← hh] at hfits
  refine ⟨⟨Nat.le_of_lt_succ hfits.1, Nat.le_of_lt_succ hfits.2⟩, by omega, ?_, hh.symm⟩
  rw [henc, Header.recordLength, Octets.take_add_slice, ← hp,
    ← Header.toOctets_ofOctets (by omega), ← hh]
  rfl

theorem encode_of_decode {bs : Octets} {r : Record} (h : decode bs = .ok r) :
    r.encode = .ok (bs.take r.encodedLength) := by
  obtain ⟨hf, -, hform, -⟩ := form_of_decode h
  rw [hform]
  exact encode_of_fits hf

theorem eq_form_append_of_decode {bs : Octets} {r : Record} (h : decode bs = .ok r) :
    bs = r.form ++ bs.drop r.encodedLength := by
  obtain ⟨-, -, hform, -⟩ := form_of_decode h
  rw [← hform, List.take_append_drop]

/-- Decoding looks at no more than the record that the header announces. -/
theorem decode_take {bs : Octets} (h : (Header.ofOctets bs).recordLength ≤ bs.length) :
    decode (bs.take (Header.ofOctets bs).recordLength) = decode bs := by
  have hsize : Header.size ≤ (Header.ofOctets bs).recordLength := by
    simp only [Header.recordLength]
    omega
  have hlen : (bs.take (Header.ofOctets bs).recordLength).length =
      (Header.ofOctets bs).recordLength := by
    rw [List.length_take]
    omega
  have hslice : Octets.slice (bs.take (Header.ofOctets bs).recordLength) Header.size
      (Header.ofOctets bs).payloadLength =
        bs.slice Header.size (Header.ofOctets bs).payloadLength := by
    rw [Octets.slice, Octets.slice, List.drop_take, List.take_take]
    congr 1
    simp only [Header.recordLength]
    omega
  simp only [decode, Header.ofOctets_take hsize, hslice, hlen]
  rw [if_neg (by omega), if_neg (by omega), if_neg (by omega), if_neg (by omega)]

end Record

end SegmentLog
