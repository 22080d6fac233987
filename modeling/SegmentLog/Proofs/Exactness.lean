import SegmentLog.Proofs.Codec

/-!
The form of a record on disk is exact. `Record.codec_exact` collects it: a record is refused
only for a key or a value of more than 65535 octets; what is written reads back, whatever stands
behind it; octets are accepted if and only if they begin with the form of a record, and then of
one record only; and no proper prefix of a form is taken for damage other than a cut.
-/

namespace SegmentLog

namespace Record

/-! ## Refusal -/

/-- A record that is too long is refused for its key first. -/
theorem encode_eq_error_iff {r : Record} {e : Error} :
    r.encode = .error e ↔
      fieldLimit < r.key.length ∧ e = .fieldTooLarge "key" r.key.length fieldLimit ∨
        r.key.length ≤ fieldLimit ∧ fieldLimit < r.value.length ∧
          e = .fieldTooLarge "value" r.value.length fieldLimit := by
  by_cases hk : fieldLimit < r.key.length
  · have hk' : ¬ r.key.length ≤ fieldLimit := by omega
    simp [encode, hk, hk', eq_comm]
  · by_cases hv : fieldLimit < r.value.length
    · have hk' : r.key.length ≤ fieldLimit := by omega
      simp [encode, hk, hv, hk', eq_comm]
    · have hf : r.Fits := ⟨by omega, by omega⟩
      simp [encode_of_fits hf, hk, hv]

theorem exists_encode_iff {r : Record} : (∃ bs, r.encode = .ok bs) ↔ r.Fits := by
  constructor
  · rintro ⟨bs, h⟩
    exact (encode_eq_ok_iff.mp h).1
  · intro h
    exact ⟨r.form, encode_of_fits h⟩

/-! ## Prefixes -/

/-- A form that is cut inside its header. -/
theorem decode_take_header {r : Record} {n : Nat} (hn : n < Header.size) :
    decode (r.form.take n) = .error (.shortBuffer n Header.size) := by
  have hsize := size_le_encodedLength r
  have hlen : (r.form.take n).length = n := by
    rw [List.length_take, length_form]
    omega
  rw [decode, hlen, if_pos hn]

/-- A form that is cut inside its payload. -/
theorem decode_take_payload {r : Record} (h : r.Fits) {n : Nat} (hsize : Header.size ≤ n)
    (hn : n < r.encodedLength) :
    decode (r.form.take n) = .error (.unexpectedEnd n r.encodedLength) := by
  have hlen : (r.form.take n).length = n := by
    rw [List.length_take, length_form]
    omega
  -- the header is complete, so the length it announces is that of the record
  have hhead : Header.ofOctets (r.form.take n) = r.header := by
    rw [Header.ofOctets_take hsize]
    exact Header.ofOctets_toOctets_append r.header r.payload (fits_header h)
  rw [decode, hlen, if_neg (by omega)]
  simp only [hhead, recordLength_header]
  rw [if_pos hn]

theorem decode_take_form {r : Record} (h : r.Fits) {n : Nat} (hn : n < r.encodedLength) :
    ∃ e, decode (r.form.take n) = .error e ∧ e.isTruncation = true := by
  by_cases hsize : n < Header.size
  · exact ⟨_, decode_take_header hsize, rfl⟩
  · exact ⟨_, decode_take_payload h (by omega) hn, rfl⟩

/-! ## Acceptance -/

theorem decode_eq_ok_iff {d : Octets} {r : Record} :
    decode d = .ok r ↔ r.encode = .ok (d.take r.encodedLength) := by
  constructor
  · exact encode_of_decode
  · intro h
    have hback := decode_encode_append h (d.drop r.encodedLength)
    rwa [List.take_append_drop] at hback

theorem decode_of_isPrefix {r : Record} {bs d : Octets} (h : r.encode = .ok bs) (hp : bs <+: d) :
    decode d = .ok r := by
  obtain ⟨tail, rfl⟩ := hp
  exact decode_encode_append h tail

theorem exists_decode_iff {d : Octets} :
    (∃ r, decode d = .ok r) ↔ ∃ (r : Record) (bs : Octets), r.encode = .ok bs ∧ bs <+: d := by
  constructor
  · rintro ⟨r, h⟩
    exact ⟨r, d.take r.encodedLength, encode_of_decode h, List.take_prefix _ d⟩
  · rintro ⟨r, bs, h, hp⟩
    exact ⟨r, decode_of_isPrefix h hp⟩

/-- No octets begin with the forms of two records. -/
theorem eq_of_isPrefix {r s : Record} {bs cs d : Octets} (hr : r.encode = .ok bs)
    (hs : s.encode = .ok cs) (hbs : bs <+: d) (hcs : cs <+: d) : r = s := by
  have h := decode_of_isPrefix hr hbs
  rw [decode_of_isPrefix hs hcs] at h
  cases h
  rfl

/-- The codec of records is exact in both directions and at every cut. -/
theorem codec_exact (r : Record) (d : Octets) :
    (∀ e, r.encode = .error e ↔
      65535 < r.key.length ∧ e = .fieldTooLarge "key" r.key.length 65535 ∨
        r.key.length ≤ 65535 ∧ 65535 < r.value.length ∧
          e = .fieldTooLarge "value" r.value.length 65535) ∧
    ((∃ bs, r.encode = .ok bs) ↔ r.key.length ≤ 65535 ∧ r.value.length ≤ 65535) ∧
    (∀ bs, r.encode = .ok bs →
      bs.length = r.encodedLength ∧
      (∀ tail, decode (bs ++ tail) = .ok r) ∧
      ∀ n < bs.length, ∃ e, decode (bs.take n) = .error e ∧
        e.isTruncation = true ∧ e.isCorruption = false) ∧
    (decode d = .ok r ↔ r.encode = .ok (d.take r.encodedLength)) ∧
    ((∃ s, decode d = .ok s) ↔ ∃ (s : Record) (bs : Octets), s.encode = .ok bs ∧ bs <+: d) ∧
    (∀ (s : Record) (bs cs : Octets), r.encode = .ok bs → s.encode = .ok cs →
      bs <+: d → cs <+: d → r = s) := by
  refine ⟨fun e => encode_eq_error_iff, exists_encode_iff, ?_, decode_eq_ok_iff,
    exists_decode_iff, fun s bs cs => eq_of_isPrefix⟩
  intro bs h
  obtain ⟨hf, rfl⟩ := encode_eq_ok_iff.mp h
  refine ⟨length_form r, decode_form_append hf, ?_⟩
  intro n hn
  rw [length_form] at hn
  obtain ⟨e, he, ht⟩ := decode_take_form hf hn
  exact ⟨e, he, ht, Error.not_isCorruption_of_isTruncation ht⟩

/-- A write of one octet to a key of two: 29 octets, of which 28 read as a cut record. -/
theorem codec_exact_cut : ∃ bs, (write 7 3 [97, 98] [99]).encode = .ok bs ∧ bs.length = 29 ∧
    (∀ tail, decode (bs ++ tail) = .ok (write 7 3 [97, 98] [99])) ∧
    ∃ e, decode (bs.take 28) = .error e ∧ e.isTruncation = true ∧ e.isCorruption = false := by
  obtain ⟨-, hfits, hform, -⟩ := codec_exact (write 7 3 [97, 98] [99]) []
  obtain ⟨bs, hbs⟩ := hfits.mpr ⟨by decide, by decide⟩
  obtain ⟨hlen, hback, hcut⟩ := hform bs hbs
  have h29 : bs.length = 29 := by
    rw [hlen]
    rfl
  refine ⟨bs, hbs, h29, hback, ?_⟩
  apply hcut 28
  omega

end Record

end SegmentLog
