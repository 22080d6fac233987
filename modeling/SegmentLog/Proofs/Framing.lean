import SegmentLog.Proofs.Codec

/-!
Octets as a row of records. `Octets.parse` reads records from the front as long as it can; what is
left is the remnant, which starts where no whole record does. A string is whole when nothing is
left, which is to say that it is a row of forms of records (`whole_iff`). A row can be read in
pieces (`records_append`), and a string cut at its remnant is whole (`whole_take_wholeLength`).
-/

namespace SegmentLog.Octets

open Record (form)

theorem length_drop_lt {bs : Octets} {r : Record} (h : Record.decode bs = .ok r) :
    (bs.drop r.encodedLength).length < bs.length := by
  obtain ⟨-, hlen, -, -⟩ := Record.form_of_decode h
  have hsize := Record.size_le_encodedLength r
  simp only [Header.size] at hsize
  rw [List.length_drop]
  omega

/-- What comes of reading records from the front of a string. -/
structure Parse where
  records : List Record
  /-- What is left where no whole record starts. -/
  remnant : Octets
  /-- Why nothing decodes there. -/
  flaw : Error

/-- Reads records from the front of a string as long as they decode. -/
def parse (bs : Octets) : Parse :=
  match _h : Record.decode bs with
  | .error e => ⟨[], bs, e⟩
  | .ok r =>
    let later := parse (bs.drop r.encodedLength)
    ⟨r :: later.records, later.remnant, later.flaw⟩
termination_by bs.length
decreasing_by exact length_drop_lt ‹_›

/-- The records that can be read from the front of a string. -/
def records (bs : Octets) : List Record := (parse bs).records

/-- What is left of a string where no whole record starts. -/
def remnant (bs : Octets) : Octets := (parse bs).remnant

/-- Why no record starts at the remnant of a string. -/
def flaw (bs : Octets) : Error := (parse bs).flaw

/-- A string that is a row of whole records. -/
def Whole (bs : Octets) : Prop := bs.remnant = []

instance (bs : Octets) : Decidable bs.Whole := inferInstanceAs (Decidable (_ = _))

/-! ## Reading one record after the other -/

theorem parse_of_error {bs : Octets} {e : Error} (h : Record.decode bs = .error e) :
    parse bs = ⟨[], bs, e⟩ := by
  rw [Octets.parse]
  split
  · rename_i e' h'
    rw [h] at h'
    cases h'
    rfl
  · simp_all

theorem parse_of_ok {bs : Octets} {r : Record} (h : Record.decode bs = .ok r) :
    parse bs = ⟨r :: records (bs.drop r.encodedLength), remnant (bs.drop r.encodedLength),
      flaw (bs.drop r.encodedLength)⟩ := by
  rw [Octets.parse]
  split
  · simp_all
  · rename_i r' h'
    rw [h] at h'
    cases h'
    rfl

theorem decode_nil : Record.decode [] = .error (.shortBuffer 0 Header.size) := rfl

@[simp] theorem records_nil : records [] = [] := by
  rw [records, parse_of_error decode_nil]

@[simp] theorem whole_nil : Whole [] := by
  rw [Whole, remnant, parse_of_error decode_nil]

section Step

variable {bs : Octets} {r : Record} {e : Error}

theorem records_of_ok (h : Record.decode bs = .ok r) :
    bs.records = r :: records (bs.drop r.encodedLength) := by
  rw [records, parse_of_ok h]

theorem remnant_of_ok (h : Record.decode bs = .ok r) :
    bs.remnant = remnant (bs.drop r.encodedLength) := by
  rw [remnant, parse_of_ok h]

theorem flaw_of_ok (h : Record.decode bs = .ok r) :
    bs.flaw = flaw (bs.drop r.encodedLength) := by
  rw [flaw, parse_of_ok h]

theorem records_of_error (h : Record.decode bs = .error e) : bs.records = [] := by
  rw [records, parse_of_error h]

theorem remnant_of_error (h : Record.decode bs = .error e) : bs.remnant = bs := by
  rw [remnant, parse_of_error h]

theorem flaw_of_error (h : Record.decode bs = .error e) : bs.flaw = e := by
  rw [flaw, parse_of_error h]

end Step

/-! ## Rows of records -/

theorem records_form_append {r : Record} (hf : r.Fits) (bs : Octets) :
    records (r.form ++ bs) = r :: bs.records := by
  rw [records_of_ok (Record.decode_form_append hf bs), ← Record.length_form, List.drop_left]

theorem remnant_form_append {r : Record} (hf : r.Fits) (bs : Octets) :
    remnant (r.form ++ bs) = bs.remnant := by
  rw [remnant_of_ok (Record.decode_form_append hf bs), ← Record.length_form, List.drop_left]

/-- A string is the row of its records followed by its remnant. -/
theorem row_append_remnant (bs : Octets) :
    (∀ r ∈ bs.records, r.Fits) ∧ bs.records.flatMap form ++ bs.remnant = bs := by
  induction hn : bs.length using Nat.strongRecOn generalizing bs with
  | ind n ih =>
    cases h : Record.decode bs with
    | error e => simp [records_of_error h, remnant_of_error h]
    | ok r =>
      obtain ⟨hfits, hrow⟩ := ih _ (hn ▸ length_drop_lt h) (bs.drop r.encodedLength) rfl
      rw [records_of_ok h, remnant_of_ok h]
      refine ⟨?_, ?_⟩
      · intro s hs
        rcases List.mem_cons.mp hs with rfl | hs
        · exact (Record.form_of_decode h).1
        · exact hfits s hs
      · rw [List.flatMap_cons, List.append_assoc, hrow]
        exact (Record.eq_form_append_of_decode h).symm

theorem fits_of_mem_records {bs : Octets} {r : Record} (h : r ∈ bs.records) : r.Fits :=
  (row_append_remnant bs).1 r h

theorem records_row_append {rs : List Record} (h : ∀ r ∈ rs, r.Fits) (bs : Octets) :
    records (rs.flatMap form ++ bs) = rs ++ bs.records := by
  induction rs with
  | nil => rfl
  | cons r rest ih =>
    rw [List.flatMap_cons, List.append_assoc, records_form_append (h r List.mem_cons_self),
      ih fun s hs => h s (List.mem_cons_of_mem _ hs)]
    rfl

theorem remnant_row_append {rs : List Record} (h : ∀ r ∈ rs, r.Fits) (bs : Octets) :
    remnant (rs.flatMap form ++ bs) = bs.remnant := by
  induction rs with
  | nil => rfl
  | cons r rest ih =>
    rw [List.flatMap_cons, List.append_assoc, remnant_form_append (h r List.mem_cons_self),
      ih fun s hs => h s (List.mem_cons_of_mem _ hs)]

theorem Whole.eq_row {bs : Octets} (h : bs.Whole) : bs = bs.records.flatMap form := by
  have hrow := (row_append_remnant bs).2
  rw [h, List.append_nil] at hrow
  exact hrow.symm

theorem whole_row {rs : List Record} (h : ∀ r ∈ rs, r.Fits) : Whole (rs.flatMap form) := by
  have hrem := remnant_row_append h []
  rw [List.append_nil] at hrem
  rw [Whole, hrem]
  exact whole_nil

theorem records_row {rs : List Record} (h : ∀ r ∈ rs, r.Fits) :
    records (rs.flatMap form) = rs := by
  have hrec := records_row_append h []
  rwa [List.append_nil, records_nil, List.append_nil] at hrec

/-- Whole strings are exactly the rows of forms of records. -/
theorem whole_iff {bs : Octets} :
    bs.Whole ↔ ∃ rs : List Record, (∀ r ∈ rs, r.Fits) ∧ bs = rs.flatMap form := by
  constructor
  · intro h
    exact ⟨bs.records, fun r => fits_of_mem_records, h.eq_row⟩
  · rintro ⟨rs, hfits, rfl⟩
    exact whole_row hfits

theorem whole_form {r : Record} (h : r.Fits) : Whole r.form := by
  have hone : ∀ s ∈ [r], s.Fits := by simpa using h
  simpa using whole_row hone

theorem records_form {r : Record} (h : r.Fits) : records r.form = [r] := by
  have hone : ∀ s ∈ [r], s.Fits := by simpa using h
  simpa using records_row hone

/-! ## Reading in pieces -/

theorem records_append {bs : Octets} (h : bs.Whole) (tail : Octets) :
    records (bs ++ tail) = bs.records ++ tail.records := by
  have hrow := records_row_append (row_append_remnant bs).1 tail
  rwa [← h.eq_row] at hrow

theorem remnant_append {bs : Octets} (h : bs.Whole) (tail : Octets) :
    remnant (bs ++ tail) = tail.remnant := by
  have hrow := remnant_row_append (row_append_remnant bs).1 tail
  rwa [← h.eq_row] at hrow

theorem Whole.append {bs tail : Octets} (h : bs.Whole) (ht : tail.Whole) :
    Whole (bs ++ tail) := by
  rw [Whole, remnant_append h]
  exact ht

/-! ## Cutting at the remnant -/

/-- Where the remnant starts. -/
def wholeLength (bs : Octets) : Nat := bs.length - bs.remnant.length

theorem length_remnant_le (bs : Octets) : bs.remnant.length ≤ bs.length := by
  have hrow := congrArg List.length (row_append_remnant bs).2
  rw [List.length_append] at hrow
  omega

theorem wholeLength_le (bs : Octets) : bs.wholeLength ≤ bs.length := Nat.sub_le _ _

theorem wholeLength_of_error {bs : Octets} {e : Error} (h : Record.decode bs = .error e) :
    bs.wholeLength = 0 := by
  rw [wholeLength, remnant_of_error h, Nat.sub_self]

theorem wholeLength_of_ok {bs : Octets} {r : Record} (h : Record.decode bs = .ok r) :
    bs.wholeLength = r.encodedLength + wholeLength (bs.drop r.encodedLength) := by
  obtain ⟨-, hlen, -, -⟩ := Record.form_of_decode h
  have hle := length_remnant_le (bs.drop r.encodedLength)
  rw [wholeLength, wholeLength, remnant_of_ok h]
  rw [List.length_drop] at hle ⊢
  omega

theorem take_wholeLength (bs : Octets) :
    bs.take bs.wholeLength = bs.records.flatMap form := by
  have hrow := (row_append_remnant bs).2
  have hlen := congrArg List.length hrow
  rw [List.length_append] at hlen
  have hk : bs.wholeLength = (bs.records.flatMap form).length := by
    rw [wholeLength]
    omega
  calc bs.take bs.wholeLength
      = (bs.records.flatMap form ++ bs.remnant).take bs.wholeLength := by rw [hrow]
    _ = bs.records.flatMap form := by rw [hk, List.take_left]

theorem whole_take_wholeLength (bs : Octets) : Whole (bs.take bs.wholeLength) := by
  rw [take_wholeLength]
  exact whole_row fun r => fits_of_mem_records

theorem records_take_wholeLength (bs : Octets) :
    records (bs.take bs.wholeLength) = bs.records := by
  rw [take_wholeLength]
  exact records_row fun r => fits_of_mem_records

theorem drop_wholeLength (bs : Octets) : bs.drop bs.wholeLength = bs.remnant := by
  have hsplit := List.take_append_drop bs.wholeLength bs
  rw [take_wholeLength] at hsplit
  exact List.append_cancel_left (hsplit.trans (row_append_remnant bs).2.symm)

theorem wholeLength_lt {bs : Octets} (h : ¬ bs.Whole) : bs.wholeLength < bs.length := by
  have hpos : 0 < bs.remnant.length := List.length_pos_iff.mpr h
  have hle := length_remnant_le bs
  rw [wholeLength]
  omega

/-- What can be read from the front of a string is the front of what can be read from it. -/
theorem records_take_prefix (bs : Octets) (n : Nat) : records (bs.take n) <+: bs.records := by
  have hsplit : bs = (bs.take n).take (wholeLength (bs.take n)) ++
      ((bs.take n).drop (wholeLength (bs.take n)) ++ bs.drop n) := by
    rw [← List.append_assoc, List.take_append_drop, List.take_append_drop]
  have hread := records_append (whole_take_wholeLength (bs.take n))
    ((bs.take n).drop (wholeLength (bs.take n)) ++ bs.drop n)
  rw [← hsplit, records_take_wholeLength] at hread
  exact ⟨_, hread.symm⟩

/-- No whole record starts at the remnant. -/
theorem decode_remnant (bs : Octets) : Record.decode bs.remnant = .error bs.flaw := by
  induction hn : bs.length using Nat.strongRecOn generalizing bs with
  | ind n ih =>
    cases h : Record.decode bs with
    | error e => rw [remnant_of_error h, flaw_of_error h, h]
    | ok r =>
      rw [remnant_of_ok h, flaw_of_ok h]
      exact ih _ (hn ▸ length_drop_lt h) _ rfl

end SegmentLog.Octets
