import Mathlib.Data.List.Induction
import Mathlib.Data.Nat.Digits.Defs
import SegmentLog.Proofs.Listing
import SegmentLog.Text.Utf8

/-!
Which names are numbers of segments. A name is read as a number exactly if it spells it: a plus
sign or none, digits, and the extension (`idOfPath?_eq_some`), and the names under which segments are
created are read back in whatever folder they stand (`idOfPath?_path`). Their digits are fixed in
number, so the octets of two such names compare as the numbers do (`toOctets_fileName_lt_iff`). A
listing is therefore ascending in both ways (`list_spells`).
-/

namespace SegmentLog

/-! ## Digits -/

namespace Text

/-- The number that decimal digits stand for. -/
def decimal (digits : List Char) : Nat := Nat.ofDigits 10 (digits.reverse.map fun c => c.toNat - 48)

theorem decimal_snoc (digits : List Char) (c : Char) :
    decimal (digits ++ [c]) = decimal digits * 10 + (c.toNat - 48) := by
  simp only [decimal, List.reverse_append, List.reverse_singleton, List.singleton_append,
    List.map_cons, Nat.ofDigits_cons]
  omega

theorem digit?_eq (c : Char) : digit? c = if c.isDigit then some (c.toNat - 48) else none := by
  have hdigit : ('0' ≤ c ∧ c ≤ '9') ↔ c.isDigit = true := by
    simp only [Char.isDigit, Bool.and_eq_true, decide_eq_true_eq]
    exact Iff.rfl
  simp only [digit?, hdigit]
  rfl

theorem digitsFrom?_eq_some {cs : List Char} {n : Nat} :
    digitsFrom? 0 cs = some n ↔ (∀ c ∈ cs, c.isDigit) ∧ decimal cs = n := by
  induction cs using List.reverseRecOn generalizing n with
  | nil => simp [digitsFrom?, decimal]
  | append_singleton cs c ih =>
    have hall : (∀ b ∈ cs ++ [c], b.isDigit) ↔ (∀ b ∈ cs, b.isDigit) ∧ c.isDigit := by
      simp [or_imp, forall_and]
    rw [digitsFrom?_snoc, Option.bind_eq_some_iff, hall, decimal_snoc, digit?_eq]
    constructor
    · rintro ⟨k, hk, hlast⟩
      obtain ⟨hdigits, rfl⟩ := ih.mp hk
      by_cases hc : c.isDigit
      · simp only [hc, if_true, Option.map_some, Option.some.injEq] at hlast
        exact ⟨⟨hdigits, hc⟩, hlast⟩
      · simp [hc] at hlast
    · rintro ⟨⟨hdigits, hc⟩, hn⟩
      exact ⟨_, ih.mpr ⟨hdigits, rfl⟩, by simp [hc, hn]⟩

theorem digits?_eq_some {cs : List Char} {n : Nat} :
    digits? cs = some n ↔ cs ≠ [] ∧ (∀ c ∈ cs, c.isDigit) ∧ decimal cs = n := by
  cases cs with
  | nil => simp [digits?]
  | cons c rest =>
    rw [digits?, digitsFrom?_eq_some]
    simp

/-- The word of a number that fits 64 bits. -/
def word? (n : Nat) : Option UInt64 := if n < UInt64.size then some (UInt64.ofNat n) else none

theorem word?_eq_some {n : Nat} {id : UInt64} : word? n = some id ↔ n = id.toNat := by
  unfold word?
  constructor
  · intro h
    split at h
    · rename_i hn
      rw [← Option.some.inj h, UInt64.toNat_ofNat_of_lt' hn]
    · cases h
  · rintro rfl
    rw [if_pos id.toNat_lt, UInt64.ofNat_toNat]

theorem word64?_plus (digits : List Char) : word64? ('+' :: digits) = (digits? digits).bind word? := by
  cases h : digits? digits with
  | none => simp [word64?, h]
  | some n => simp [word64?, word?, h]

theorem word64?_of_ne {cs : List Char} (hplus : ∀ digits, cs ≠ '+' :: digits) :
    word64? cs = (digits? cs).bind word? := by
  unfold word64?
  split
  · exact absurd rfl (hplus _)
  · cases h : digits? cs with
    | none => simp [h]
    | some n => simp [word?, h]

theorem word64?_eq_some {cs : List Char} {id : UInt64} :
    word64? cs = some id ↔
      ∃ sign digits, cs = sign ++ digits ∧ (sign = [] ∨ sign = ['+']) ∧
        digits? digits = some id.toNat := by
  have hread (digits : List Char) :
      (digits? digits).bind word? = some id ↔ digits? digits = some id.toNat := by
    simp only [Option.bind_eq_some_iff, word?_eq_some, exists_eq_right]
  by_cases hplus : ∃ rest, cs = '+' :: rest
  · obtain ⟨rest, rfl⟩ := hplus
    rw [word64?_plus, hread]
    refine ⟨fun h => ⟨['+'], rest, rfl, .inr rfl, h⟩, ?_⟩
    rintro ⟨sign, digits, hcs, rfl | rfl, hdigits⟩
    · -- a plus sign is no digit
      obtain ⟨-, hall, -⟩ := digits?_eq_some.mp hdigits
      rw [List.nil_append] at hcs
      exact absurd (hall '+' (hcs ▸ List.mem_cons_self)) (by decide)
    · cases hcs
      exact hdigits
  · rw [word64?_of_ne (not_exists.mp hplus), hread]
    refine ⟨fun h => ⟨[], cs, rfl, .inl rfl, h⟩, ?_⟩
    rintro ⟨sign, digits, rfl, rfl | rfl, hdigits⟩
    · exact hdigits
    · exact absurd ⟨digits, rfl⟩ hplus

end Text

/-! ## Paths -/

namespace Path

theorem eq_of_splitExtension {cs stem ext : List Char}
    (h : splitExtension cs = (stem, some ext)) : cs = stem ++ '.' :: ext := by
  unfold splitExtension at h
  split at h
  · cases h
  · cases h
  · rename_i c back _ hdrop
    simp only [Prod.mk.injEq, Option.some.injEq] at h
    obtain ⟨rfl, rfl⟩ := h
    have hsplit := List.takeWhile_append_dropWhile (p := (· ≠ '.')) (l := cs.reverse)
    have hdot := List.head?_dropWhile_not (· ≠ '.') cs.reverse
    rw [hdrop] at hsplit hdot
    obtain rfl : c = '.' := by simpa using hdot
    have hcs := congrArg List.reverse hsplit
    simp only [List.reverse_append, List.reverse_cons, List.append_assoc, List.reverse_reverse,
      List.singleton_append] at hcs
    exact hcs.symm

theorem partsFrom_of_slash_not_mem {cs : List Char} (h : '/' ∉ cs) (name : List Char) :
    partsFrom name cs = named (name ++ cs) := by
  induction cs generalizing name with
  | nil => simp [partsFrom]
  | cons c rest ih =>
    rw [List.mem_cons, not_or] at h
    obtain ⟨hc, hrest⟩ := h
    rw [partsFrom, if_neg (Ne.symm hc), ih hrest, List.append_assoc, List.singleton_append]

theorem partsFrom_append_slash (name cs rest : List Char) :
    partsFrom name (cs ++ '/' :: rest) = partsFrom name cs ++ partsFrom [] rest := by
  induction cs generalizing name with
  | nil => simp [partsFrom]
  | cons c cs ih =>
    rw [List.cons_append, partsFrom, partsFrom]
    split
    · rw [ih, List.append_assoc]
    · rw [ih]

theorem parts_of_slash_not_mem {name : String} (h : '/' ∉ name.toList) (hne : name ≠ "") :
    parts name = [name] := by
  have hnil : name.toList ≠ [] := by simpa using hne
  rw [parts, partsFrom_of_slash_not_mem h, List.nil_append, named, if_neg hnil,
    String.ofList_toList]

/-- A name joined to a folder is the last name along the path. -/
theorem parts_join (folder : String) {name : String} (h : '/' ∉ name.toList) (hne : name ≠ "") :
    ∃ front, parts (join folder name) = front ++ [name] := by
  have hname := parts_of_slash_not_mem h hne
  unfold join
  split
  · exact ⟨[], hname⟩
  · rename_i c hlast
    split
    · rename_i hslash
      obtain ⟨front, hfront⟩ := List.getLast?_eq_some_iff.mp hlast
      refine ⟨partsFrom [] front, ?_⟩
      rw [parts, String.toList_append, hfront, hslash, List.append_assoc, List.singleton_append,
        partsFrom_append_slash, ← hname, parts]
    · refine ⟨parts folder, ?_⟩
      have hslash : ("/" : String).toList = ['/'] := rfl
      rw [parts, String.toList_append, String.toList_append, hslash, List.append_assoc,
        List.singleton_append, partsFrom_append_slash, ← hname, parts, parts]

theorem fileName?_of_parts {path name : String} {front : List String}
    (h : parts path = front ++ [name]) (hdot : name ≠ ".") (hdots : name ≠ "..") :
    fileName? path = some name := by
  have hlast : (dropDots (parts path)).getLast? = some name := by
    simp [dropDots, h, hdot]
  rw [fileName?, hlast]
  exact if_neg hdots

theorem fileName?_join (folder : String) {name : String} (h : '/' ∉ name.toList) (hne : name ≠ "")
    (hdot : name ≠ ".") (hdots : name ≠ "..") : fileName? (join folder name) = some name := by
  obtain ⟨front, hfront⟩ := parts_join folder h hne
  exact fileName?_of_parts hfront hdot hdots

end Path

namespace Segment

/-! ## Names that are numbers -/

/-- A file name spells the number of a segment: a plus sign or none, decimal digits, of which there is
one at least and of which those in front may be zeros, and the extension. -/
def Spells (name : String) (n : Nat) : Prop :=
  ∃ sign digits : List Char, name.toList = sign ++ digits ++ ['.', 'w', 'a', 'l'] ∧
    (sign = [] ∨ sign = ['+']) ∧ digits ≠ [] ∧ (∀ c ∈ digits, c.isDigit) ∧ Text.decimal digits = n

theorem idOfName?_eq_some {name : String} {id : UInt64} :
    idOfName? name = some id ↔ Spells name id.toNat := by
  have hwal : extension.toList = ['w', 'a', 'l'] := by simp [extension]
  unfold idOfName?
  constructor
  · intro h
    split at h
    · rename_i stem ext hsplit
      split at h
      · rename_i hext
        have hname := Path.eq_of_splitExtension hsplit
        obtain ⟨sign, digits, rfl, hsign, hdigits⟩ := Text.word64?_eq_some.mp h
        rw [hext, hwal] at hname
        exact ⟨sign, digits, hname, hsign, Text.digits?_eq_some.mp hdigits⟩
      · cases h
    · cases h
  · rintro ⟨sign, digits, hname, hsign, hne, hdigits, hn⟩
    have hstem : sign ++ digits ≠ [] := by simp [hne]
    simp only [hname, splitExtension_append_wal hstem, hwal, if_true]
    exact Text.word64?_eq_some.mpr
      ⟨sign, digits, rfl, hsign, Text.digits?_eq_some.mpr ⟨hne, hdigits, hn⟩⟩

theorem named_iff {s : Segment} : s.Named ↔ Spells s.name s.id.toNat := by
  rw [← idOfName?_eq_some, Named, ofName?, Option.map_eq_some_iff]
  constructor
  · rintro ⟨id, hid, heq⟩
    rw [hid, ← heq]
  · intro h
    exact ⟨s.id, h, rfl⟩

theorem Spells.ne {name other : String} {n : Nat} (h : Spells name n)
    (hshort : other.length < 4) : name ≠ other := by
  rintro rfl
  obtain ⟨sign, digits, hname, -⟩ := h
  have hlen := congrArg List.length hname
  simp only [String.length_toList, List.length_append, List.length_cons, List.length_nil] at hlen
  omega

/-- A name without folders is read as a number if it spells it, and not at all otherwise. -/
theorem idOfPath?_eq_some {name : String} (h : '/' ∉ name.toList) {id : UInt64} :
    idOfPath? name = some id ↔ Spells name id.toNat := by
  by_cases hdots : name = "" ∨ name = "." ∨ name = ".."
  · have hnone : idOfPath? name = none := by
      rcases hdots with rfl | rfl | rfl <;> decide
    have hshort : name.length < 4 := by
      rcases hdots with rfl | rfl | rfl <;> decide
    rw [hnone]
    constructor
    · intro h
      cases h
    · intro hspells
      exact absurd rfl (hspells.ne hshort)
  · simp only [not_or] at hdots
    have hparts : Path.parts name = [] ++ [name] := Path.parts_of_slash_not_mem h hdots.1
    rw [idOfPath?, Path.fileName?_of_parts hparts hdots.2.1 hdots.2.2, Option.bind_some,
      idOfName?_eq_some]

/-- The path of a segment is read back as its number, whatever the folder is called. -/
theorem idOfPath?_path (folder : String) (id : UInt64) :
    idOfPath? ((ofId id).path folder) = some id := by
  have hspells : Spells (fileName id) id.toNat := idOfName?_eq_some.mp (idOfName?_fileName id)
  have hslash : '/' ∉ (fileName id).toList := not_mem_fileName (by decide) (by decide) id
  have hne : fileName id ≠ "" := hspells.ne (by decide)
  have hdot : fileName id ≠ "." := hspells.ne (by decide)
  have hdots : fileName id ≠ ".." := hspells.ne (by decide)
  have hpath : (ofId id).path folder = Path.join folder (fileName id) := rfl
  rw [hpath, idOfPath?, Path.fileName?_join folder hslash hne hdot hdots, Option.bind_some]
  exact idOfName?_fileName id

end Segment

/-! ## The order of names -/

namespace Octets

/-- Where the strings in front are of one length, what stands behind counts only if they are equal. -/
theorem append_lt_append_iff {a b : Octets} (h : a.length = b.length) (s t : Octets) :
    a ++ s < b ++ t ↔ a < b ∨ a = b ∧ s < t := by
  induction a generalizing b with
  | nil =>
    obtain rfl : b = [] := List.length_eq_zero_iff.mp h.symm
    simp
  | cons x a ih =>
    cases b with
    | nil => cases h
    | cons y b =>
      rw [List.cons_append, List.cons_append, List.cons_lt_cons_iff, List.cons_lt_cons_iff,
        ih (Nat.succ.inj h), List.cons.injEq]
      tauto

end Octets

namespace Text

theorem toOctets_append (a b : String) : toOctets (a ++ b) = toOctets a ++ toOctets b := by
  simp [toOctets, String.toByteArray_append, ByteArray.data_append]

theorem toOctets_digitChar {k : Nat} (h : k < 10) :
    toOctets (String.ofList [Nat.digitChar k]) = [UInt8.ofNat (48 + k)] := by
  revert k
  decide

/-- The octets of a number in fixed digits. -/
def digitOctets (width n : Nat) : Octets := toOctets (String.ofList (fixedDigits 10 width n))

theorem digitOctets_succ (width n : Nat) :
    digitOctets (width + 1) n = digitOctets width (n / 10) ++ [UInt8.ofNat (48 + n % 10)] := by
  rw [digitOctets, fixedDigits, String.ofList_append, toOctets_append,
    toOctets_digitChar (Nat.mod_lt n (by decide))]
  rfl

theorem length_digitOctets (width n : Nat) : (digitOctets width n).length = width := by
  induction width generalizing n with
  | zero => rfl
  | succ width ih => simp [digitOctets_succ, ih]

/-- Numbers in the same number of digits compare as their octets do. -/
theorem digitOctets_lt_iff {width m n : Nat} (hm : m < 10 ^ width) (hn : n < 10 ^ width) :
    digitOctets width m < digitOctets width n ↔ m < n := by
  induction width generalizing m n with
  | zero =>
    obtain rfl : m = 0 := by simpa using hm
    obtain rfl : n = 0 := by simpa using hn
    simp
  | succ width ih =>
    have hm' : m / 10 < 10 ^ width := by rw [Nat.pow_succ] at hm; omega
    have hn' : n / 10 < 10 ^ width := by rw [Nat.pow_succ] at hn; omega
    -- by the law itself, octets that are equal stand for one number
    have hfront : digitOctets width (m / 10) = digitOctets width (n / 10) ↔ m / 10 = n / 10 := by
      constructor
      · intro heq
        have hmn := ih hm' hn'
        have hnm := ih hn' hm'
        rw [heq] at hmn hnm
        have hirr := List.lt_irrefl (digitOctets width (n / 10))
        have hle := mt hmn.mpr hirr
        have hge := mt hnm.mpr hirr
        omega
      · intro heq
        rw [heq]
    have hlast : ([UInt8.ofNat (48 + m % 10)] : Octets) < [UInt8.ofNat (48 + n % 10)] ↔
        m % 10 < n % 10 := by
      rw [List.cons_lt_cons_iff, UInt8.lt_iff_toNat_lt, UInt8.toNat_ofNat', UInt8.toNat_ofNat']
      have hirr := List.lt_irrefl ([] : Octets)
      simp only [hirr, and_false, or_false]
      omega
    rw [digitOctets_succ, digitOctets_succ,
      Octets.append_lt_append_iff (by rw [length_digitOctets, length_digitOctets]), ih hm' hn',
      hfront, hlast]
    omega

end Text

namespace Segment

/-- The names of segments precede one another, octet by octet, as their numbers do. -/
theorem toOctets_fileName_lt_iff (a b : UInt64) :
    Text.toOctets (fileName a) < Text.toOctets (fileName b) ↔ a < b := by
  have hoctets (id : UInt64) : Text.toOctets (fileName id) =
      Text.digitOctets 20 id.toNat ++ Text.toOctets ("." ++ extension) := by
    rw [fileName, String.append_assoc, Text.toOctets_append]
    rfl
  have hwidth (id : UInt64) : id.toNat < 10 ^ 20 := by
    have hlt := id.toNat_lt
    omega
  have hirr := List.lt_irrefl (Text.toOctets ("." ++ extension))
  rw [hoctets, hoctets,
    Octets.append_lt_append_iff (by rw [Text.length_digitOctets, Text.length_digitOctets]),
    Text.digitOctets_lt_iff (hwidth a) (hwidth b), UInt64.lt_iff_toNat_lt]
  simp only [hirr, and_false, or_false]

/-! ## Listings -/

/-- A listing holds the segments that stand in the folder, each once, by ascending number. -/
theorem list_spells {d : Disk} {folder : String} {loc : Location} (hs : d.Sound)
    (hne : folder ≠ "") (hl : d.locate folder = .ok loc) :
    ∃ segments, list d folder = .ok segments ∧ segments.Nodup ∧
      (∀ s, s ∈ segments ↔ Spells s.name s.id.toNat ∧ (d.bodyOf? folder s).isSome) ∧
      segments.Pairwise (·.id ≤ ·.id) := by
  obtain ⟨found, hlist, hnodup, hmem⟩ := Disk.mem_list hs hne hl
  have hperm := sort_perm found
  refine ⟨sort found, hlist, hperm.nodup_iff.mpr hnodup, ?_, pairwise_sort found⟩
  intro s
  rw [hperm.mem_iff, hmem, named_iff]

/-- Among segments that have the names they are created with, ascending numbers are ascending
names. -/
theorem pairwise_toOctets_name {segments : List Segment} (hnodup : segments.Nodup)
    (hascending : segments.Pairwise (·.id ≤ ·.id)) :
    segments.Pairwise fun s t => s = ofId s.id → t = ofId t.id →
      Text.toOctets s.name < Text.toOctets t.name := by
  refine (hnodup.and hascending).imp ?_
  rintro s t ⟨hst, hle⟩ hs ht
  have hid : s.id ≠ t.id := by
    intro hid
    exact hst (hs.trans ((congrArg ofId hid).trans ht.symm))
  rw [hs, ht]
  exact (toOctets_fileName_lt_iff s.id t.id).mpr (UInt64.lt_of_le_of_ne hle hid)

/-- A file name is read as a number exactly if it spells it and the number fits 64 bits; the path of a
segment is read back as its number in any folder; and the names under which segments are created
precede one another, octet by octet, as the numbers do. So listing a folder gives its files whose
names spell numbers, each once, by ascending number, and those with the names segments are created
with by ascending names. -/
theorem names_are_numbers :
    (∀ (name : String) (n : Nat), '/' ∉ name.toList →
      ((idOfPath? name).map (·.toNat) = some n ↔ Spells name n ∧ n < 2 ^ 64)) ∧
    (∀ (folder : String) (id : UInt64), idOfPath? ((ofId id).path folder) = some id) ∧
    (∀ a b : UInt64, Text.toOctets (fileName a) < Text.toOctets (fileName b) ↔ a < b) ∧
    ∀ (d : Disk) (folder : String) (loc : Location),
      d.Sound → folder ≠ "" → d.locate folder = .ok loc →
      ∃ segments, list d folder = .ok segments ∧ segments.Nodup ∧
        (∀ s, s ∈ segments ↔ Spells s.name s.id.toNat ∧ (d.bodyOf? folder s).isSome) ∧
        segments.Pairwise (·.id ≤ ·.id) ∧
        segments.Pairwise fun s t => s = ofId s.id → t = ofId t.id →
          Text.toOctets s.name < Text.toOctets t.name := by
  refine ⟨?_, idOfPath?_path, toOctets_fileName_lt_iff, ?_⟩
  · intro name n hslash
    rw [Option.map_eq_some_iff]
    constructor
    · rintro ⟨id, hid, rfl⟩
      exact ⟨(idOfPath?_eq_some hslash).mp hid, id.toNat_lt⟩
    · rintro ⟨hspells, hlt⟩
      have hid : (UInt64.ofNat n).toNat = n := UInt64.toNat_ofNat_of_lt' hlt
      exact ⟨UInt64.ofNat n, (idOfPath?_eq_some hslash).mpr (hid.symm ▸ hspells), hid⟩
  · intro d folder loc hs hne hl
    obtain ⟨segments, hlist, hnodup, hmem, hascending⟩ := list_spells hs hne hl
    exact ⟨segments, hlist, hnodup, hmem, hascending, pairwise_toOctets_name hnodup hascending⟩

/-- A folder with files whose names are numbers, files whose names only look so, and a folder that is
named like a segment. -/
def mixedNames : Disk where
  nodes := [((Location.top.enter "wal").enter "00000000000000000010.wal", .file 0),
    ((Location.top.enter "wal").enter "7.wal", .file 1),
    ((Location.top.enter "wal").enter "18446744073709551616.wal", .file 2),
    ((Location.top.enter "wal").enter "+3.wal", .file 3),
    ((Location.top.enter "wal").enter "18446744073709551615.wal", .file 4),
    ((Location.top.enter "wal").enter ".wal", .file 5),
    ((Location.top.enter "wal").enter "007.wal", .file 6),
    ((Location.top.enter "wal").enter "8.old.wal", .file 7),
    ((Location.top.enter "wal").enter "9.wal", .folder),
    (Location.top.enter "wal", .folder)]
  nextBody := 8

/-- Of the nine names five are listed, and two of them are those that segments are created with. -/
theorem names_are_numbers_mixedNames :
    (mixedNames.Sound ∧ "wal" ≠ "" ∧ mixedNames.locate "wal" = .ok (Location.top.enter "wal")) ∧
    (idOfPath? "+3.wal").map (·.toNat) = some 3 ∧ Spells "+3.wal" 3 ∧
    idOfPath? "18446744073709551616.wal" = none ∧ idOfPath? "8.old.wal" = none ∧
    idOfPath? "wal/../00000000000000000010.wal" = some 10 ∧
    list mixedNames "wal" = .ok
      [⟨3, "+3.wal"⟩, ⟨7, "7.wal"⟩, ⟨7, "007.wal"⟩, ofId 10, ofId 18446744073709551615] ∧
    Text.toOctets (fileName 10) < Text.toOctets (fileName 18446744073709551615) := by
  have hs : mixedNames.Sound :=
    ⟨by decide +kernel, by decide +kernel, by decide +kernel, by decide +kernel⟩
  have hl : mixedNames.locate "wal" = .ok (Location.top.enter "wal") := by decide +kernel
  have hlist : list mixedNames "wal" = .ok
      [⟨3, "+3.wal"⟩, ⟨7, "7.wal"⟩, ⟨7, "007.wal"⟩, ofId 10, ofId 18446744073709551615] := by
    decide +kernel
  obtain ⟨hread, hback, -, hlisted⟩ := names_are_numbers
  obtain ⟨segments, hsegments, -, -, -, hnames⟩ := hlisted mixedNames "wal" _ hs (by decide) hl
  have hthree : (idOfPath? "+3.wal").map (·.toNat) = some 3 := by decide +kernel
  rw [hlist, Except.ok.injEq] at hsegments
  subst hsegments
  refine ⟨⟨hs, by decide, hl⟩, hthree, ((hread "+3.wal" 3 (by decide)).mp hthree).1,
    by decide +kernel, by decide +kernel, hback "wal/.." 10, hlist, ?_⟩
  simp only [List.pairwise_cons, List.mem_cons] at hnames
  exact hnames.2.2.2.1 (ofId 18446744073709551615) (.inl rfl) rfl rfl

end Segment

end SegmentLog
