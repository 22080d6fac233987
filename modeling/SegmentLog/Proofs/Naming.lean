import Mathlib.Data.Nat.ModEq
import SegmentLog.Segment

/-!
The name under which a segment is created is read back as that segment (`ofName?_fileName`). The
digits of a number, read after other digits, stand for its value in as many places
(`digitsFrom?_fixedDigits`).
-/

namespace SegmentLog

namespace Text

theorem digit?_digitChar {k : Nat} (h : k < 10) : digit? (Nat.digitChar k) = some k := by
  revert k
  decide

theorem digitsFrom?_snoc (acc : Nat) (cs : List Char) (c : Char) :
    digitsFrom? acc (cs ++ [c]) =
      (digitsFrom? acc cs).bind fun n => (digit? c).map (n * 10 + ·) := by
  induction cs generalizing acc with
  | nil =>
    cases h : digit? c with
    | none => simp [digitsFrom?, h]
    | some d => simp [digitsFrom?, h]
  | cons b rest ih =>
    rw [List.cons_append, digitsFrom?, digitsFrom?]
    cases digit? b with
    | none => rfl
    | some d => exact ih _

theorem digitsFrom?_fixedDigits (acc width n : Nat) :
    digitsFrom? acc (fixedDigits 10 width n) = some (acc * 10 ^ width + n % 10 ^ width) := by
  induction width generalizing n with
  | zero => simp [fixedDigits, digitsFrom?, Nat.mod_one]
  | succ width ih =>
    have hlast := digit?_digitChar (Nat.mod_lt n (by decide : 0 < 10))
    have hmod : n % 10 ^ (width + 1) = n % 10 + 10 * (n / 10 % 10 ^ width) := by
      rw [Nat.pow_succ', Nat.mod_mul]
    have hpow : acc * 10 ^ (width + 1) = acc * 10 ^ width * 10 := by
      rw [Nat.pow_succ, Nat.mul_assoc]
    rw [fixedDigits, digitsFrom?_snoc, ih, hlast]
    simp only [Option.bind_some, Option.map_some, Option.some.injEq]
    omega

theorem digit?_of_mem_fixedDigits {width n : Nat} {c : Char} (h : c ∈ fixedDigits 10 width n) :
    ∃ d, digit? c = some d := by
  induction width generalizing n with
  | zero => cases h
  | succ width ih =>
    rw [fixedDigits, List.mem_append, List.mem_singleton] at h
    rcases h with h | rfl
    · exact ih h
    · exact ⟨_, digit?_digitChar (Nat.mod_lt n (by decide))⟩

theorem utf8ByteSize_fixedDigits (width n : Nat) :
    (String.ofList (fixedDigits 10 width n)).utf8ByteSize = width := by
  induction width generalizing n with
  | zero => rfl
  | succ width ih =>
    have hone : (String.ofList [Nat.digitChar (n % 10)]).utf8ByteSize = 1 := by
      have hdigit : ∀ k < 10, (String.ofList [Nat.digitChar k]).utf8ByteSize = 1 := by decide
      exact hdigit _ (Nat.mod_lt n (by decide))
    rw [fixedDigits, String.ofList_append, String.utf8ByteSize_append, ih, hone]

theorem word64?_of_digits {c : Char} {rest : List Char} {n : Nat} (hc : c ≠ '+')
    (hn : digitsFrom? 0 (c :: rest) = some n) (hlt : n < UInt64.size) :
    word64? (c :: rest) = some (UInt64.ofNat n) := by
  unfold word64?
  split
  · rename_i h
    cases h
    exact absurd rfl hc
  · simp [digits?, hn, hlt]

theorem word64?_fixedDigits (id : UInt64) :
    word64? (fixedDigits 10 20 id.toNat) = some id := by
  have hread := digitsFrom?_fixedDigits 0 20 id.toNat
  have hlt : id.toNat < UInt64.size := id.toNat_lt
  have hmod : id.toNat % 10 ^ 20 = id.toNat := by
    apply Nat.mod_eq_of_lt
    simp only [UInt64.size] at hlt
    omega
  rw [hmod, Nat.zero_mul, Nat.zero_add] at hread
  cases hcs : fixedDigits 10 20 id.toNat with
  | nil =>
    have hlen := length_fixedDigits 10 20 id.toNat
    simp [hcs] at hlen
  | cons c rest =>
    have hplus : c ≠ '+' := by
      rintro rfl
      obtain ⟨d, hd⟩ := digit?_of_mem_fixedDigits (hcs ▸ List.mem_cons_self : '+' ∈ _)
      have hnone : digit? '+' = none := by decide
      rw [hnone] at hd
      cases hd
    rw [hcs] at hread
    rw [word64?_of_digits hplus hread hlt, UInt64.ofNat_toNat]

end Text

namespace Segment

theorem toList_fileName (id : UInt64) :
    (fileName id).toList = Text.fixedDigits 10 20 id.toNat ++ ['.', 'w', 'a', 'l'] := by
  simp [fileName, extension]

theorem utf8ByteSize_fileName (id : UInt64) : (fileName id).utf8ByteSize = 24 := by
  have hdigits := Text.utf8ByteSize_fixedDigits 20 id.toNat
  have hext : ("." : String).utf8ByteSize = 1 ∧ extension.utf8ByteSize = 3 := by decide
  rw [fileName, String.utf8ByteSize_append, String.utf8ByteSize_append, hdigits, hext.1, hext.2]

/-- What is neither a digit nor in the extension is in no name that segments are created with. -/
theorem not_mem_fileName {c : Char} (hdigit : Text.digit? c = none)
    (hext : c ∉ ['.', 'w', 'a', 'l']) (id : UInt64) : c ∉ (fileName id).toList := by
  rw [toList_fileName, List.mem_append]
  rintro (h | h)
  · obtain ⟨d, hd⟩ := Text.digit?_of_mem_fixedDigits h
    rw [hdigit] at hd
    cases hd
  · exact hext h

theorem splitExtension_append_wal {cs : List Char} (h : cs ≠ []) :
    Path.splitExtension (cs ++ ['.', 'w', 'a', 'l']) = (cs, some ['w', 'a', 'l']) := by
  have hne : cs.reverse ≠ [] := by simpa using h
  cases hr : cs.reverse with
  | nil => exact absurd hr hne
  | cons c rest =>
    have hback : (c :: rest).reverse = cs := by rw [← hr, List.reverse_reverse]
    simp only [Path.splitExtension, List.reverse_append, hr]
    simp [← hback]

theorem idOfName?_fileName (id : UInt64) : idOfName? (fileName id) = some id := by
  have hne : Text.fixedDigits 10 20 id.toNat ≠ [] := by
    intro h
    have hlen := Text.length_fixedDigits 10 20 id.toNat
    simp [h] at hlen
  have hext : (['w', 'a', 'l'] : List Char) = extension.toList := by simp [extension]
  simp only [idOfName?, toList_fileName, splitExtension_append_wal hne]
  rw [if_pos hext, Text.word64?_fixedDigits]

@[simp] theorem ofName?_fileName (id : UInt64) : ofName? (fileName id) = some (ofId id) := by
  rw [ofName?, idOfName?_fileName]
  rfl

theorem name_of_ofName? {name : String} {s : Segment} (h : ofName? name = some s) :
    s.name = name := by
  unfold ofName? at h
  obtain ⟨id, -, rfl⟩ := Option.map_eq_some_iff.mp h
  rfl

/-- A segment that its own name stands for. -/
def Named (s : Segment) : Prop := ofName? s.name = some s

instance (s : Segment) : Decidable s.Named := inferInstanceAs (Decidable (_ = _))

theorem named_ofId (id : UInt64) : (ofId id).Named := ofName?_fileName id

theorem Named.eq_of_name {s t : Segment} (hs : s.Named) (ht : t.Named) (h : s.name = t.name) :
    s = t := by
  rw [Named, h, ht] at hs
  exact (Option.some.inj hs).symm

end Segment

end SegmentLog
