import SegmentLog.Octets.Lemmas
import SegmentLog.Ticket

/-!
A ticket is read back from its octets, whatever follows them: it is told from the first octets of its
file and from no others.
-/

namespace SegmentLog.Ticket

theorem ofOctets_toOctets (t : Ticket) (rest : Octets) :
    ofOctets (t.toOctets ++ rest) = .ok t := by
  obtain ⟨isOpen, last⟩ := t
  have hword : Octets.ofLittleEndian (Octets.littleEndian 8 last.toNat) = last.toNat :=
    Octets.ofLittleEndian_littleEndian 8 _ last.toNat_lt
  have htake : (Octets.littleEndian 8 last.toNat ++ rest).take 8 =
      Octets.littleEndian 8 last.toNat := by simp
  have hlong : ¬ 8 + rest.length < 8 := by omega
  cases isOpen <;> simp [toOctets, ofOctets, htake, hword, hlong]

theorem ofOctets_take (bs : Octets) : ofOctets (bs.take size) = ofOctets bs := by
  cases bs with
  | nil => rfl
  | cons flag rest =>
    have htake : (flag :: rest).take size = flag :: rest.take 8 := rfl
    have hshort : (rest.take 8).length < 8 ↔ rest.length < 8 := by
      rw [List.length_take]
      omega
    simp only [htake, ofOctets, hshort, List.take_take, Nat.min_self]

end SegmentLog.Ticket
