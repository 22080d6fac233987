import SegmentLog.Octets

/-!
The cyclic redundancy check of 32 bits that guards a record's payload: the reflected
polynomial `0xEDB88320`, a register that starts with all ones, and a complemented result. The
register takes one octet at a time, so a string may be checked in pieces
(`update_append`), as the key and the value of a record are when it is encoded.
-/

namespace SegmentLog.Checksum

/-- The generator polynomial, lowest power in the highest bit. -/
def polynomial : UInt32 := 0xEDB88320

def shift (register : UInt32) : UInt32 :=
  if register &&& 1 = 1 then (register >>> 1) ^^^ polynomial else register >>> 1

/-- One octet through the register: it meets the low eight bits, which are then shifted out. -/
def step (register : UInt32) (octet : UInt8) : UInt32 :=
  shift (shift (shift (shift (shift (shift (shift (shift (register ^^^ octet.toUInt32))))))))

def update (register : UInt32) (bs : Octets) : UInt32 := bs.foldl step register

def initial : UInt32 := 0xFFFFFFFF

def finish (register : UInt32) : UInt32 := register ^^^ 0xFFFFFFFF

def ofOctets (bs : Octets) : UInt32 := finish (update initial bs)

theorem update_append (register : UInt32) (front back : Octets) :
    update register (front ++ back) = update (update register front) back := by
  simp [update]

end SegmentLog.Checksum
