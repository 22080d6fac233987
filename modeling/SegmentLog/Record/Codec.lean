import SegmentLog.Checksum
import SegmentLog.Error
import SegmentLog.Record

/-!
The form of a record on disk: a header of 26 octets, the key, the value. All words are
big-endian, and the checksum covers key and value. A record whose key or value is longer than
its 16-bit length field allows has no such form.

Decoding looks at the front of its input and ignores the rest. It reports, in this order, an
incomplete header, an incomplete payload, a wrong checksum and an unknown kind.
-/

namespace SegmentLog

/-- The fixed part of a record on disk. -/
structure Header where
  sequence : UInt64
  txn : UInt64
  tag : UInt8
  flags : UInt8
  keyLength : Nat
  valueLength : Nat
  checksum : UInt32
  deriving DecidableEq, Repr

namespace Header

def size : Nat := 26

def payloadLength (h : Header) : Nat := h.keyLength + h.valueLength

def recordLength (h : Header) : Nat := size + h.payloadLength

def toOctets (h : Header) : Octets :=
  Octets.bigEndian 8 h.sequence.toNat ++ Octets.bigEndian 8 h.txn.toNat ++ [h.tag, h.flags] ++
    Octets.bigEndian 2 h.keyLength ++ Octets.bigEndian 2 h.valueLength ++
    Octets.bigEndian 4 h.checksum.toNat

/-- The word in `count` octets from offset `start` on. -/
def word (bs : Octets) (start count : Nat) : Nat := Octets.ofBigEndian (bs.slice start count)

def ofOctets (bs : Octets) : Header where
  sequence := UInt64.ofNat (word bs 0 8)
  txn := UInt64.ofNat (word bs 8 8)
  tag := UInt8.ofNat (word bs 16 1)
  flags := UInt8.ofNat (word bs 17 1)
  keyLength := word bs 18 2
  valueLength := word bs 20 2
  checksum := UInt32.ofNat (word bs 22 4)

end Header

namespace Record

/-- The longest key or value a record can carry. -/
def fieldLimit : Nat := 65535

def encodedLength (r : Record) : Nat := Header.size + r.key.length + r.value.length

/-- The checksum over the key and behind it the value. -/
def checksum (r : Record) : UInt32 :=
  Checksum.finish (Checksum.update (Checksum.update Checksum.initial r.key) r.value)

def header (r : Record) : Header where
  sequence := r.sequence
  txn := r.txn
  tag := r.kind.tag
  flags := r.flags
  keyLength := r.key.length
  valueLength := r.value.length
  checksum := r.checksum

/-- The record on disk; its key is checked before its value. -/
def encode (r : Record) : Except Error Octets :=
  if fieldLimit < r.key.length then .error (.fieldTooLarge "key" r.key.length fieldLimit)
  else if fieldLimit < r.value.length then
    .error (.fieldTooLarge "value" r.value.length fieldLimit)
  else .ok (r.header.toOctets ++ r.payload)

def assemble (h : Header) (payload : Octets) : Except Error Record :=
  let computed := Checksum.ofOctets payload
  if computed ≠ h.checksum then .error (.checksumMismatch h.checksum computed)
  else
    match Kind.ofTag? h.tag with
    | none => .error (.unknownKind h.tag)
    | some kind =>
      .ok { sequence := h.sequence, txn := h.txn, kind, flags := h.flags,
            key := payload.take h.keyLength, value := payload.drop h.keyLength }

def decode (bs : Octets) : Except Error Record :=
  if bs.length < Header.size then .error (.shortBuffer bs.length Header.size)
  else
    let h := Header.ofOctets bs
    if bs.length < h.recordLength then .error (.unexpectedEnd bs.length h.recordLength)
    else assemble h (bs.slice Header.size h.payloadLength)

end Record

end SegmentLog
