import SegmentLog.Record.Codec
import SegmentLog.Segment

/-!
A cursor reads the segments of a folder as one stream of records. Segments are opened one after
the other, each when its first record is asked for, and octets are read ahead in blocks, so a
cursor does not see what happens to a block after it was read.

An error leaves the cursor's offset at the record it is about, while the stream has moved past
what was read of it. The reading of a whole log ends (`pending_next`): every record takes at
least a header off the octets that are still to come.
-/

namespace SegmentLog

/-! ## One open segment -/

/-- An open segment: the octets taken out of the file so far, and those of them that are still
to be used. -/
structure Stream where
  node : Node
  offset : Nat := 0
  ahead : Octets := []
  deriving DecidableEq, Repr

namespace Stream

/-- Octets read ahead at once. A request that misses more than this goes to the file directly. -/
def block : Nat := 8192

/-- The next `count` octets, or those that are left. A full device has only zeros to give. -/
def take (d : Disk) (s : Stream) (count : Nat) : Except Fault (Octets × Stream) :=
  match s.node with
  | .full => .ok (List.replicate count 0, s)
  | _ =>
    if count ≤ s.ahead.length then
      .ok (s.ahead.take count, { s with ahead := s.ahead.drop count })
    else
      let missing := count - s.ahead.length
      match d.read s.node s.offset (max missing block) with
      | .error f => .error f
      | .ok got =>
        .ok (s.ahead ++ got.take missing,
          { s with offset := s.offset + got.length, ahead := got.drop missing })

/-- The next record and its length, nothing at the end of the segment. Errors name the path and
the offset of the segment where the record starts. -/
def next (d : Disk) (path : String) (start : Nat) (s : Stream) :
    Except Error (Option (Record × Nat)) × Stream :=
  match s.take d Header.size with
  | .error f => (.error (.io .readHeader path f), s)
  | .ok (head, s) =>
    if head = [] then (.ok none, s)
    else if head.length < Header.size then
      (.error (.truncated path start Header.size head.length), s)
    else
      let h := Header.ofOctets head
      match s.take d h.payloadLength with
      | .error f => (.error (.io .readPayload path f), s)
      | .ok (payload, s) =>
        if payload.length < h.payloadLength then
          (.error (.truncated path start h.recordLength (Header.size + payload.length)), s)
        else
          match Record.decode (head ++ payload) with
          | .error e => (.error (.corruption path start e), s)
          | .ok r => (.ok (some (r, h.recordLength)), s)

def pending (d : Disk) (s : Stream) : Nat := s.ahead.length + (d.size s.node - s.offset)

theorem take_full {d : Disk} {s : Stream} {count : Nat} (h : s.node = .full) :
    s.take d count = .ok (List.replicate count 0, s) := by
  simp [take, h]

theorem pending_take {d : Disk} {s t : Stream} {count : Nat} {bs : Octets}
    (hn : s.node ≠ .full) (h : s.take d count = .ok (bs, t)) :
    t.node = s.node ∧ t.pending d + bs.length = s.pending d := by
  unfold take at h
  split at h
  · contradiction
  split at h
  · cases h
    simp only [pending, List.length_take, List.length_drop, true_and]
    omega
  · dsimp only at h
    cases hr : d.read s.node s.offset (max (count - s.ahead.length) block) with
    | error f => simp [hr] at h
    | ok got =>
      rw [hr] at h
      cases h
      have hlen : got.length ≤ d.size s.node - s.offset := by
        cases hs : s.node with
        | folder => simp [hs, Disk.read] at hr
        | full => contradiction
        | file body =>
          simp only [hs, Disk.read, Except.ok.injEq] at hr
          subst hr
          simp only [Body.slice_eq, Octets.length_slice, Body.length_octets, Disk.size]
          omega
      simp only [pending, List.length_append, List.length_take, List.length_drop, true_and]
      omega

/-- A full device holds no record. -/
theorem next_full {d : Disk} {s : Stream} {path : String} {start : Nat} (h : s.node = .full) :
    s.next d path start = (.error (.corruption path start (.unknownKind 0)), s) := by
  have hzero : (Header.ofOctets (List.replicate Header.size 0)).payloadLength = 0 := by decide
  have hbad : Record.decode (List.replicate Header.size 0 ++ List.replicate 0 0) =
      .error (.unknownKind 0) := by rfl
  have hhead : List.replicate Header.size (0 : UInt8) ≠ [] := by decide
  simp only [next, take_full h, if_neg hhead, List.length_replicate, Nat.lt_irrefl, if_false,
    hzero, hbad]

theorem pending_next {d : Disk} {s t : Stream} {path : String} {start length : Nat} {r : Record}
    (h : s.next d path start = (.ok (some (r, length)), t)) : t.pending d < s.pending d := by
  by_cases hn : s.node = .full
  · simp [next_full hn] at h
  unfold next at h
  cases hs : s.take d Header.size with
  | error f => simp [hs] at h
  | ok first =>
    obtain ⟨head, s'⟩ := first
    obtain ⟨hnode, hhead⟩ := pending_take hn hs
    simp only [hs] at h
    split at h
    · simp at h
    split at h
    · simp at h
    cases hp : s'.take d (Header.ofOctets head).payloadLength with
    | error f => simp [hp] at h
    | ok second =>
      obtain ⟨payload, s''⟩ := second
      obtain ⟨_, hpay⟩ := pending_take (hnode ▸ hn) hp
      simp only [hp] at h
      split at h
      · simp at h
      split at h
      · simp at h
      · simp only [Prod.mk.injEq] at h
        obtain ⟨_, rfl⟩ := h
        have hpos : 0 < head.length := List.length_pos_iff.mpr (by assumption)
        omega

end Stream

/-! ## All segments of a folder -/

/-- A place in the log: the segments not yet read to their end, the first of them opened if its
reading has begun, and the offset in it of the next record. -/
structure Cursor where
  folder : String
  rest : List Segment
  count : Nat
  stream : Option Stream := none
  offset : Nat := 0
  deriving DecidableEq, Repr

namespace Cursor

def start (d : Disk) (folder : String) : Except Error Cursor :=
  match Segment.list d folder with
  | .error e => .error e
  | .ok segments => .ok { folder, rest := segments, count := segments.length }

/-- Lets go of the open segment, which is then read from its start again. -/
def release (c : Cursor) : Cursor := { c with stream := none }

/-- Goes back before the first record; the folder is listed anew. -/
def rewind (d : Disk) (c : Cursor) : Except Error Unit × Cursor :=
  match start d c.folder with
  | .error e => (.error e, c.release)
  | .ok c => (.ok (), c)

/-- Segment and offset of the next record, nothing at the end of the log. -/
def position (c : Cursor) : Option (UInt64 × Nat) :=
  c.rest.head?.map fun s => (s.id, c.offset)

/-- The open stream with the offset it stands at, or the segment opened at its start. -/
def openStream (d : Disk) (folder : String) (s : Segment) (stream : Option Stream)
    (offset : Nat) : Except Fault (Stream × Nat) :=
  match stream with
  | some stream => .ok (stream, offset)
  | none =>
    match d.openRead (s.place folder) with
    | .error f => .error f
    | .ok node => .ok ({ node }, 0)

/-- The next record of a list of segments, the first of which may be open. -/
def nextOf (d : Disk) (c : Cursor) :
    List Segment → Option Stream → Nat → Except Error (Option Record) × Cursor
  | [], _, offset => (.ok none, { c with rest := [], stream := none, offset })
  | s :: rest, stream, offset =>
    match openStream d c.folder s stream offset with
    | .error f =>
      (.error (.io .openSegment (s.path c.folder) f),
        { c with rest := s :: rest, stream := none, offset })
    | .ok (stream, offset) =>
      match stream.next d (s.path c.folder) offset with
      | (.error e, stream) => (.error e, { c with rest := s :: rest, stream := some stream, offset })
      | (.ok none, _) => nextOf d c rest none offset
      | (.ok (some (r, length)), stream) =>
        (.ok (some r),
          { c with rest := s :: rest, stream := some stream, offset := offset + length })

def next (d : Disk) (c : Cursor) : Except Error (Option Record) × Cursor :=
  c.nextOf d c.rest c.stream c.offset

/-- At most `n` of the records and errors that come next. -/
def take (d : Disk) : Nat → Cursor → List (Except Error Record) × Cursor
  | 0, c => ([], c)
  | n + 1, c =>
    match c.next d with
    | (.ok none, c) => ([], c)
    | (.ok (some r), c) =>
      let later := take d n c
      (.ok r :: later.1, later.2)
    | (.error e, c) =>
      let later := take d n c
      (.error e :: later.1, later.2)

/-! ## Reading to the end -/

def sizeOf (d : Disk) (folder : String) (s : Segment) : Nat :=
  match d.openRead (s.place folder) with
  | .ok node => d.size node
  | .error _ => 0

/-- Octets still to come from a list of segments, the first of which may be open. -/
def pendingOf (d : Disk) (folder : String) : List Segment → Option Stream → Nat
  | [], _ => 0
  | _ :: rest, some stream => stream.pending d + pendingOf d folder rest none
  | s :: rest, none => sizeOf d folder s + pendingOf d folder rest none

def pending (d : Disk) (c : Cursor) : Nat := pendingOf d c.folder c.rest c.stream

theorem pending_openStream {d : Disk} {folder : String} {s : Segment} {rest : List Segment}
    {stream : Option Stream} {opened : Stream} {offset offset' : Nat}
    (h : openStream d folder s stream offset = .ok (opened, offset')) :
    pendingOf d folder (s :: rest) stream =
      opened.pending d + pendingOf d folder rest none := by
  cases stream with
  | some stream => cases h; rfl
  | none =>
    simp only [openStream] at h
    cases hr : d.openRead (s.place folder) with
    | error f => simp [hr] at h
    | ok node =>
      rw [hr] at h
      cases h
      simp [pendingOf, sizeOf, hr, Stream.pending]

theorem pending_nextOf {d : Disk} {c c' : Cursor} {r : Record} (segments : List Segment)
    (stream : Option Stream) (offset : Nat)
    (h : c.nextOf d segments stream offset = (.ok (some r), c')) :
    c'.pending d < pendingOf d c.folder segments stream := by
  induction segments generalizing stream offset with
  | nil => simp [nextOf] at h
  | cons s rest ih =>
    unfold nextOf at h
    cases ho : openStream d c.folder s stream offset with
    | error f => simp [ho] at h
    | ok opened =>
      obtain ⟨opened, offset'⟩ := opened
      rw [pending_openStream ho]
      simp only [ho] at h
      split at h
      · simp at h
      · have := ih none offset' h
        omega
      · rename_i hnext
        simp only [Prod.mk.injEq] at h
        obtain ⟨_, rfl⟩ := h
        have := Stream.pending_next hnext
        simp only [pending, pendingOf]
        omega

/-- Every record takes octets off those still to come. -/
theorem pending_next {d : Disk} {c c' : Cursor} {r : Record}
    (h : c.next d = (.ok (some r), c')) : c'.pending d < c.pending d :=
  pending_nextOf c.rest c.stream c.offset h

/-- Records read one after the other, why the reading stopped early if it did, and the cursor
where it stopped. -/
structure Scan where
  records : List Record
  stop : Option Error
  cursor : Cursor
  deriving DecidableEq, Repr

/-- Reads up to the first error or the end of the log. -/
def scan (d : Disk) (c : Cursor) : Scan :=
  match h : c.next d with
  | (.ok none, c') => ⟨[], none, c'⟩
  | (.error e, c') => ⟨[], some e, c'⟩
  | (.ok (some r), c') =>
    have : c'.pending d < c.pending d := pending_next h
    let later := c'.scan d
    ⟨r :: later.records, later.stop, later.cursor⟩
termination_by c.pending d

end Cursor

end SegmentLog
