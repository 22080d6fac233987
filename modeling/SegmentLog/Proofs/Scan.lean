import SegmentLog.Log
import SegmentLog.Proofs.Changes
import SegmentLog.Proofs.Framing

/-!
Reading a log is decoding its octets. A stream that reads ahead in blocks gives out the octets of
its file one after the other (`Stream.take_file`), so the next record is what decodes from those
that remain (`next_of_ok`, `next_of_error`). The reading of a folder therefore finds what `survey`
says of its volumes: the records up to the first place where no whole record starts, and that
place (`Cursor.scan_volumes`).
-/

namespace SegmentLog

/-! ## Surveys -/

/-- A place in a log where octets stand, but no whole record starts. -/
structure Damage where
  segment : Segment
  offset : Nat
  /-- Why nothing decodes there. -/
  cause : Error
  deriving DecidableEq, Repr

/-- What there is to read in a row of volumes: the records up to the first damage. -/
structure Survey where
  records : List Record
  damage : Option Damage
  deriving DecidableEq, Repr

/-- The survey of the octets of a segment from an offset on, with what comes after the segment. -/
def Survey.ofOctets (s : Segment) (offset : Nat) (bs : Octets) (later : Survey) : Survey :=
  if bs.Whole then ⟨bs.records ++ later.records, later.damage⟩
  else ⟨bs.records, some ⟨s, offset + bs.wholeLength, bs.flaw⟩⟩

/-- Decodes volumes one after the other up to the first damage. -/
def survey : List Volume → Survey
  | [] => ⟨[], none⟩
  | v :: rest => Survey.ofOctets v.segment 0 v.octets (survey rest)

/-- What the reader of a segment reports for a record at an offset that does not decode. -/
def Error.foundAt (path : String) (offset : Nat) : Error → Error
  | .shortBuffer length needed => .truncated path offset needed length
  | .unexpectedEnd length needed => .truncated path offset needed length
  | e => .corruption path offset e

theorem Error.isDamage_foundAt (path : String) (offset : Nat) (e : Error) :
    (e.foundAt path offset).isDamage = true := by
  cases e <;> rfl

/-- How damage is reported in a folder. -/
def Damage.error (folder : String) (x : Damage) : Error :=
  x.cause.foundAt (x.segment.path folder) x.offset

/-! ## Streams -/

namespace Stream

variable {d : Disk} {s : Stream} {body : Nat}

/-- The octets of the file that are still to come. -/
def remaining (d : Disk) (s : Stream) : Octets :=
  match s.node with
  | .file body => s.ahead ++ (d.bodies body).octets.drop s.offset
  | _ => []

theorem remaining_file (h : s.node = .file body) :
    s.remaining d = s.ahead ++ (d.bodies body).octets.drop s.offset := by
  simp [remaining, h]

theorem take_file (h : s.node = .file body) (count : Nat) :
    ∃ t, s.take d count = .ok ((s.remaining d).take count, t) ∧ t.node = .file body ∧
      t.remaining d = (s.remaining d).drop count := by
  rw [remaining_file h]
  by_cases hc : count ≤ s.ahead.length
  · refine ⟨{ s with ahead := s.ahead.drop count }, ?_, h, ?_⟩
    · simp only [take, h, if_pos hc]
      rw [List.take_append_of_le_length hc]
    · simp only [remaining, h]
      rw [List.drop_append_of_le_length hc]
  · -- the rest of the file, of which a block at least is read
    let rest := (d.bodies body).octets.drop s.offset
    let missing := count - s.ahead.length
    let asked := max missing block
    have hle : missing ≤ asked := Nat.le_max_left _ _
    have hcount : count = s.ahead.length + missing := by omega
    have hread : d.read (.file body) s.offset asked = .ok (rest.take asked) := by
      simp [Disk.read, Octets.slice, rest]
    refine ⟨{ s with offset := s.offset + (rest.take asked).length,
                     ahead := (rest.take asked).drop missing }, ?_, h, ?_⟩
    · simp only [take, h, if_neg hc]
      rw [hread]
      simp only [Except.ok.injEq, Prod.mk.injEq]
      rw [List.take_take, Nat.min_eq_left hle, hcount, List.take_length_add_append]
      simp [rest, missing]
    · simp only [remaining, h]
      rw [hcount, List.drop_length_add_append]
      have hdrop : (d.bodies body).octets.drop (s.offset + (rest.take asked).length) =
          rest.drop asked := by
        rw [← List.drop_drop, List.length_take]
        rcases Nat.le_total asked rest.length with hr | hr
        · rw [Nat.min_eq_left hr]
        · rw [Nat.min_eq_right hr, List.drop_length, List.drop_of_length_le hr]
      rw [hdrop, List.drop_take, ← Nat.add_sub_of_le hle]
      simp only [Nat.add_sub_cancel_left]
      rw [← List.drop_drop, List.take_append_drop]

section Next

variable (h : s.node = .file body) (path : String) (start : Nat)
include h

theorem next_of_nil (hr : s.remaining d = []) :
    ∃ t, s.next d path start = (.ok none, t) := by
  obtain ⟨t, htake, -, -⟩ := take_file (d := d) h Header.size
  rw [hr, List.take_nil] at htake
  exact ⟨t, by simp [next, htake]⟩

/-- A segment that ends inside a header. -/
theorem next_of_short (hne : s.remaining d ≠ []) (hshort : (s.remaining d).length < Header.size) :
    ∃ t, s.next d path start =
      (.error (.truncated path start Header.size (s.remaining d).length), t) := by
  obtain ⟨t, htake, -, -⟩ := take_file (d := d) h Header.size
  rw [List.take_of_length_le (Nat.le_of_lt hshort)] at htake
  refine ⟨t, ?_⟩
  simp only [next, htake, if_neg hne, if_pos hshort]

section Headed

variable (hsize : Header.size ≤ (s.remaining d).length)
include hsize

/-- Behind a header the payload that it announces is taken. -/
theorem next_of_header :
    ∃ t, t.node = .file body ∧
      t.remaining d = (s.remaining d).drop (Header.ofOctets (s.remaining d)).recordLength ∧
      s.next d path start =
        let head := Header.ofOctets (s.remaining d)
        let payload := ((s.remaining d).drop Header.size).take head.payloadLength
        if payload.length < head.payloadLength then
          (.error (.truncated path start head.recordLength (Header.size + payload.length)), t)
        else
          match Record.decode ((s.remaining d).take Header.size ++ payload) with
          | .error e => (.error (.corruption path start e), t)
          | .ok r => (.ok (some (r, head.recordLength)), t) := by
  obtain ⟨t, htake, htn, htr⟩ := take_file (d := d) h Header.size
  obtain ⟨u, hutake, hun, hur⟩ :=
    take_file (d := d) htn (Header.ofOctets (s.remaining d)).payloadLength
  have hlength : ((s.remaining d).take Header.size).length = Header.size :=
    List.length_take_of_le hsize
  have hne : (s.remaining d).take Header.size ≠ [] := by
    intro hnil
    rw [hnil] at hlength
    exact absurd hlength (by decide)
  refine ⟨u, hun, ?_, ?_⟩
  · rw [hur, htr, List.drop_drop]
    rfl
  · cases hdecode : Record.decode ((s.remaining d).take Header.size ++
        ((s.remaining d).drop Header.size).take (Header.ofOctets (s.remaining d)).payloadLength) <;>
      simp only [next, htake, if_neg hne, hlength, Nat.lt_irrefl, if_false,
        Header.ofOctets_take (Nat.le_refl _), hutake, htr, hdecode]

/-- A segment that ends inside a payload. -/
theorem next_of_torn
    (htorn : (s.remaining d).length < (Header.ofOctets (s.remaining d)).recordLength) :
    ∃ t, s.next d path start =
      (.error (.truncated path start (Header.ofOctets (s.remaining d)).recordLength
        (s.remaining d).length), t) := by
  obtain ⟨t, -, -, hnext⟩ := next_of_header h path start hsize
  have hpayload : (((s.remaining d).drop Header.size).take
      (Header.ofOctets (s.remaining d)).payloadLength).length =
        (s.remaining d).length - Header.size := by
    rw [List.length_take, List.length_drop]
    simp only [Header.recordLength] at htorn
    omega
  refine ⟨t, ?_⟩
  rw [hnext]
  simp only [hpayload]
  rw [if_pos, Nat.add_sub_cancel' hsize]
  simp only [Header.recordLength] at htorn
  omega

/-- Where all octets that a header announces are there, they are decoded. -/
theorem next_of_present
    (hlen : (Header.ofOctets (s.remaining d)).recordLength ≤ (s.remaining d).length) :
    ∃ t, t.node = .file body ∧
      t.remaining d = (s.remaining d).drop (Header.ofOctets (s.remaining d)).recordLength ∧
      s.next d path start =
        match Record.decode (s.remaining d) with
        | .error e => (.error (.corruption path start e), t)
        | .ok r => (.ok (some (r, (Header.ofOctets (s.remaining d)).recordLength)), t) := by
  obtain ⟨t, htn, htr, hnext⟩ := next_of_header h path start hsize
  have hpayload : (((s.remaining d).drop Header.size).take
      (Header.ofOctets (s.remaining d)).payloadLength).length =
        (Header.ofOctets (s.remaining d)).payloadLength := by
    rw [List.length_take, List.length_drop]
    simp only [Header.recordLength] at hlen
    omega
  have hwhole : (s.remaining d).take Header.size ++
      ((s.remaining d).drop Header.size).take (Header.ofOctets (s.remaining d)).payloadLength =
        (s.remaining d).take (Header.ofOctets (s.remaining d)).recordLength := by
    rw [Header.recordLength, List.take_add]
  refine ⟨t, htn, htr, ?_⟩
  rw [hnext]
  simp only [hpayload, Nat.lt_irrefl, if_false, hwhole, Record.decode_take hlen]

end Headed

theorem next_of_ok {r : Record} (hr : Record.decode (s.remaining d) = .ok r) :
    ∃ t, s.next d path start = (.ok (some (r, r.encodedLength)), t) ∧ t.node = .file body ∧
      t.remaining d = (s.remaining d).drop r.encodedLength := by
  obtain ⟨-, hlen, -, hhead⟩ := Record.form_of_decode hr
  have hsize := Record.size_le_encodedLength r
  have hrecord : (Header.ofOctets (s.remaining d)).recordLength = r.encodedLength := by
    rw [hhead, Record.recordLength_header]
  obtain ⟨t, htn, htr, hnext⟩ :=
    next_of_present h path start (d := d) (by omega) (by rw [hrecord]; exact hlen)
  rw [hrecord] at htr
  rw [hr] at hnext
  simp only [hrecord] at hnext
  exact ⟨t, hnext, htn, htr⟩

theorem next_of_error {e : Error} (hne : s.remaining d ≠ [])
    (hr : Record.decode (s.remaining d) = .error e) :
    ∃ t, s.next d path start = (.error (e.foundAt path start), t) := by
  by_cases hshort : (s.remaining d).length < Header.size
  · rw [Record.decode, if_pos hshort] at hr
    cases hr
    exact next_of_short h path start hne hshort
  · have hsize := Nat.not_lt.mp hshort
    by_cases htorn : (s.remaining d).length < (Header.ofOctets (s.remaining d)).recordLength
    · rw [Record.decode, if_neg hshort] at hr
      simp only at hr
      rw [if_pos htorn] at hr
      cases hr
      exact next_of_torn h path start hsize htorn
    · obtain ⟨t, -, -, hnext⟩ := next_of_present h path start hsize (Nat.not_lt.mp htorn)
      rw [hr] at hnext
      -- what is put together from a whole payload is corrupt, not cut short
      have hcause : e.foundAt path start = .corruption path start e := by
        rw [Record.decode, if_neg hshort] at hr
        simp only at hr
        rw [if_neg htorn] at hr
        unfold Record.assemble at hr
        simp only at hr
        split at hr
        · cases hr
          rfl
        · split at hr
          · cases hr
            rfl
          · cases hr
      refine ⟨t, ?_⟩
      rw [hnext, hcause]

/-- Whatever the next record turns out to be, the stream moves past what its header announces. -/
theorem remaining_next :
    (s.next d path start).2.node = .file body ∧
      (s.next d path start).2.remaining d =
        (s.remaining d).drop (Header.ofOctets (s.remaining d)).recordLength := by
  by_cases hsize : Header.size ≤ (s.remaining d).length
  · obtain ⟨t, htn, htr, hnext⟩ := next_of_header h path start hsize
    have hstream : (s.next d path start).2 = t := by
      rw [hnext]
      dsimp only
      split
      · rfl
      · split <;> rfl
    rw [hstream]
    exact ⟨htn, htr⟩
  · -- less than a header is left, and all of it is taken
    obtain ⟨t, htake, htn, htr⟩ := take_file (d := d) h Header.size
    have hstream : (s.next d path start).2 = t := by
      have hlength : ((s.remaining d).take Header.size).length < Header.size := by
        rw [List.length_take]
        omega
      simp only [next, htake, if_pos hlength]
      split <;> rfl
    rw [hstream]
    constructor
    · exact htn
    · rw [htr, List.drop_of_length_le (by omega), List.drop_of_length_le]
      rw [Header.recordLength]
      omega

end Next

end Stream

/-! ## Cursors -/

namespace Cursor

variable {d : Disk} {c : Cursor}

/-- A cursor set to a place in its folder. -/
def setTo (c : Cursor) (segments : List Segment) (stream : Option Stream) (offset : Nat) : Cursor :=
  { c with rest := segments, stream, offset }

theorem nextOf_setTo (segments : List Segment) (stream : Option Stream) (offset : Nat)
    (xs : List Segment) (y : Option Stream) (z : Nat) :
    (c.setTo xs y z).nextOf d segments stream offset = c.nextOf d segments stream offset := by
  induction segments generalizing stream offset with
  | nil => rfl
  | cons s rest ih =>
    simp only [nextOf, ih]
    rfl

theorem next_setTo (segments : List Segment) (stream : Option Stream) (offset : Nat) :
    (c.setTo segments stream offset).next d = c.nextOf d segments stream offset :=
  nextOf_setTo segments stream offset segments stream offset

theorem scan_of_error {c' : Cursor} {e : Error} (h : c.next d = (.error e, c')) :
    c.scan d = ⟨[], some e, c'⟩ := by
  rw [scan]
  split <;> simp_all

theorem scan_of_none {c' : Cursor} (h : c.next d = (.ok none, c')) :
    c.scan d = ⟨[], none, c'⟩ := by
  rw [scan]
  split <;> simp_all

theorem scan_of_some {c' : Cursor} {r : Record} (h : c.next d = (.ok (some r), c')) :
    c.scan d = ⟨r :: (c'.scan d).records, (c'.scan d).stop, (c'.scan d).cursor⟩ := by
  rw [scan]
  split <;> simp_all

/-- What is read depends on the next record only. -/
theorem scan_congr {c' : Cursor} (h : c.next d = c'.next d) : c.scan d = c'.scan d := by
  cases hn : c'.next d with
  | mk answer after =>
    rw [hn] at h
    match answer with
    | .error e => rw [scan_of_error h, scan_of_error hn]
    | .ok none => rw [scan_of_none h, scan_of_none hn]
    | .ok (some r) => rw [scan_of_some h, scan_of_some hn]

section Stream

variable (s : Segment) (rest : List Segment) {stream : Stream} {body : Nat} (offset : Nat)

/-- At the end of a segment the next record is that of the segments that follow. -/
theorem next_of_nil (hnode : stream.node = .file body) (hnil : stream.remaining d = []) :
    (c.setTo (s :: rest) (some stream) offset).next d = (c.setTo rest none offset).next d := by
  obtain ⟨t, hnext⟩ := Stream.next_of_nil hnode (s.path c.folder) offset hnil
  rw [next_setTo, next_setTo, nextOf]
  simp only [openStream, hnext]

/-- A record that decodes takes the offset and the stream past itself. -/
theorem next_of_ok (hnode : stream.node = .file body) {r : Record}
    (hr : Record.decode (stream.remaining d) = .ok r) :
    ∃ t, (c.setTo (s :: rest) (some stream) offset).next d =
        (.ok (some r), c.setTo (s :: rest) (some t) (offset + r.encodedLength)) ∧
      t.node = .file body ∧ t.remaining d = (stream.remaining d).drop r.encodedLength := by
  obtain ⟨t, hnext, htn, htr⟩ := Stream.next_of_ok hnode (s.path c.folder) offset hr
  refine ⟨t, ?_, htn, htr⟩
  rw [next_setTo, nextOf]
  simp only [openStream, hnext]
  rfl

/-- What does not decode is reported at the offset, which stays, while the stream goes on. -/
theorem next_of_error (hnode : stream.node = .file body) (hne : stream.remaining d ≠ []) {e : Error}
    (hr : Record.decode (stream.remaining d) = .error e) :
    ∃ t, (c.setTo (s :: rest) (some stream) offset).next d =
        (.error (e.foundAt (s.path c.folder) offset), c.setTo (s :: rest) (some t) offset) ∧
      t.node = .file body ∧ t.remaining d =
        (stream.remaining d).drop (Header.ofOctets (stream.remaining d)).recordLength := by
  obtain ⟨t, hnext⟩ := Stream.next_of_error hnode (s.path c.folder) offset hne hr
  have hmoved := Stream.remaining_next (d := d) hnode (s.path c.folder) offset
  rw [hnext] at hmoved
  refine ⟨t, ?_, hmoved⟩
  rw [next_setTo, nextOf]
  simp only [openStream, hnext]
  rfl

/-- A volume is opened at its first octet. -/
theorem next_of_shows {v : Volume} (h : d.Shows c.folder v) :
    ∃ stream body, stream.node = .file body ∧ d.size stream.node = v.octets.length ∧
      stream.remaining d = v.octets ∧
      (c.setTo (v.segment :: rest) none offset).next d =
        (c.setTo (v.segment :: rest) (some stream) 0).next d := by
  obtain ⟨-, body, hbody, hoctets⟩ := h
  refine ⟨{ node := .file body }, body, rfl, ?_, ?_, ?_⟩
  · rw [← hoctets, Body.length_octets]
    rfl
  · simp [Stream.remaining, hoctets]
  · rw [next_setTo, next_setTo, nextOf, nextOf]
    simp only [openStream, Disk.openRead_of_bodyOf? hbody]

end Stream

/-- The octets left of an open segment are read record by record. At the end of a row of records
the reading goes on in the next segment; at anything else it stops. -/
theorem scan_stream (s : Segment) (rest : List Segment) {stream : Stream} {body : Nat}
    (hnode : stream.node = .file body) (offset : Nat) :
    (Octets.Whole (stream.remaining d) → ∃ o,
      (c.setTo (s :: rest) (some stream) offset).scan d =
        ⟨Octets.records (stream.remaining d) ++ ((c.setTo rest none o).scan d).records,
          ((c.setTo rest none o).scan d).stop, ((c.setTo rest none o).scan d).cursor⟩) ∧
    (¬ Octets.Whole (stream.remaining d) → ∃ t,
      (c.setTo (s :: rest) (some stream) offset).scan d =
        ⟨Octets.records (stream.remaining d),
          some ((Octets.flaw (stream.remaining d)).foundAt (s.path c.folder)
            (offset + Octets.wholeLength (stream.remaining d))),
          c.setTo (s :: rest) (some t) (offset + Octets.wholeLength (stream.remaining d))⟩) := by
  induction hn : (stream.remaining d).length using Nat.strongRecOn
    generalizing stream offset with
  | ind n ih =>
    cases hr : Record.decode (stream.remaining d) with
    | error e =>
      by_cases hnil : stream.remaining d = []
      · -- nothing is left: the next record is that of the segments that follow
        refine ⟨fun _ => ⟨offset, ?_⟩, fun hw => absurd ?_ hw⟩
        · rw [scan_congr (next_of_nil s rest offset hnode hnil), hnil, Octets.records_nil,
            List.nil_append]
        · rw [hnil]
          exact Octets.whole_nil
      · have hrem := Octets.remnant_of_error hr
        refine ⟨fun hw => absurd (hrem.symm.trans hw) hnil, fun _ => ?_⟩
        obtain ⟨t, hstep, -, -⟩ := next_of_error s rest offset hnode hnil hr
        refine ⟨t, ?_⟩
        rw [Octets.records_of_error hr, Octets.flaw_of_error hr, Octets.wholeLength_of_error hr]
        exact scan_of_error hstep
    | ok r =>
      obtain ⟨t, hstep, htn, htr⟩ := next_of_ok s rest offset hnode hr
      have hless : (t.remaining d).length < n := by
        rw [← hn, htr]
        exact Octets.length_drop_lt hr
      obtain ⟨hwhole, hdamage⟩ := ih _ hless htn (offset + r.encodedLength) rfl
      rw [scan_of_some hstep, Octets.Whole, Octets.remnant_of_ok hr, Octets.records_of_ok hr,
        Octets.flaw_of_ok hr, Octets.wholeLength_of_ok hr, ← htr]
      refine ⟨fun hw => ?_, fun hw => ?_⟩
      · obtain ⟨o, ho⟩ := hwhole hw
        exact ⟨o, by rw [ho]; rfl⟩
      · obtain ⟨u, hu⟩ := hdamage hw
        exact ⟨u, by rw [hu, Nat.add_assoc]⟩

/-- The reading of volumes from the first on finds what their survey says. -/
theorem scan_volumes {vs : List Volume} (h : ∀ v ∈ vs, d.Shows c.folder v) (offset : Nat) :
    ((c.setTo (vs.map (·.segment)) none offset).scan d).records = (survey vs).records ∧
    ((c.setTo (vs.map (·.segment)) none offset).scan d).stop =
      (survey vs).damage.map (Damage.error c.folder) ∧
    ∀ x, (survey vs).damage = some x →
      ((c.setTo (vs.map (·.segment)) none offset).scan d).cursor.position =
        some (x.segment.id, x.offset) := by
  induction vs generalizing offset with
  | nil =>
    have hend : (c.setTo [] none offset).next d = (.ok none, c.setTo [] none offset) := rfl
    rw [List.map_nil, scan_of_none hend]
    exact ⟨rfl, rfl, by simp [survey]⟩
  | cons v rest ih =>
    obtain ⟨stream, body, hnode, -, hrem, hopen⟩ :=
      next_of_shows (rest.map (·.segment)) offset (h v List.mem_cons_self)
    have hstream := scan_stream (c := c) (d := d) v.segment (rest.map (·.segment)) hnode 0
    rw [hrem, Nat.zero_add] at hstream
    rw [List.map_cons, scan_congr hopen]
    by_cases hw : v.octets.Whole
    · obtain ⟨o, ho⟩ := hstream.1 hw
      obtain ⟨hrecords, hstop, hposition⟩ := ih (fun w hw => h w (List.mem_cons_of_mem _ hw)) o
      rw [ho, survey, Survey.ofOctets, if_pos hw]
      exact ⟨by rw [hrecords], hstop, hposition⟩
    · obtain ⟨t, ht⟩ := hstream.2 hw
      rw [ht, survey, Survey.ofOctets, if_neg hw, Nat.zero_add]
      refine ⟨rfl, rfl, ?_⟩
      intro x hx
      cases hx
      rfl

end Cursor

/-! ## Folders -/

namespace Disk.Holds

variable {d : Disk} {folder : String} {vs : List Volume}

/-- A fresh cursor finds what the survey of the folder says. -/
theorem scan (h : d.Holds folder vs) :
    ∃ c, Cursor.start d folder = .ok c ∧ (c.scan d).records = (survey vs).records ∧
      (c.scan d).stop = (survey vs).damage.map (Damage.error folder) ∧
      ∀ x, (survey vs).damage = some x → (c.scan d).cursor.position = some (x.segment.id, x.offset) := by
  refine ⟨{ folder, rest := vs.map (·.segment), count := (vs.map (·.segment)).length }, ?_, ?_⟩
  · rw [Cursor.start, h.list]
  · exact Cursor.scan_volumes
      (c := { folder, rest := vs.map (·.segment), count := (vs.map (·.segment)).length }) h.shows 0

theorem recordsOf (h : d.Holds folder vs) :
    Log.recordsOf d folder =
      match (survey vs).damage with
      | none => .ok (survey vs).records
      | some x => .error (x.error folder) := by
  obtain ⟨c, hstart, hrecords, hstop, -⟩ := h.scan
  rw [Log.recordsOf, hstart]
  simp only [hstop, hrecords]
  cases (survey vs).damage <;> rfl

/-- A replay of an undamaged folder is the report on its records. -/
theorem run_of_none (h : d.Holds folder vs) (hd : (survey vs).damage = none)
    (policy : DamagePolicy) :
    ∃ c, Cursor.start d folder = .ok c ∧
      Replay.run d c policy = .ok (Replay.ofRecords (survey vs).records) := by
  obtain ⟨c, hstart, hrecords, hstop, -⟩ := h.scan
  refine ⟨c, hstart, ?_⟩
  simp only [Replay.run, hstop, hd, Option.map_none, hrecords]

/-- A replay that cuts off damage is the report on the records before it, with its place. -/
theorem run_of_some (h : d.Holds folder vs) {x : Damage} (hd : (survey vs).damage = some x) :
    ∃ c, Cursor.start d folder = .ok c ∧
      Replay.run d c .truncateTail =
        .ok { Replay.ofRecords (survey vs).records with cutAt := some (x.segment.id, x.offset) } := by
  obtain ⟨c, hstart, hrecords, hstop, hposition⟩ := h.scan
  refine ⟨c, hstart, ?_⟩
  have hdamage : (x.error folder).isDamage = true := Error.isDamage_foundAt _ _ _
  simp only [Replay.run, hstop, hd, Option.map_some, hrecords, hposition x hd, hdamage, and_self,
    if_true]

/-- A strict replay refuses damage. -/
theorem run_strict (h : d.Holds folder vs) {x : Damage} (hd : (survey vs).damage = some x) :
    ∃ c, Cursor.start d folder = .ok c ∧ Replay.run d c .strict = .error (x.error folder) := by
  obtain ⟨c, hstart, -, hstop, -⟩ := h.scan
  refine ⟨c, hstart, ?_⟩
  simp only [Replay.run, hstop, hd, Option.map_some, reduceCtorEq, false_and, if_false]

end Disk.Holds

end SegmentLog
