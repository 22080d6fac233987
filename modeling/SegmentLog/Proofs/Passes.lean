import SegmentLog.Proofs.Strictness

/-!
A pass of a cursor over a folder, from the first record up to the first error. A cursor frames
records by itself, from a header and a second request for the payload, through blocks that are read
ahead, and opens one segment after the other. What it gives out is nevertheless what decoding finds
in the octets that are left of each segment (`Cursor.pass_eq_decodings`), and its position is that
of the octets. This holds of every folder, damaged as it may be, and of every cursor that was just
opened or rewound, wherever it stood before.
-/

namespace SegmentLog

/-! ## What there is to find -/

structure Found where
  answer : Except Error Record
  position : Option (UInt64 × Nat)

/-- What is reported where `left` octets of a segment are left and do not decode. -/
def Error.reported (path : String) (offset left : Nat) : Error → Error
  | .shortBuffer _ needed => .truncated path offset needed left
  | .unexpectedEnd _ needed => .truncated path offset needed left
  | cause => .corruption path offset cause

/-- Decodes the octets left of a segment one record after the other, and goes on with what comes
later when none are left. -/
def decodingsFrom (folder : String) (s : Segment) (offset : Nat) (bs : Octets)
    (later : List Found) : List Found :=
  if bs = [] then later
  else
    match _h : Record.decode bs with
    | .error e => [⟨.error (e.reported (s.path folder) offset bs.length), some (s.id, offset)⟩]
    | .ok r =>
      ⟨.ok r, some (s.id, offset + r.encodedLength)⟩ ::
        decodingsFrom folder s (offset + r.encodedLength) (bs.drop r.encodedLength) later
termination_by bs.length
decreasing_by exact Octets.length_drop_lt ‹_›

def decodings (folder : String) : List Volume → List Found
  | [] => []
  | v :: rest => decodingsFrom folder v.segment 0 v.octets (decodings folder rest)

section DecodingsFrom

variable {folder : String} {s : Segment} {offset : Nat} {bs : Octets} {later : List Found}

theorem decodingsFrom_nil : decodingsFrom folder s offset [] later = later := by
  rw [decodingsFrom, if_pos rfl]

theorem decodingsFrom_of_error {e : Error} (hne : bs ≠ []) (h : Record.decode bs = .error e) :
    decodingsFrom folder s offset bs later =
      [⟨.error (e.reported (s.path folder) offset bs.length), some (s.id, offset)⟩] := by
  rw [decodingsFrom, if_neg hne]
  split <;> simp_all

theorem decodingsFrom_of_ok {r : Record} (h : Record.decode bs = .ok r) :
    decodingsFrom folder s offset bs later =
      ⟨.ok r, some (s.id, offset + r.encodedLength)⟩ ::
        decodingsFrom folder s (offset + r.encodedLength) (bs.drop r.encodedLength) later := by
  have hne : bs ≠ [] := by
    rintro rfl
    rw [Octets.decode_nil] at h
    cases h
  rw [decodingsFrom, if_neg hne]
  split <;> simp_all

end DecodingsFrom

/-- An error of decoding says how many octets there are, so that the reader has nothing to add. -/
theorem Error.reported_eq_foundAt {bs : Octets} {e : Error} (h : Record.decode bs = .error e)
    (path : String) (offset : Nat) : e.reported path offset bs.length = e.foundAt path offset := by
  rcases Octets.decode_error h with
    ⟨-, needed, rfl | rfl⟩ | ⟨-, computed, rfl⟩ | ⟨-, rfl⟩
  · rfl
  · rfl
  · rfl
  · rfl

/-! ## What a corruption wraps -/

/-- What makes octets corrupt: a checksum that does not fit, or an unknown kind. -/
inductive Error.Corrupts : Error → Prop
  | checksum (stored computed : UInt32) : Corrupts (.checksumMismatch stored computed)
  | kind (tag : UInt8) : Corrupts (.unknownKind tag)

/-- A string in which all is there that its header announces fails only as corrupt. -/
theorem Error.corrupts_of_decode {bs : Octets} {e : Error} (h : Record.decode bs = .error e)
    (hall : ¬ bs.EndsInside) : e.Corrupts := by
  rcases Octets.decode_error h with ⟨hends, -⟩ | ⟨-, computed, rfl⟩ | ⟨-, rfl⟩
  · exact absurd hends hall
  · exact .checksum _ _
  · exact .kind _

namespace Stream

/-- A payload is decoded only when all of it was read. -/
theorem corrupts_of_next {d : Disk} {s : Stream} {path path' : String} {start start' : Nat}
    {cause : Error} (h : (s.next d path start).1 = .error (.corruption path' start' cause)) :
    cause.Corrupts := by
  unfold next at h
  split at h
  · cases h
  rename_i head s₁ _
  split at h
  · cases h
  split at h
  · cases h
  rename_i hhead
  dsimp only at h
  split at h
  · cases h
  rename_i payload s₂ _
  split at h
  · cases h
  rename_i hpayload
  split at h
  · rename_i e hdecode
    cases h
    apply Error.corrupts_of_decode hdecode
    have hsame : Header.ofOctets (head ++ payload) = Header.ofOctets head := by
      have hsize : Header.size ≤ head.length := Nat.not_lt.mp hhead
      rw [← Header.ofOctets_take (Nat.le_refl _), List.take_append_of_le_length hsize,
        Header.ofOctets_take (Nat.le_refl _)]
    rw [Octets.EndsInside, hsame, List.length_append, Header.recordLength]
    omega
  · cases h

end Stream

namespace Cursor

variable {d : Disk} {c : Cursor}

/-- No cursor calls a record corrupt that is only cut short, wherever it stands. -/
theorem corrupts_of_next {path : String} {offset : Nat} {cause : Error}
    (h : (c.next d).1 = .error (.corruption path offset cause)) : cause.Corrupts := by
  have hnext (segments : List Segment) (stream : Option Stream) (offset' : Nat)
      (hc : (c.nextOf d segments stream offset').1 = .error (.corruption path offset cause)) :
      cause.Corrupts := by
    induction segments generalizing stream offset' with
    | nil => cases hc
    | cons s rest ih =>
      unfold nextOf at hc
      split at hc
      · cases hc
      · split at hc
        · rename_i e t hstream
          cases hc
          exact Stream.corrupts_of_next (congrArg Prod.fst hstream)
        · exact ih none _ hc
        · cases hc
  exact hnext c.rest c.stream c.offset h

/-! ## Passes -/

/-- What a cursor gives out up to the first error, with its position after each answer. -/
def pass (d : Disk) (c : Cursor) : List Found :=
  match h : c.next d with
  | (.ok none, _) => []
  | (.error e, c') => [⟨.error e, c'.position⟩]
  | (.ok (some r), c') =>
    have : c'.pending d < c.pending d := pending_next h
    ⟨.ok r, c'.position⟩ :: c'.pass d
termination_by c.pending d

theorem pass_of_none {c' : Cursor} (h : c.next d = (.ok none, c')) : c.pass d = [] := by
  rw [pass]
  split <;> simp_all

theorem pass_of_error {c' : Cursor} {e : Error} (h : c.next d = (.error e, c')) :
    c.pass d = [⟨.error e, c'.position⟩] := by
  rw [pass]
  split <;> simp_all

theorem pass_of_some {c' : Cursor} {r : Record} (h : c.next d = (.ok (some r), c')) :
    c.pass d = ⟨.ok r, c'.position⟩ :: c'.pass d := by
  rw [pass]
  split <;> simp_all

theorem pass_congr {c' : Cursor} (h : c.next d = c'.next d) : c.pass d = c'.pass d := by
  cases hn : c'.next d with
  | mk answer after =>
    rw [hn] at h
    match answer with
    | .error e => rw [pass_of_error h, pass_of_error hn]
    | .ok none => rw [pass_of_none h, pass_of_none hn]
    | .ok (some r) => rw [pass_of_some h, pass_of_some hn]

/-- Whatever is read ahead of it, an open segment gives out what its octets decode to, and then
the pass is that of the segments behind it. -/
theorem pass_stream (s : Segment) (rest : List Segment) {stream : Stream} {body : Nat}
    (hnode : stream.node = .file body) (offset : Nat) {later : List Found}
    (hlater : ∀ o, (c.setTo rest none o).pass d = later) :
    (c.setTo (s :: rest) (some stream) offset).pass d =
      decodingsFrom c.folder s offset (stream.remaining d) later := by
  induction hn : (stream.remaining d).length using Nat.strongRecOn
    generalizing stream offset with
  | ind n ih =>
    cases hr : Record.decode (stream.remaining d) with
    | error e =>
      by_cases hnil : stream.remaining d = []
      · rw [pass_congr (next_of_nil s rest offset hnode hnil), hlater, hnil, decodingsFrom_nil]
      · obtain ⟨t, hstep, -, -⟩ := next_of_error s rest offset hnode hnil hr
        rw [pass_of_error hstep, decodingsFrom_of_error hnil hr, Error.reported_eq_foundAt hr]
        rfl
    | ok r =>
      obtain ⟨t, hstep, htn, htr⟩ := next_of_ok s rest offset hnode hr
      have hless : (t.remaining d).length < n := by
        rw [← hn, htr]
        exact Octets.length_drop_lt hr
      rw [pass_of_some hstep, ih _ hless htn (offset + r.encodedLength) rfl,
        decodingsFrom_of_ok hr, htr]
      rfl

theorem pass_volumes {vs : List Volume} (h : ∀ v ∈ vs, d.Shows c.folder v) (offset : Nat) :
    (c.setTo (vs.map (·.segment)) none offset).pass d = decodings c.folder vs := by
  induction vs generalizing offset with
  | nil =>
    apply pass_of_none
    rfl
  | cons v rest ih =>
    obtain ⟨stream, body, hnode, -, hrem, hopen⟩ :=
      next_of_shows (rest.map (·.segment)) offset (h v List.mem_cons_self)
    have hlater := ih fun w hw => h w (List.mem_cons_of_mem _ hw)
    have hstream := pass_stream (c := c) (d := d) v.segment (rest.map (·.segment)) hnode 0 hlater
    rw [hrem] at hstream
    rw [List.map_cons, pass_congr hopen]
    exact hstream

end Cursor

/-! ## Folders as they are listed -/

/-- The segments of a folder by ascending number, each with what its file holds. Several files may
stand for one number. -/
structure Disk.Lists (d : Disk) (folder : String) (vs : List Volume) : Prop where
  shows : ∀ v ∈ vs, d.Shows folder v
  complete : ∀ s : Segment, s.Named → (d.bodyOf? folder s).isSome → s ∈ vs.map (·.segment)
  distinct : (vs.map (·.segment)).Nodup
  ascending : (vs.map (·.segment)).Pairwise (·.id ≤ ·.id)

/-- Where a folder can be listed its volumes are listed; one that is missing has none. -/
theorem Disk.lists_volumes {d : Disk} {folder : String} {segments : List Segment} (hs : d.Sound)
    (hne : folder ≠ "") (hlist : Segment.list d folder = .ok segments) :
    d.Lists folder (d.volumes folder) ∧ (d.volumes folder).map (·.segment) = segments := by
  have hsegments : (d.volumes folder).map (·.segment) = segments := by
    simp [volumes, hlist, Function.comp_def]
  refine ⟨?_, hsegments⟩
  cases hl : d.locate folder with
  | error f =>
    have hnil : segments = [] := by
      simp only [Segment.list, files, if_neg hne, hl] at hlist
      cases f <;> cases hlist
      rfl
    have hvolumes : d.volumes folder = [] := List.map_eq_nil_iff.mp (hsegments.trans hnil)
    rw [hvolumes]
    constructor
    · intro v hv
      cases hv
    · intro s _ hsome
      obtain ⟨body, hbody⟩ := Option.isSome_iff_exists.mp hsome
      obtain ⟨loc, hloc, -⟩ := look_of_bodyOf? hbody
      rw [hl] at hloc
      cases hloc
    · exact List.nodup_nil
    · exact List.Pairwise.nil
  | ok loc =>
    obtain ⟨found, hfound, hnodup, hmem⟩ := mem_list hs hne hl
    obtain rfl : Segment.sort found = segments := Except.ok.inj (hfound.symm.trans hlist)
    have hperm := Segment.sort_perm found
    have hmem' (s : Segment) : s ∈ (d.volumes folder).map (·.segment) ↔
        s.Named ∧ (d.bodyOf? folder s).isSome := by
      rw [hsegments, hperm.mem_iff, hmem]
    constructor
    · intro v hv
      obtain ⟨hnamed, hsome⟩ := (hmem' v.segment).mp (List.mem_map_of_mem hv)
      obtain ⟨body, hb⟩ := Option.isSome_iff_exists.mp hsome
      refine ⟨hnamed, body, hb, ?_⟩
      simp only [volumes, hlist, List.mem_map] at hv
      obtain ⟨s, -, rfl⟩ := hv
      simp [hb]
    · exact fun s hn hb => (hmem' s).mpr ⟨hn, hb⟩
    · rw [hsegments]
      exact hperm.nodup_iff.mpr hnodup
    · rw [hsegments]
      exact Segment.pairwise_sort found

namespace Cursor

variable {d : Disk} {folder : String} {c : Cursor}

/-- A cursor before the first record of a folder: it was just opened, or rewound from wherever it
stood. -/
inductive Fresh (d : Disk) (folder : String) : Cursor → Prop
  | opened {c : Cursor} (h : start d folder = .ok c) : Fresh d folder c
  | rewound {old c : Cursor} (hf : old.folder = folder) (h : old.rewind d = (.ok (), c)) :
    Fresh d folder c

theorem Fresh.start_eq (h : Fresh d folder c) : start d folder = .ok c := by
  cases h with
  | opened h => exact h
  | @rewound old _ hf h =>
    unfold rewind at h
    rw [hf] at h
    cases hstart : start d folder with
    | error e =>
      rw [hstart] at h
      cases h
    | ok c' =>
      rw [hstart] at h
      cases h
      rfl

theorem Fresh.lists (hc : Fresh d folder c) (hs : d.Sound) (hne : folder ≠ "") :
    d.Lists folder (d.volumes folder) ∧ c.folder = folder ∧
      c = c.setTo ((d.volumes folder).map (·.segment)) none 0 := by
  have hstart := hc.start_eq
  unfold start at hstart
  cases hlist : Segment.list d folder with
  | error e =>
    rw [hlist] at hstart
    cases hstart
  | ok segments =>
    rw [hlist] at hstart
    cases hstart
    obtain ⟨hlists, hsegments⟩ := Disk.lists_volumes hs hne hlist
    rw [hsegments]
    exact ⟨hlists, rfl, rfl⟩

/-- A pass of a fresh cursor gives out what decoding finds in the segments of the folder, with the
same positions, up to and with the first error. -/
theorem pass_eq_decodings (hs : d.Sound) (hne : folder ≠ "") (hc : Fresh d folder c) :
    d.Lists folder (d.volumes folder) ∧ c.pass d = decodings folder (d.volumes folder) ∧
      ∀ (other : Cursor) (path : String) (offset : Nat) (cause : Error),
        (other.next d).1 = .error (.corruption path offset cause) → cause.Corrupts := by
  obtain ⟨hlists, rfl, hset⟩ := hc.lists hs hne
  refine ⟨hlists, ?_, fun other path offset cause => corrupts_of_next⟩
  rw [hset]
  exact pass_volumes hlists.shows 0

/-! ## A damaged folder -/

/-- A record of which the last octet was changed. -/
def spoiled : Octets := (Record.write 6 0 [1] [2]).form.dropLast ++ [3]

/-- A segment with a good record, a spoiled one, a good one, and the beginning of a header. -/
def damagedSegment : Octets :=
  (Record.write 5 0 [1] [2]).form ++ (spoiled ++ ((Record.write 7 0 [3] []).form ++ [9, 9, 9]))

/-- A folder with an empty segment, a damaged one, and a good one. -/
def damagedFolder : Disk where
  nodes := [((Location.top.enter "wal").enter "2.wal", .file 0),
    ((Location.top.enter "wal").enter "00000000000000000001.wal", .file 1),
    ((Location.top.enter "wal").enter "0.wal", .file 2), (Location.top.enter "wal", .folder)]
  bodies := fun body =>
    if body = 0 then .ofOctets (Record.write 8 0 [4] []).form
    else if body = 1 then .ofOctets damagedSegment
    else {}
  nextBody := 3

theorem sound_damagedFolder : damagedFolder.Sound :=
  ⟨by decide +kernel, by decide +kernel, by decide +kernel, by decide +kernel⟩

def beforeDamage : Cursor where
  folder := "wal"
  rest := [⟨0, "0.wal"⟩, Segment.ofId 1, ⟨2, "2.wal"⟩]
  count := 3

theorem decode_damagedSegment :
    Record.decode damagedSegment = .ok (Record.write 5 0 [1] [2]) ∧
      Record.decode (damagedSegment.drop 28) =
        .error (.checksumMismatch 3066839698 3251335684) :=
  ⟨Record.decode_form_append (by decide) _, by decide +kernel⟩

theorem pass_eq_decodings_damagedFolder :
    let late := (beforeDamage.take damagedFolder 2).2
    let again := late.rewind damagedFolder
    (damagedFolder.Sound ∧ "wal" ≠ "" ∧ Fresh damagedFolder "wal" again.2) ∧
    late.position = some (1, 28) ∧
    again.2.pass damagedFolder =
      [⟨.ok (Record.write 5 0 [1] [2]), some (1, 28)⟩,
        ⟨.error (.corruption "wal/00000000000000000001.wal" 28
          (.checksumMismatch 3066839698 3251335684)), some (1, 28)⟩] := by
  intro late again
  have hfolder : late.folder = "wal" := by decide +kernel
  have hrewound : late.rewind damagedFolder = (.ok (), again.2) := by
    have hanswer : again.1 = .ok () := by decide +kernel
    rw [← hanswer]
  have hfresh : Fresh damagedFolder "wal" again.2 := .rewound hfolder hrewound
  refine ⟨⟨sound_damagedFolder, by decide, hfresh⟩, by decide +kernel, ?_⟩
  have hvolumes : damagedFolder.volumes "wal" = [⟨⟨0, "0.wal"⟩, []⟩,
      ⟨Segment.ofId 1, damagedSegment⟩, ⟨⟨2, "2.wal"⟩, (Record.write 8 0 [4] []).form⟩] := by
    decide +kernel
  have hpass := (pass_eq_decodings sound_damagedFolder (by decide) hfresh).2.1
  obtain ⟨hfirst, hsecond⟩ := decode_damagedSegment
  rw [hpass, hvolumes, decodings, decodingsFrom_nil, decodings, decodingsFrom_of_ok hfirst]
  have hlength : (Record.write 5 0 [1] [2]).encodedLength = 28 := rfl
  have hpath : (Segment.ofId 1).path "wal" = "wal/00000000000000000001.wal" := by decide +kernel
  rw [hlength, decodingsFrom_of_error (by decide +kernel) hsecond, Nat.zero_add, hpath]
  rfl

end Cursor

end SegmentLog
