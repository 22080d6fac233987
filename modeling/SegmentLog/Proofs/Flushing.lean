import SegmentLog.Proofs.Scan

/-!
Where an appender stands in its folder. Its active segment is the last on disk, or has no file yet
(`Appender.Tracks`). A flush adds the buffer to the file of the segment (`OnFile.flush`), which it
creates where it is missing (`OffFile.flush`), or it is refused and adds nothing. Where the names of
segments are clear nothing is refused (`Appender.Ready`).
-/

namespace SegmentLog

/-! ## Records in volumes -/

/-- The records in a row of volumes. -/
def recordsIn (vs : List Volume) : List Record := vs.flatMap (·.octets.records)

/-- Volumes that hold whole records and nothing else. -/
def Intact (vs : List Volume) : Prop := ∀ v ∈ vs, v.octets.Whole

@[simp] theorem recordsIn_nil : recordsIn [] = [] := rfl

@[simp] theorem recordsIn_append (vs ws : List Volume) :
    recordsIn (vs ++ ws) = recordsIn vs ++ recordsIn ws := List.flatMap_append

@[simp] theorem recordsIn_cons (v : Volume) (vs : List Volume) :
    recordsIn (v :: vs) = v.octets.records ++ recordsIn vs := List.flatMap_cons

theorem intact_append {vs ws : List Volume} : Intact (vs ++ ws) ↔ Intact vs ∧ Intact ws := by
  unfold Intact
  exact List.forall_mem_append

theorem intact_singleton {v : Volume} : Intact [v] ↔ v.octets.Whole := by
  simp [Intact]

theorem intact_nil : Intact [] := by
  simp [Intact]

/-- Intact volumes are read to their end. -/
theorem survey_of_intact {vs : List Volume} (h : Intact vs) : survey vs = ⟨recordsIn vs, none⟩ := by
  induction vs with
  | nil => rfl
  | cons v rest ih =>
    have hv := h v List.mem_cons_self
    have hrest : Intact rest := fun w hw => h w (List.mem_cons_of_mem _ hw)
    rw [survey, Survey.ofOctets, if_pos hv, ih hrest, recordsIn_cons]

/-- Behind intact volumes a damaged one ends the reading. -/
theorem survey_of_torn {front back : List Volume} {v : Volume} (hi : Intact front)
    (hv : ¬ v.octets.Whole) : survey (front ++ v :: back) =
      ⟨recordsIn front ++ v.octets.records,
        some ⟨v.segment, v.octets.wholeLength, v.octets.flaw⟩⟩ := by
  induction front with
  | nil =>
    rw [List.nil_append, survey, Survey.ofOctets, if_neg hv, Nat.zero_add]
    rfl
  | cons w front ih =>
    have hw := hi w List.mem_cons_self
    rw [List.cons_append, survey, Survey.ofOctets, if_pos hw,
      ih fun u hu => hi u (List.mem_cons_of_mem _ hu), recordsIn_cons, List.append_assoc]

/-- The survey of damaged volumes ends in the first that is not a row of whole records. -/
theorem survey_of_damage {vs : List Volume} {x : Damage} (h : (survey vs).damage = some x) :
    ∃ front v back, vs = front ++ v :: back ∧ Intact front ∧
      x = ⟨v.segment, v.octets.wholeLength, v.octets.flaw⟩ ∧
      (survey vs).records = recordsIn front ++ v.octets.records := by
  induction vs with
  | nil => cases h
  | cons v rest ih =>
    rw [survey, Survey.ofOctets] at h ⊢
    by_cases hv : v.octets.Whole
    · rw [if_pos hv] at h ⊢
      obtain ⟨front, w, back, rfl, hfront, hx, hrecords⟩ := ih h
      refine ⟨v :: front, w, back, rfl, ?_, hx, ?_⟩
      · intro u hu
        rcases List.mem_cons.mp hu with rfl | hu
        · exact hv
        · exact hfront u hu
      · rw [hrecords, recordsIn_cons, List.append_assoc]
    · rw [if_neg hv] at h ⊢
      cases h
      exact ⟨[], v, rest, rfl, intact_nil, by rw [Nat.zero_add], rfl⟩

theorem intact_of_survey {vs : List Volume} (h : (survey vs).damage = none) : Intact vs := by
  induction vs with
  | nil => exact intact_nil
  | cons v rest ih =>
    rw [survey, Survey.ofOctets] at h
    by_cases hv : v.octets.Whole
    · rw [if_pos hv] at h
      intro w hw
      rcases List.mem_cons.mp hw with rfl | hw
      · exact hv
      · exact ih h w hw
    · rw [if_neg hv] at h
      cases h

/-! ## Segments without a file -/

theorem Disk.Holds.bodyOf?_eq_none {d : Disk} {folder : String} {vs : List Volume}
    (h : d.Holds folder vs) {s : Segment} (hs : s.Named) (habove : ∀ v ∈ vs, v.segment.id < s.id) :
    d.bodyOf? folder s = none := by
  rw [Option.eq_none_iff_forall_ne_some]
  intro body hb
  obtain ⟨v, hv, hvs, -⟩ := h.exists_mem hs hb
  exact UInt64.lt_irrefl _ (hvs ▸ habove v hv)

/-- Where names are clear a segment can be opened for writing, and what is opened is a file. -/
theorem Disk.Clear.openWrite {d : Disk} {folder : String} (hc : d.Clear folder) (ht : d.Tidy)
    (id : UInt64) :
    ∃ body d', d.openWrite ((Segment.ofId id).place folder) = .ok (.file body, d') := by
  cases hb : d.bodyOf? folder (Segment.ofId id) with
  | some body => exact ⟨body, d, Disk.openWrite_of_bodyOf? ht hb⟩
  | none =>
    obtain ⟨loc, -, -, -, hopen⟩ := Disk.openWrite_of_clear hc hb
    exact ⟨_, _, hopen⟩

namespace Appender

variable {a : Appender} {d : Disk} {vs front : List Volume} {settled : Octets}

/-! ## Where an appender stands -/

/-- The active segment stands on disk as the last of its folder. -/
structure OnFile (a : Appender) (d : Disk) (front : List Volume) (settled : Octets) : Prop where
  holds : d.Holds a.folder (front ++ [⟨a.active, settled⟩])
  offset : settled.length + a.buffer.length = a.offset
  file : ∀ n, a.file = some n → ∃ body, n = .file body ∧ d.bodyOf? a.folder a.active = some body

/-- The active segment has no file, so nothing of it is written. -/
structure OffFile (a : Appender) (d : Disk) (vs : List Volume) : Prop where
  holds : d.Holds a.folder vs
  above : ∀ v ∈ vs, v.segment.id < a.active.id
  active : a.active = Segment.ofId a.active.id
  offset : a.buffer.length = a.offset
  file : ∀ n, a.file = some n → n = .full

/-- The appender goes on where these volumes end. -/
inductive Tracks (a : Appender) (d : Disk) : List Volume → Prop
  | on {front : List Volume} {settled : Octets} (h : OnFile a d front settled) :
    Tracks a d (front ++ [⟨a.active, settled⟩])
  | off {vs : List Volume} (h : OffFile a d vs) : Tracks a d vs

/-- Nothing stands in the way of writing. -/
structure Ready (a : Appender) (d : Disk) : Prop where
  clear : d.Clear a.folder
  willing : d.Willing
  file : a.file ≠ some .full

/-- What an appender keeps from one operation to the next, whatever it writes and where. -/
structure SameTerms (a b : Appender) : Prop where
  folder : b.folder = a.folder
  segmentLimit : b.segmentLimit = a.segmentLimit
  bufferLimit : b.bufferLimit = a.bufferLimit
  sync : b.sync = a.sync
  closed : b.closed = a.closed

theorem SameTerms.refl (a : Appender) : SameTerms a a := ⟨rfl, rfl, rfl, rfl, rfl⟩

theorem SameTerms.trans {b c : Appender} (h : SameTerms a b) (h' : SameTerms b c) :
    SameTerms a c :=
  ⟨h'.folder.trans h.folder, h'.segmentLimit.trans h.segmentLimit,
    h'.bufferLimit.trans h.bufferLimit, h'.sync.trans h.sync, h'.closed.trans h.closed⟩

theorem Tracks.holds (h : Tracks a d vs) : d.Holds a.folder vs := by
  cases h with
  | on h => exact h.holds
  | off h => exact h.holds

theorem Tracks.id_le (h : Tracks a d vs) {v : Volume} (hv : v ∈ vs) :
    v.segment.id ≤ a.active.id := by
  cases h with
  | @on front settled h =>
    have hasc := h.holds.ascending
    rw [List.map_append, List.pairwise_append] at hasc
    rcases List.mem_append.mp hv with hv | hv
    · exact UInt64.le_of_lt (hasc.2.2 _ (List.mem_map_of_mem hv) _ (by simp))
    · rw [List.mem_singleton.mp hv]
      exact UInt64.le_refl _
  | off h => exact UInt64.le_of_lt (h.above v hv)

/-- An appender set to the end of a segment, with nothing in its buffer. -/
def moveTo (a : Appender) (s : Segment) (n : Node) (offset : Nat) : Appender :=
  { a with active := s, file := some n, offset, buffer := [] }

theorem onFile_moveTo {s : Segment} {body length : Nat}
    (h : d.Holds a.folder (front ++ [⟨s, settled⟩])) (hb : d.bodyOf? a.folder s = some body)
    (hlength : settled.length = length) : OnFile (a.moveTo s (.file body) length) d front settled := by
  refine ⟨h, hlength, ?_⟩
  intro n hn
  exact ⟨body, (Option.some.inj hn).symm, hb⟩

/-! ## Opening a segment behind the others -/

/-- An appender set to a segment behind all others goes on where the others end. The segment has a
file then, with nothing in it, unless a full device stands in its place. -/
theorem openSegment_behind {id : UInt64} {n : Node} {length : Nat} {d' : Disk}
    (hv : d.Holds a.folder vs) (habove : ∀ v ∈ vs, v.segment.id < id)
    (h : openSegment d a.folder (Segment.ofId id) = .ok (n, length, d')) :
    (OffFile (a.moveTo (Segment.ofId id) n length) d' vs ∨
      OnFile (a.moveTo (Segment.ofId id) n length) d' vs []) ∧
    (d.Clear a.folder → n ≠ .full ∧
      (d.Willing → (a.moveTo (Segment.ofId id) n length).Ready d')) := by
  have hnamed := Segment.named_ofId id
  have hnone := hv.bodyOf?_eq_none hnamed habove
  unfold openSegment at h
  rcases Disk.openWrite_cases hnone with ⟨f, hf⟩ | hf | ⟨loc, hl, hsp, hnode, hf⟩
  · rw [hf] at h
    cases h
  · -- a full device: what is written there will be refused
    rw [hf] at h
    cases h
    refine ⟨.inl ⟨hv, habove, rfl, rfl, fun n hn => (Option.some.inj hn).symm⟩, ?_⟩
    intro hc
    obtain ⟨_, _, hopen⟩ := hc.openWrite hv.tidy id
    rw [hf] at hopen
    cases hopen
  · rw [hf] at h
    cases h
    have hbody := Disk.bodyOf?_create_self hl hnode hsp
    have hsize : (d.create (loc.enter (Segment.ofId id).name)).size (.file d.nextBody) = 0 := by
      simp [Disk.size, Body.length, Body.lengthOf]
    rw [hsize]
    refine ⟨.inr (onFile_moveTo (hv.create hl hnamed hsp hnode habove) hbody rfl), ?_⟩
    intro hc
    exact ⟨by simp, fun hw => ⟨hc.create hl hnode (by simp), hw, by simp [moveTo]⟩⟩

/-! ## Flushing -/

/-- A write to a regular file that is granted has added the buffer to it. -/
theorem writeOut_of_ok {body : Nat} (hok : (a.writeOut d (.file body)).1 = .ok ()) :
    a.writeOut d (.file body) = (.ok (), { a with file := some (.file body), buffer := [] },
      d.setBody body ((d.bodies body).append a.buffer)) := by
  unfold Appender.writeOut at hok ⊢
  rcases Disk.append_file d body a.buffer with happend | ⟨count, f, -, -, happend⟩
  · rw [happend] at hok ⊢
    dsimp only at hok ⊢
    split at hok
    · cases hok
    · rfl
  · rw [happend] at hok
    cases hok

/-- A regular file takes the buffer, or nothing of it. -/
theorem writeOut_file (a : Appender) (ht : d.Tidy) (body : Nat) :
    a.writeOut d (.file body) = (.ok (), { a with file := some (.file body), buffer := [] },
      d.setBody body ((d.bodies body).append a.buffer)) ∨
    ∃ f, a.writeOut d (.file body) = (.error (.io .flushSegment a.path f), { a with file := none },
      d.setBody body ((d.bodies body).append [])) ∧ ¬ d.Willing := by
  rcases Disk.append_file d body a.buffer with happend | ⟨count, f, hwriting, -, happend⟩
  · have hsync : (d.setBody body ((d.bodies body).append a.buffer)).sync (.file body) = .ok () := by
      simp [Disk.sync, (ht body).syncing]
    refine .inl ?_
    by_cases hs : a.sync <;> simp [writeOut, happend, hs, hsync]
  · obtain rfl : count = 0 := (ht body).writing count f hwriting
    refine .inr ⟨f, by simp [writeOut, happend], fun h => ?_⟩
    rw [h body] at hwriting
    cases hwriting

/-- A full device does not. -/
theorem writeOut_full (hb : a.buffer ≠ []) (d : Disk) :
    a.writeOut d .full =
      (.error (.io .flushSegment a.path .noSpace), { a with file := none }, d) := by
  simp [writeOut, Disk.append, hb]

/-- Nothing is written to a full device. -/
theorem writeOut_cases (hne : a.buffer ≠ []) (d : Disk) (n : Node) :
    (∃ d', n ≠ .full ∧ a.writeOut d n = (.ok (), { a with file := some n, buffer := [] }, d')) ∨
    ∃ e d', a.writeOut d n = (.error e, { a with file := none }, d') := by
  unfold Appender.writeOut
  rcases ha : d.append n a.buffer with ⟨answer, d₁⟩
  cases answer with
  | error f => exact .inr ⟨_, _, rfl⟩
  | ok _ =>
    dsimp only
    split
    · exact .inr ⟨_, _, rfl⟩
    · refine .inl ⟨_, ?_, rfl⟩
      rintro rfl
      rw [Disk.append, if_neg hne] at ha
      cases ha

theorem flush_cases (hne : a.buffer ≠ []) (d : Disk) :
    (∃ n d', n ≠ .full ∧ a.flush d = (.ok (), { a with file := some n, buffer := [] }, d')) ∨
    ∃ e d', a.flush d = (.error e, { a with file := none }, d') := by
  unfold Appender.flush
  rw [if_neg hne]
  cases hf : a.file with
  | some n => exact (writeOut_cases hne d n).imp_left fun ⟨d', h⟩ => ⟨n, d', h⟩
  | none =>
    rcases hr : a.reopen d with ⟨answer, d₁⟩
    cases answer with
    | error e =>
      have hsame : { a with file := none } = a := by rw [← hf]
      exact .inr ⟨e, d₁, by rw [hsame]⟩
    | ok n => exact (writeOut_cases hne d₁ n).imp_left fun ⟨d', h⟩ => ⟨n, d', h⟩

/-- A flush empties the buffer into the file, or it keeps the buffer and lets go of the file. -/
theorem flush_spec (a : Appender) (d : Disk) :
    (∃ f d', a.flush d = (.ok (), { a with file := f, buffer := [] }, d')) ∨
    ∃ e d', a.flush d = (.error e, { a with file := none }, d') := by
  by_cases hempty : a.buffer = []
  · have hsame : { a with file := a.file, buffer := [] } = a := by rw [← hempty]
    refine .inl ⟨a.file, d, ?_⟩
    rw [hsame, Appender.flush, if_pos hempty]
  · rcases flush_cases hempty d with ⟨n, d', -, hflush⟩ | hrefused
    · exact .inl ⟨some n, d', hflush⟩
    · exact .inr hrefused

/-- The active segment is opened again at the length that is known to be written. -/
theorem OnFile.reopen (h : OnFile a d front settled) :
    ∃ body d', a.reopen d = (.ok (.file body), d') ∧ OnFile a d' front settled ∧
      d'.bodyOf? a.folder a.active = some body ∧ d'.refusals = d.refusals ∧
      (d.Clear a.folder → d'.Clear a.folder) := by
  obtain ⟨-, body, hb, hoctets⟩ := h.holds.shows ⟨a.active, settled⟩ (by simp)
  have hopen : openSegment d a.folder a.active = .ok (.file body, d.size (.file body), d) := by
    rw [openSegment, Disk.openWrite_of_bodyOf? h.holds.tidy hb]
  have hlength : (d.bodies body).length = settled.length := by
    rw [← Body.length_octets, hoctets]
  have hsettled : a.settled = settled.length := by
    have hoffset := h.offset
    rw [Appender.settled]
    omega
  have hresize : d.resize (.file body) a.settled =
      .ok (d.setBody body ((d.bodies body).resize a.settled)) := by
    simp only [Disk.resize, (h.holds.tidy body).resizing]
    rw [if_pos (by omega)]
  have hsame : ((d.bodies body).resize a.settled).octets = settled := by
    rw [Body.octets_resize, hsettled, hlength, Nat.sub_self, hoctets]
    simp
  have hholds := h.holds.setBody hb ((d.bodies body).resize a.settled)
  rw [hsame] at hholds
  refine ⟨body, d.setBody body ((d.bodies body).resize a.settled), ?_, ⟨hholds, h.offset, ?_⟩,
    by simpa using hb, rfl, fun hc => hc.setBody _ _⟩
  · simp only [Appender.reopen, hopen, hresize]
  · intro n hn
    obtain ⟨b, hnb, hbb⟩ := h.file n hn
    exact ⟨b, hnb, by simpa using hbb⟩

/-- Writing to the file of the active segment adds the buffer to what is settled, or nothing. -/
theorem OnFile.writeOut {body : Nat} (h : OnFile a d front settled)
    (hb : d.bodyOf? a.folder a.active = some body) :
    (∃ d', a.writeOut d (.file body) =
        (.ok (), { a with file := some (.file body), buffer := [] }, d') ∧
      OnFile { a with file := some (.file body), buffer := [] } d' front (settled ++ a.buffer) ∧
      d'.refusals = d.refusals ∧ (d.Clear a.folder → d'.Clear a.folder)) ∨
    (∃ e d', a.writeOut d (.file body) = (.error e, { a with file := none }, d') ∧
      OnFile { a with file := none } d' front settled ∧ e.isIo = true ∧ ¬ d.Willing) := by
  obtain ⟨-, b, hbb, hoctets⟩ := h.holds.shows ⟨a.active, settled⟩ (by simp)
  obtain rfl : b = body := Option.some.inj (hbb.symm.trans hb)
  have hwritten (bs : Octets) :
      (d.setBody b ((d.bodies b).append bs)).Holds a.folder (front ++ [⟨a.active, settled ++ bs⟩]) := by
    have hholds := h.holds.setBody hb ((d.bodies b).append bs)
    rwa [Body.octets_append, hoctets] at hholds
  rcases writeOut_file a h.holds.tidy b with hwrite | ⟨f, hwrite, hnot⟩
  · refine .inl ⟨_, hwrite, ⟨hwritten _, ?_, ?_⟩, rfl, fun hc => hc.setBody _ _⟩
    · simpa using h.offset
    · intro n hn
      exact ⟨b, (Option.some.inj hn).symm, by simpa using hb⟩
  · have hsame := hwritten []
    rw [List.append_nil] at hsame
    exact .inr ⟨_, _, hwrite, ⟨hsame, h.offset, fun n hn => by cases hn⟩, rfl, hnot⟩

/-- A flush of a segment that stands on disk adds the buffer to its file, or nothing. -/
theorem OnFile.flush (h : OnFile a d front settled) :
    (∃ f d', a.flush d = (.ok (), { a with file := f, buffer := [] }, d') ∧
      OnFile { a with file := f, buffer := [] } d' front (settled ++ a.buffer) ∧
      (a.Ready d → Ready { a with file := f, buffer := [] } d')) ∨
    (∃ e d', a.flush d = (.error e, { a with file := none }, d') ∧
      OnFile { a with file := none } d' front settled ∧ e.isIo = true ∧ ¬ a.Ready d) := by
  by_cases hempty : a.buffer = []
  · have hsame : { a with file := a.file, buffer := [] } = a := by rw [← hempty]
    refine .inl ⟨a.file, d, ?_, ?_, ?_⟩
    · rw [hsame, Appender.flush, if_pos hempty]
    · rw [hsame, hempty, List.append_nil]
      exact h
    · rw [hsame]
      exact id
  · -- the file is open already or opened again first; either way it is there to be written
    have hopened : ∃ body d₁, a.flush d = a.writeOut d₁ (.file body) ∧ OnFile a d₁ front settled ∧
        d₁.bodyOf? a.folder a.active = some body ∧ d₁.refusals = d.refusals ∧
        (d.Clear a.folder → d₁.Clear a.folder) := by
      cases hf : a.file with
      | some n =>
        obtain ⟨body, rfl, hb⟩ := h.file n hf
        exact ⟨body, d, by simp only [Appender.flush, if_neg hempty, hf], h, hb, rfl, id⟩
      | none =>
        obtain ⟨body, d₁, hreopen, hon, hkept⟩ := h.reopen
        exact ⟨body, d₁, by simp only [Appender.flush, if_neg hempty, hf, hreopen], hon, hkept⟩
    obtain ⟨body, d₁, hflush, hon, hb, hrefusals, hclear⟩ := hopened
    rw [hflush]
    rcases hon.writeOut hb with ⟨d', hwrite, hon', hsame, hclear'⟩ | ⟨e, d', hwrite, hon', hio, hnot⟩
    · refine .inl ⟨_, d', hwrite, hon', fun hr => ⟨hclear' (hclear hr.clear), ?_, by simp⟩⟩
      exact hr.willing.of_refusals (hsame.trans hrefusals)
    · exact .inr ⟨e, d', hwrite, hon', hio, fun hr => hnot (hr.willing.of_refusals hrefusals)⟩

/-- Where nothing stands in the way the flush is granted. -/
theorem OnFile.flush_of_ready (h : OnFile a d front settled) (hr : a.Ready d) :
    ∃ f d', a.flush d = (.ok (), { a with file := f, buffer := [] }, d') ∧
      OnFile { a with file := f, buffer := [] } d' front (settled ++ a.buffer) ∧
      Ready { a with file := f, buffer := [] } d' := by
  rcases h.flush with ⟨f, d', hflush, hon, hready⟩ | ⟨_, _, _, _, _, hnot⟩
  · exact ⟨f, d', hflush, hon, hready hr⟩
  · exact absurd hr hnot

/-- A flush of a segment without a file creates the file, or is refused. Refused it changes nothing,
unless the file is there now and has taken nothing. -/
theorem OffFile.flush (h : OffFile a d vs) (hbuffer : a.buffer ≠ []) :
    (∃ f d', a.flush d = (.ok (), { a with file := f, buffer := [] }, d') ∧
      OnFile { a with file := f, buffer := [] } d' vs a.buffer ∧
      (a.Ready d → Ready { a with file := f, buffer := [] } d')) ∨
    (∃ e d', a.flush d = (.error e, { a with file := none }, d') ∧
      (d' = d ∨ OnFile { a with file := none } d' vs []) ∧ e.isIo = true ∧ ¬ a.Ready d) := by
  cases hf : a.file with
  | some n =>
    obtain rfl := h.file n hf
    refine .inr ⟨.io .flushSegment a.path .noSpace, d, ?_, .inl rfl, rfl, fun hr => hr.file hf⟩
    simp only [Appender.flush, if_neg hbuffer, hf, writeOut_full hbuffer]
  | none =>
    have hsame : { a with file := none } = a := by rw [← hf]
    have hnamed : a.active.Named := h.active ▸ Segment.named_ofId _
    have hnone := h.holds.bodyOf?_eq_none hnamed h.above
    have hsettled : a.settled = 0 := by
      have hoffset := h.offset
      rw [Appender.settled]
      omega
    rcases Disk.openWrite_cases hnone with ⟨f, hopen⟩ | hopen | ⟨loc, hl, hsp, hnode, hopen⟩
    · refine .inr ⟨.io .openSegment a.path f, d, ?_, .inl rfl, rfl, ?_⟩
      · rw [hsame]
        simp only [Appender.flush, if_neg hbuffer, hf, Appender.reopen, openSegment, hopen]
        rfl
      · intro hr
        obtain ⟨_, _, hok⟩ := hr.clear.openWrite h.holds.tidy a.active.id
        rw [← h.active, hopen] at hok
        cases hok
    · refine .inr ⟨.io .truncateSegment a.path .invalid, d, ?_, .inl rfl, rfl, ?_⟩
      · rw [hsame]
        simp only [Appender.flush, if_neg hbuffer, hf, Appender.reopen, openSegment, hopen,
          Disk.resize, hsettled]
        rfl
      · intro hr
        obtain ⟨_, _, hok⟩ := hr.clear.openWrite h.holds.tidy a.active.id
        rw [← h.active, hopen] at hok
        cases hok
    · -- the file is created with nothing in it, and is there to be written
      have hb := Disk.bodyOf?_create_self hl hnode hsp
      have hon : OnFile a (d.create (loc.enter a.active.name)) vs [] := by
        refine ⟨h.holds.create hl hnamed hsp hnode h.above, ?_, ?_⟩
        · simpa using h.offset
        · intro n hn
          rw [hf] at hn
          cases hn
      have hflush : a.flush d = a.flush (d.create (loc.enter a.active.name)) := by
        have hagain := Disk.openWrite_of_bodyOf? hon.holds.tidy hb
        simp only [Appender.flush, if_neg hbuffer, hf, Appender.reopen, openSegment, hopen, hagain]
      have hready (hr : a.Ready d) : a.Ready (d.create (loc.enter a.active.name)) :=
        ⟨hr.clear.create hl hnode (by simp), hr.willing, hr.file⟩
      rw [hflush]
      rcases hon.flush with ⟨f, d', hwrite, hon', hkept⟩ | ⟨e, d', hwrite, hon', hio, hnot⟩
      · exact .inl ⟨f, d', hwrite, hon', fun hr => hkept (hready hr)⟩
      · exact .inr ⟨e, d', hwrite, .inr hon', hio, fun hr => hnot (hready hr)⟩

end Appender

end SegmentLog
