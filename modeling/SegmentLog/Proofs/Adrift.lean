import SegmentLog.Proofs.Lossless

/-!
An appender that takes its active segment for longer than it is. A cut that is refused drops the
buffer and lets go of the file, but the length that the appender reckons with stays what it was
(`Appender.Adrift`). Such an appender goes on in one of two ways. A flush opens the segment again at
the length that was reckoned with, so zeros fill the gap before the buffer (`Adrift.flush`). If the
buffer is empty and the next record does not fit, it goes to a new segment, and the gap is left behind
(`Adrift.append`).
-/

namespace SegmentLog

namespace Appender

variable {a : Appender} {d : Disk} {vs front : List Volume} {settled bs : Octets} {gap : Nat}

/-! ## Seats -/

/-- The volumes of a folder whose last segment is `s`, or is to be `s` once it has a file. -/
def Base (front : List Volume) (s : Segment) (settled : Octets) (base : List Volume) : Prop :=
  base = front ++ [⟨s, settled⟩] ∨ base = front ∧ settled = []

/-- The active segment stands on disk behind all others, or is empty and has no file. The appender
takes it for longer than it is by `gap` octets. -/
structure Seated (a : Appender) (d : Disk) (front : List Volume) (settled : Octets) (gap : Nat) :
    Prop where
  holds : ∃ base, Base front a.active settled base ∧ d.Holds a.folder base
  above : ∀ v ∈ front, v.segment.id < a.active.id
  named : a.active.Named
  offset : settled.length + gap + a.buffer.length = a.offset

/-- The active segment has to be opened again before something can be written to it. Then it is
written. -/
structure Adrift (a : Appender) (d : Disk) (front : List Volume) (settled : Octets) (gap : Nat) :
    Prop extends Seated a d front settled gap where
  file : a.file = none
  willing : d.Willing

theorem Tracks.seated (h : a.Tracks d vs) :
    ∃ front settled, Base front a.active settled vs ∧ a.Seated d front settled 0 := by
  cases h with
  | @on front settled h =>
    have hasc := h.holds.ascending
    rw [List.map_append, List.pairwise_append] at hasc
    refine ⟨front, settled, .inl rfl, ⟨_, .inl rfl, h.holds⟩, fun v hv => ?_, ?_, h.offset⟩
    · exact hasc.2.2 _ (List.mem_map_of_mem hv) _ (by simp)
    · exact h.holds.named (v := ⟨a.active, settled⟩) (by simp)
  | off h =>
    refine ⟨vs, [], .inr ⟨rfl, rfl⟩, ⟨_, .inr ⟨rfl, rfl⟩, h.holds⟩, h.above, ?_, ?_⟩
    · rw [h.active]
      exact Segment.named_ofId _
    · simpa using h.offset

theorem Seated.below (h : a.Seated d front settled gap) {base : List Volume}
    (hbase : Base front a.active settled base) {id : UInt64} (hlt : a.active.id < id) :
    ∀ v ∈ base, v.segment.id < id := by
  intro v hv
  rcases hbase with rfl | ⟨rfl, -⟩
  · rcases List.mem_append.mp hv with hv | hv
    · exact UInt64.lt_trans (h.above v hv) hlt
    · rw [List.mem_singleton.mp hv]
      exact hlt
  · exact UInt64.lt_trans (h.above v hv) hlt

theorem Adrift.settled_eq (h : a.Adrift d front settled gap) : a.settled = settled.length + gap := by
  have hoffset := h.offset
  rw [Appender.settled]
  omega

theorem Adrift.holding (h : a.Adrift d front settled gap) (bs : Octets) :
    (a.holding bs).Adrift d front settled gap := by
  refine ⟨⟨h.holds, h.above, h.named, ?_⟩, h.file, h.willing⟩
  have hoffset := h.offset
  simp only [Appender.holding, List.length_append]
  omega

theorem Adrift.spares {d' : Disk} (h : a.Adrift d front settled gap)
    (hd : Disk.Spares a.folder d d') (hw : d'.Willing) : a.Adrift d' front settled gap := by
  obtain ⟨base, hbase, hholds⟩ := h.holds
  exact ⟨⟨⟨base, hbase, hholds.spares hd⟩, h.above, h.named, h.offset⟩, h.file, hw⟩

/-! ## Flushing -/

/-- Opening the active segment is refused, or reaches a full device, or the segment stands on disk
then. -/
theorem Adrift.openSegment (h : a.Adrift d front settled gap) :
    (∃ e, openSegment d a.folder a.active = .error e) ∨
    openSegment d a.folder a.active = .ok (.full, 0, d) ∨
    ∃ body length d', openSegment d a.folder a.active = .ok (.file body, length, d') ∧
      d'.Holds a.folder (front ++ [⟨a.active, settled⟩]) ∧
      d'.bodyOf? a.folder a.active = some body ∧ d'.Willing := by
  obtain ⟨base, rfl | ⟨rfl, rfl⟩, hholds⟩ := h.holds
  · obtain ⟨-, body, hb, -⟩ := hholds.shows ⟨a.active, settled⟩ (by simp)
    refine .inr (.inr ⟨body, d.size (.file body), d, ?_, hholds, hb, h.willing⟩)
    rw [Appender.openSegment, Disk.openWrite_of_bodyOf? hholds.tidy hb]
  · have hnone := hholds.bodyOf?_eq_none h.named h.above
    rcases Disk.openWrite_cases hnone with ⟨f, hf⟩ | hf | ⟨loc, hl, hsp, hnode, hf⟩
    · exact .inl ⟨_, by rw [Appender.openSegment, hf]⟩
    · exact .inr (.inl (by rw [Appender.openSegment, hf]; rfl))
    · refine .inr (.inr ⟨_, _, d.create (loc.enter a.active.name),
        by rw [Appender.openSegment, hf], ?_, ?_, h.willing⟩)
      · exact hholds.create hl h.named hsp hnode h.above
      · exact Disk.bodyOf?_create_self hl hnode hsp

/-- The segment is opened again at the length that is reckoned with, so zeros fill the gap; or this is
refused. -/
theorem Adrift.reopen (h : a.Adrift d front settled gap) :
    (∃ body d', a.reopen d = (.ok (.file body), d') ∧
      OnFile a d' front (settled ++ List.replicate gap 0) ∧
      d'.bodyOf? a.folder a.active = some body ∧ d'.Willing) ∨
    ∃ e d', a.reopen d = (.error e, d') ∧ a.Adrift d' front settled gap := by
  rcases h.openSegment with ⟨e, hopen⟩ | hopen | ⟨body, length, d', hopen, hholds, hb, hw⟩
  · exact .inr ⟨e, d, by simp only [Appender.reopen, hopen], h⟩
  · refine .inr ?_
    cases hresize : d.resize .full a.settled with
    | error f =>
      refine ⟨.io .truncateSegment a.path f, d, ?_, h⟩
      simp only [Appender.reopen, hopen, hresize]
    | ok d' =>
      simp only [Disk.resize] at hresize
      split at hresize <;> cases hresize
  · have hadrift : a.Adrift d' front settled gap :=
      ⟨⟨⟨_, .inl rfl, hholds⟩, h.above, h.named, h.offset⟩, h.file, hw⟩
    cases hresize : d'.resize (.file body) a.settled with
    | error f =>
      refine .inr ⟨.io .truncateSegment a.path f, d', ?_, hadrift⟩
      simp only [Appender.reopen, hopen, hresize]
    | ok d'' =>
      obtain ⟨-, b, hbb, hoctets⟩ := hholds.shows ⟨a.active, settled⟩ (by simp)
      obtain rfl : b = body := Option.some.inj (hbb.symm.trans hb)
      have hlength : (d'.bodies b).length = settled.length := by
        rw [← Body.length_octets, hoctets]
      obtain rfl := Disk.eq_of_resize hresize
      have hfilled : ((d'.bodies b).resize a.settled).octets =
          settled ++ List.replicate gap 0 := by
        rw [Body.octets_resize, h.settled_eq, hlength, hoctets, Nat.add_sub_cancel_left,
          List.take_of_length_le (Nat.le_add_right _ _)]
      have hset := hholds.setBody hb ((d'.bodies b).resize a.settled)
      rw [hfilled] at hset
      refine .inl ⟨b, _, ?_, ⟨hset, ?_, ?_⟩, by simpa using hb, hw⟩
      · simp only [Appender.reopen, hopen, hresize]
      · rw [List.length_append, List.length_replicate]
        exact h.offset
      · intro n hn
        rw [h.file] at hn
        cases hn

/-- A flush fills the gap with zeros and writes the buffer behind them, or it is refused and changes
nothing that counts. -/
theorem Adrift.flush (h : a.Adrift d front settled gap) (hb : a.buffer ≠ []) :
    (∃ f d', a.flush d = (.ok (), { a with file := some f, buffer := [] }, d') ∧
      OnFile { a with file := some f, buffer := [] } d' front
        (settled ++ List.replicate gap 0 ++ a.buffer)) ∨
    ∃ e d', a.flush d = (.error e, a, d') ∧ a.Adrift d' front settled gap := by
  rcases h.reopen with ⟨body, d₁, hreopen, hon, hbody, hw⟩ | ⟨e, d₁, hreopen, hadrift⟩
  · rcases hon.writeOut hbody with ⟨d', hwrite, hon', -⟩ | ⟨e, d', -, -, -, hnot⟩
    · refine .inl ⟨.file body, d', ?_, hon'⟩
      simp only [Appender.flush, if_neg hb, h.file, hreopen, hwrite]
    · exact absurd hw hnot
  · refine .inr ⟨e, d₁, ?_, hadrift⟩
    simp only [Appender.flush, if_neg hb, h.file, hreopen]

/-! ## Appending -/

theorem flush_of_nil (hb : a.buffer = []) (d : Disk) : a.flush d = (.ok (), a, d) := by
  rw [Appender.flush, if_pos hb]

theorem rotate_of_flush {b : Appender} {d' : Disk} (h : a.flush d = (.ok (), b, d'))
    (hb : b.buffer = []) : a.rotate d = b.rotate d' := by
  simp only [Appender.rotate, h, flush_of_nil hb]

/-- A record fits into an empty segment, and where it does not grow the segment past its limit. -/
theorem overflows_eq_false_iff {length : Nat} :
    a.overflows length = false ↔ a.offset = 0 ∨ a.offset + length ≤ a.segmentLimit := by
  rw [Appender.overflows, Bool.and_eq_false_iff, decide_eq_false_iff_not, decide_eq_false_iff_not]
  omega

theorem append_congr {c : Appender} {d' : Disk} {r : Record} (ha : a.closed = false)
    (hc : c.closed = false) (h : a.makeRoom d r.form.length = c.makeRoom d' r.form.length)
    (hr : r.Fits) (force : Bool) : a.append d r force = c.append d' r force := by
  simp only [Appender.append, Record.encode_of_fits hr, ha, hc, h, Bool.false_eq_true, if_false]

theorem length_of_openSegment {folder : String} {s : Segment} {n : Node} {length : Nat} {d' : Disk}
    (hnone : d.bodyOf? folder s = none) (h : Appender.openSegment d folder s = .ok (n, length, d')) :
    length = 0 := by
  unfold Appender.openSegment at h
  rcases Disk.openWrite_cases hnone with ⟨f, hf⟩ | hf | ⟨loc, -, -, -, hf⟩
  · rw [hf] at h
    cases h
  · rw [hf] at h
    cases h
    rfl
  · rw [hf] at h
    cases h
    simp [Disk.size, Body.length, Body.lengthOf]

/-- The ways an append can go while the segment is not as long as the appender takes it for. -/
inductive Sequel (a : Appender) (d : Disk) (front : List Volume) (settled : Octets) (gap : Nat)
    (r : Record) (force : Bool) : Prop
  | refused {e : Error} {d' : Disk} (happend : a.append d r force = (.error e, a, d'))
    (h : a.Adrift d' front settled gap)
  | buffered (happend : a.append d r force = (.ok r.sequence, a.holding r.form, d))
  /-- The record enters the buffer and is flushed with it. -/
  | flushed {b : Appender} {d' : Disk}
    (hflush : (a.holding r.form).flush d = (.ok (), b, d'))
    (happend : a.append d r force = (.ok r.sequence, b, d'))
  /-- The buffer is flushed to make room; it is an append to the flushed segment. -/
  | filled {b : Appender} {d' : Disk} (hne : a.buffer ≠ []) (hflush : a.flush d = (.ok (), b, d'))
    (happend : a.append d r force = b.append d' r force)
  /-- There is nothing to flush, and it is an append to a new segment. -/
  | passed {n : Node} {d' : Disk} (hnil : a.buffer = []) (hlt : a.active.id < a.active.id + 1)
    (hopened : Appender.openSegment d a.folder (Segment.ofId (a.active.id + 1)) = .ok (n, 0, d'))
    (happend : a.append d r force =
      (a.moveTo (Segment.ofId (a.active.id + 1)) n 0).append d' r force)
    (hactive : (a.append d r force).2.1.active = Segment.ofId (a.active.id + 1))

theorem Adrift.append (h : a.Adrift d front settled gap) (hopen : a.closed = false) {r : Record}
    (hr : r.Fits) (force : Bool) (hw : ¬ (a.append d r force).2.1.active.id < a.active.id) :
    a.Sequel d front settled gap r force := by
  have hsame : { a with file := none } = a := by rw [← h.file]
  -- what an append comes to whose making of room is refused, or does nothing
  have hrefused {e : Error} {d' : Disk} (hroom : a.makeRoom d r.form.length = (.error e, a, d'))
      (h' : a.Adrift d' front settled gap) : a.Sequel d front settled gap r force := by
    refine .refused (e := e) ?_ h'
    simp only [Appender.append, Record.encode_of_fits hr, hopen, hroom, Bool.false_eq_true, if_false]
  cases hover : a.overflows r.form.length with
  | false =>
    have hroom : a.makeRoom d r.form.length = (.ok (), a, d) := by
      rw [Appender.makeRoom, hover, if_neg (by simp)]
    have happend {answer : Except Error Unit} {b : Appender} {d' : Disk}
        (henqueue : a.enqueue d r.form force = (answer, b, d')) :
        a.append d r force = (answer.map fun _ => r.sequence, b, d') := by
      simp only [Appender.append, Record.encode_of_fits hr, hopen, hroom, henqueue,
        Bool.false_eq_true, if_false]
      cases answer <;> rfl
    by_cases hflushes : (a.holding r.form).Flushes force
    · have hne : (a.holding r.form).buffer ≠ [] := by
        simp [Appender.holding, Record.form_ne_nil]
      rcases (h.holding r.form).flush hne with ⟨f, d', hflush, -⟩ | ⟨e, d', hflush, hadrift⟩
      · exact .flushed hflush (happend (enqueue_of_flush hflushes hflush))
      · exact .refused (happend (enqueue_of_refused hflushes hflush))
          ⟨⟨hadrift.holds, h.above, h.named, h.offset⟩, h.file, hadrift.willing⟩
    · exact .buffered (happend (enqueue_of_buffer hflushes))
  | true =>
    have hroom : a.makeRoom d r.form.length = a.rotate d := by
      rw [Appender.makeRoom, hover, if_pos rfl]
    by_cases hnil : a.buffer = []
    · cases hopened : Appender.openSegment d a.folder (Segment.ofId (a.active.id + 1)) with
      | error e =>
        refine hrefused (?_ : _ = (Except.error e, a, d)) h
        rw [hroom]
        simp only [Appender.rotate, flush_of_nil hnil, hopened, hsame]
      | ok opened =>
        obtain ⟨n, length, d'⟩ := opened
        have hmove : a.rotate d =
            (.ok (), a.moveTo (Segment.ofId (a.active.id + 1)) n length, d') := by
          simp only [Appender.rotate, flush_of_nil hnil, hopened, moveTo, ← hnil]
        have hactive : (a.append d r force).2.1.active = Segment.ofId (a.active.id + 1) := by
          rw [append_active_eq hr hopen, hroom, hmove]
          rfl
        have hlt : a.active.id < a.active.id + 1 := by
          rw [hactive] at hw
          exact lt_succ_of_not_lt hw
        obtain ⟨base, hbase, hholds⟩ := h.holds
        obtain rfl := length_of_openSegment
          (hholds.bodyOf?_eq_none (Segment.named_ofId _) (h.below hbase hlt)) hopened
        refine .passed hnil hlt hopened (append_congr hopen (by exact hopen) ?_ hr force) hactive
        rw [hroom, hmove, Appender.makeRoom, Appender.overflows]
        simp [moveTo]
    · rcases h.flush hnil with ⟨f, d', hflush, -⟩ | ⟨e, d', hflush, hadrift⟩
      · refine .filled hnil hflush (append_congr hopen (by exact hopen) ?_ hr force)
        rw [hroom, rotate_of_flush hflush rfl, Appender.makeRoom]
        exact (if_pos hover).symm
      · refine hrefused (?_ : _ = (Except.error e, a, d')) hadrift
        rw [hroom]
        simp only [Appender.rotate, hflush]

/-! ## Cutting -/

/-- A place where a log can be cut between two records: a boundary in a segment on disk, or the
beginning of a segment that has no file. -/
def Cuttable (vs : List Volume) (id : UInt64) (offset : Nat) : Prop :=
  (∃ v ∈ vs, v.segment.id = id ∧ offset ≤ v.octets.length ∧ Octets.Whole (v.octets.take offset)) ∨
  (∀ v ∈ vs, v.segment.id ≠ id) ∧ offset = 0

theorem exists_below_above {id : UInt64} (h : (vs.map (·.segment)).Pairwise (·.id < ·.id))
    (hne : ∀ v ∈ vs, v.segment.id ≠ id) :
    ∃ below above, vs = below ++ above ∧ (∀ v ∈ below, v.segment.id < id) ∧
      ∀ v ∈ above, id < v.segment.id := by
  induction vs with
  | nil => exact ⟨[], [], rfl, nofun, nofun⟩
  | cons v vs ih =>
    obtain ⟨hfirst, hrest⟩ := List.pairwise_cons.mp h
    by_cases hlt : v.segment.id < id
    · obtain ⟨below, above, rfl, hbelow, habove⟩ :=
        ih hrest fun w hw => hne w (List.mem_cons_of_mem _ hw)
      exact ⟨v :: below, above, rfl, List.forall_mem_cons.mpr ⟨hlt, hbelow⟩, habove⟩
    · have hgt : id < v.segment.id :=
        UInt64.lt_of_le_of_ne (UInt64.not_lt.mp hlt) (hne v List.mem_cons_self).symm
      refine ⟨[], v :: vs, rfl, nofun, List.forall_mem_cons.mpr ⟨hgt, fun w hw => ?_⟩⟩
      exact UInt64.lt_trans hgt (hfirst _ (List.mem_map_of_mem hw))

def dropped (a : Appender) : Appender := { a with buffer := [], file := none }

theorem refusals_openSegment {folder : String} {s : Segment} {n : Node} {length : Nat} {d' : Disk}
    (h : openSegment d folder s = .ok (n, length, d')) : d'.refusals = d.refusals := by
  unfold Appender.openSegment at h
  split at h
  · cases h
  · rename_i hopen
    cases h
    exact Disk.refusals_openWrite hopen

theorem refusals_start {settings : Settings} {d' : Disk} (h : Appender.start d settings = (.ok a, d')) :
    d'.refusals = d.refusals := by
  have hmade := Disk.refusals_makeFolders d settings.folder
  unfold Appender.start at h
  split at h
  · cases h
  · rename_i hmake
    rw [hmake] at hmade
    split at h
    · cases h
    · split at h
      · cases h
      · rename_i hopen
        cases h
        exact (refusals_openSegment hopen).trans hmade

theorem refusals_removeAbove (d : Disk) (folder : String) (id : UInt64) (segments : List Segment) :
    (removeAbove d folder id segments).2.refusals = d.refusals := by
  induction segments generalizing d with
  | nil => rfl
  | cons s rest ih =>
    rw [removeAbove]
    split
    · split
      · rfl
      · rename_i d' hremove
        exact (ih d').trans (Disk.refusals_remove hremove)
    · exact ih d

theorem refusals_resizeSegment (d : Disk) (folder : String) (s : Segment) (length : Nat) :
    (resizeSegment d folder s length).2.refusals = d.refusals := by
  unfold resizeSegment
  split
  · rfl
  · rename_i hopen
    have hopened := refusals_openSegment hopen
    split
    · exact hopened
    · rename_i hresize
      have hresized := (Disk.refusals_resize hresize).trans hopened
      split <;> exact hresized

theorem refusals_cut (a : Appender) (d : Disk) (id : UInt64) (offset : Nat) :
    (a.cut d id offset).2.2.refusals = d.refusals := by
  unfold Appender.cut
  split
  · rfl
  · dsimp only
    split
    · rfl
    · rename_i segments _
      have hremoved := refusals_removeAbove d a.folder id segments
      split
      · rename_i hrun
        rwa [hrun] at hremoved
      · rename_i d₁ hrun
        rw [hrun] at hremoved
        have hresized := refusals_resizeSegment d₁ a.folder (find segments id) offset
        split
        · rename_i hcut
          rw [hcut] at hresized
          exact hresized.trans hremoved
        · rename_i hcut
          rw [hcut] at hresized
          split
          · exact hresized.trans hremoved
          · rename_i hopen
            exact (refusals_openSegment hopen).trans (hresized.trans hremoved)

/-- Cutting a segment that has no file at its beginning is refused, or creates the file. -/
theorem resizeSegment_vacant {folder : String} {id : UInt64} (h : d.Holds folder vs)
    (hbelow : ∀ v ∈ vs, v.segment.id < id) :
    (∃ e, resizeSegment d folder (Segment.ofId id) 0 = (.error e, d)) ∨
    ∃ body d', resizeSegment d folder (Segment.ofId id) 0 = (.ok (), d') ∧
      Appender.openSegment d' folder (Segment.ofId id) = .ok (.file body, 0, d') ∧
      d'.Holds folder (vs ++ [⟨Segment.ofId id, []⟩]) ∧
      d'.bodyOf? folder (Segment.ofId id) = some body := by
  have hnamed := Segment.named_ofId id
  rcases Disk.openWrite_cases (h.bodyOf?_eq_none hnamed hbelow) with
    ⟨f, hf⟩ | hf | ⟨loc, hl, hsp, hnode, hf⟩
  · exact .inl ⟨.io .openSegment ((Segment.ofId id).path folder) f, by
      simp only [resizeSegment, Appender.openSegment, hf]⟩
  · exact .inl ⟨.io .truncateSegment ((Segment.ofId id).path folder) .invalid, by
      simp only [resizeSegment, Appender.openSegment, hf]
      rfl⟩
  · have hb := Disk.bodyOf?_create_self hl hnode hsp
    have hcreated := h.create hl hnamed hsp hnode hbelow
    have htidy := hcreated.tidy d.nextBody
    generalize d.create (loc.enter (Segment.ofId id).name) = made at hf hb hcreated htidy
    have hset := hcreated.setBody hb ((made.bodies d.nextBody).resize 0)
    rw [Body.octets_resize, List.take_zero, Nat.zero_sub, List.replicate_zero] at hset
    have hsize : (made.setBody d.nextBody ((made.bodies d.nextBody).resize 0)).size
        (.file d.nextBody) = 0 := by
      rw [Disk.size, Disk.bodies_setBody_self, Body.length_resize]
    have hb' : (made.setBody d.nextBody ((made.bodies d.nextBody).resize 0)).bodyOf? folder
        (Segment.ofId id) = some d.nextBody := by
      simpa using hb
    refine .inr ⟨d.nextBody, _, ?_, ?_, hset, hb'⟩
    · simp only [resizeSegment, Appender.openSegment, hf, Disk.resize, htidy.resizing, Nat.zero_le,
        if_true, Disk.sync, Disk.refusals_setBody, htidy.syncing]
    · rw [Appender.openSegment, Disk.openWrite_of_bodyOf? hset.tidy hb']
      simp only [hsize]

/-- A cut at a segment that has no file removes the segments above. Then it is refused, or the segment
is created and appending goes on in it. -/
theorem cut_vacant {id : UInt64} {below above : List Volume}
    (h : d.Holds a.folder (below ++ above)) (hbelow : ∀ v ∈ below, v.segment.id < id)
    (habove : ∀ v ∈ above, id < v.segment.id) (hopen : a.closed = false) :
    (∃ n d', a.cut d id 0 = (.ok (), a.moveTo (Segment.ofId id) n 0, d') ∧
      Tracks (a.moveTo (Segment.ofId id) n 0) d' (below ++ [⟨Segment.ofId id, []⟩])) ∨
    ∃ e d', a.cut d id 0 = (.error e, a.dropped, d') ∧ d'.Holds a.folder below := by
  obtain ⟨loc, hl⟩ := h.located
  have hlist := h.list
  obtain ⟨d₁, hremove, hholds, -, -, -, -⟩ := removeAbove_back h hl habove
  have hrun : removeAbove d a.folder id ((below ++ above).map (·.segment)) = (.ok (), d₁) := by
    rw [List.map_append, removeAbove_append _ ?_, hremove]
    intro s hs
    obtain ⟨v, hv, rfl⟩ := List.mem_map.mp hs
    exact UInt64.lt_asymm (hbelow v hv)
  have hfind : find ((below ++ above).map (·.segment)) id = Segment.ofId id := by
    have hnone : ((below ++ above).map (·.segment)).filter (·.id = id) = [] := by
      rw [List.filter_eq_nil_iff]
      intro s hs he
      obtain ⟨v, hv, rfl⟩ := List.mem_map.mp hs
      have hid : v.segment.id = id := of_decide_eq_true he
      rcases List.mem_append.mp hv with hv | hv
      · exact UInt64.lt_irrefl _ (hid ▸ hbelow v hv)
      · exact UInt64.lt_irrefl _ (hid ▸ habove v hv)
    rw [find, hnone]
    rfl
  rcases resizeSegment_vacant hholds hbelow with
    ⟨e, hresize⟩ | ⟨body, d', hresize, hagain, hcreated, hb⟩
  · refine .inr ⟨e, d₁, ?_, hholds⟩
    simp only [Appender.cut, hopen, Bool.false_eq_true, if_false, hlist, hrun, hfind, hresize,
      dropped]
  · refine .inl ⟨.file body, d', ?_, .on ⟨hcreated, rfl, fun n hn => ?_⟩⟩
    · simp only [Appender.cut, hopen, Bool.false_eq_true, if_false, hlist, hrun, hfind, hresize,
        hagain, moveTo]
    · exact ⟨body, (Option.some.inj hn).symm, hb⟩

end Appender

end SegmentLog
