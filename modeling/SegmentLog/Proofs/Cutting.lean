import SegmentLog.Proofs.Rotation

/-!
What a cut leaves, and what is written behind it. A log that is cut at an offset of a segment keeps
the segments before that one as they are and the first octets of that one, under the name that it
has; nothing else is touched, what is buffered is dropped, and the appender goes on at the cut
(`Appender.cut_spec`). If the cut is made between two records, what is written from then on is read
behind the records before it. As long as nothing is refused it fills one segment after the other
(`Volume.fill`): whether the active segment has a file or is still to get one, it and the buffer
together are the last of these (`Appender.Spans`), and each event adds what it gains
(`Writing.Spans.step`).
-/

namespace SegmentLog

/-- The volumes that `v` grows to by some records under a limit. A record that would make a volume
longer than the limit goes to a new one with the next number; an empty volume takes any record. -/
def Volume.fill (limit : Nat) (v : Volume) : List Record → List Volume
  | [] => [v]
  | r :: rest =>
    if v.octets = [] ∨ v.octets.length + r.form.length ≤ limit then
      fill limit ⟨v.segment, v.octets ++ r.form⟩ rest
    else v :: fill limit ⟨Segment.ofId (v.segment.id + 1), r.form⟩ rest

namespace Appender

variable {a : Appender} {d : Disk} {front : List Volume} {v : Volume} {bs : Octets}

/-! ## The last segment with the buffer -/

/-- Where the buffer is counted with the active segment, this is the last volume of the folder, and
the others are `front`. -/
inductive Spans (a : Appender) (d : Disk) (front : List Volume) : Volume → Prop
  | on {settled : Octets} (h : OnFile a d front settled) :
    Spans a d front ⟨a.active, settled ++ a.buffer⟩
  | off (h : OffFile a d front) (hne : a.buffer ≠ []) : Spans a d front ⟨a.active, a.buffer⟩

theorem Spans.segment (h : Spans a d front v) : v.segment = a.active := by
  cases h with
  | on h => rfl
  | off h hne => rfl

theorem Spans.length (h : Spans a d front v) : v.octets.length = a.offset := by
  cases h with
  | on h => exact List.length_append.trans h.offset
  | off h hne => exact h.offset

theorem Spans.holding (h : Spans a d front v) (bs : Octets) :
    Spans (a.holding bs) d front ⟨v.segment, v.octets ++ bs⟩ := by
  cases h with
  | on h =>
    rw [List.append_assoc]
    exact .on (h.holding bs)
  | off h hne => exact .off (h.holding bs) (List.append_ne_nil_of_left_ne_nil hne bs)

theorem Spans.skips {d' : Disk} (h : Spans a d front v) (hd : Disk.Skips a.folder d d') :
    Spans a d' front v := by
  cases h with
  | on h => exact .on (h.skips hd)
  | off h hne => exact .off (h.skips hd) hne

theorem spans_of_onFile {b : Appender} (h : OnFile b d front v.octets) (hactive : b.active = v.segment)
    (hnil : b.buffer = []) : Spans b d front v := by
  have hv : v = ⟨b.active, v.octets ++ b.buffer⟩ := by
    rw [hactive, hnil, List.append_nil]
  rw [hv]
  exact .on h

/-- A granted flush brings the last volume to the disk, and a refused one leaves it in the buffer. -/
theorem Spans.flush (h : Spans a d front v) :
    (∃ f d', a.flush d = (.ok (), { a with file := f, buffer := [] }, d') ∧
      OnFile { a with file := f, buffer := [] } d' front v.octets) ∨
    (∃ e d', a.flush d = (.error e, { a with file := none }, d') ∧
      Spans { a with file := none } d' front v) := by
  cases h with
  | on h =>
    rcases h.flush with ⟨f, d', hflush, hon, -⟩ | ⟨e, d', hflush, hon, -, -⟩
    · exact .inl ⟨f, d', hflush, hon⟩
    · exact .inr ⟨e, d', hflush, .on hon⟩
  | off h hne =>
    rcases h.flush hne with ⟨f, d', hflush, hon, -⟩ | ⟨e, d', hflush, rfl | hon, -, -⟩
    · exact .inl ⟨f, d', hflush, hon⟩
    · have hgone : OffFile { a with file := none } d' front :=
        ⟨h.holds, h.above, h.active, h.offset, nofun⟩
      exact .inr ⟨e, d', hflush, .off hgone hne⟩
    · exact .inr ⟨e, d', hflush, .on hon⟩

theorem Spans.flushed (h : Spans a d front v) :
    Spans (a.flush d).2.1 (a.flush d).2.2 front v ∧ SameTerms a (a.flush d).2.1 := by
  rcases h.flush with ⟨f, d', hflush, hon⟩ | ⟨e, d', hflush, hspans⟩
  · rw [hflush]
    exact ⟨spans_of_onFile hon h.segment.symm rfl, ⟨rfl, rfl, rfl, rfl, rfl⟩⟩
  · rw [hflush]
    exact ⟨hspans, ⟨rfl, rfl, rfl, rfl, rfl⟩⟩

theorem Spans.volumes_of_flush (h : Spans a d front v) (hok : (a.flush d).1 = .ok ()) :
    (a.flush d).2.2.volumes a.folder = front ++ [v] := by
  rcases h.flush with ⟨f, d', hflush, hon⟩ | ⟨e, d', hflush, -⟩
  · rw [hflush]
    have hv : v = ⟨a.active, v.octets⟩ := by rw [← h.segment]
    rw [hv]
    exact hon.holds.volumes_eq
  · rw [hflush] at hok
    cases hok

/-! ## Adding records -/

theorem Spans.enqueue {force : Bool} (h : Spans (a.holding bs) d front v)
    (hok : (a.enqueue d bs force).1 = .ok ()) :
    ∃ b d', a.enqueue d bs force = (.ok (), b, d') ∧ Spans b d' front v ∧ SameTerms a b := by
  by_cases hflushes : (a.holding bs).Flushes force
  · rcases h.flush with ⟨f, d', hflush, hon⟩ | ⟨e, d', hflush, -⟩
    · refine ⟨_, d', enqueue_of_flush hflushes hflush, ?_, ⟨rfl, rfl, rfl, rfl, rfl⟩⟩
      exact spans_of_onFile hon h.segment.symm rfl
    · rw [enqueue_of_refused hflushes hflush] at hok
      cases hok
  · exact ⟨_, d, enqueue_of_buffer hflushes, h, ⟨rfl, rfl, rfl, rfl, rfl⟩⟩

/-- A granted rotation brings the last volume to the disk, and what is added then begins the next. -/
theorem Spans.rotate (h : Spans a d front v) (hw : ¬ (a.rotate d).2.1.active.id < a.active.id)
    (hok : (a.rotate d).1 = .ok ()) (hne : bs ≠ []) :
    ∃ b d', a.rotate d = (.ok (), b, d') ∧ SameTerms a b ∧
      Spans (b.holding bs) d' (front ++ [v]) ⟨Segment.ofId (v.segment.id + 1), bs⟩ := by
  rcases h.flush with ⟨f, d₁, hflush, hon⟩ | ⟨e, d', hflush, -⟩
  · cases hopen : openSegment d₁ a.folder (Segment.ofId (a.active.id + 1)) with
    | error e =>
      simp [Appender.rotate, hflush, hopen] at hok
    | ok opened =>
      obtain ⟨n, length, d'⟩ := opened
      have hrotate : a.rotate d =
          (.ok (), a.moveTo (Segment.ofId (a.active.id + 1)) n length, d') := by
        simp only [Appender.rotate, hflush, hopen, moveTo]
      have hlt : a.active.id < a.active.id + 1 := by
        rw [hrotate] at hw
        exact lt_succ_of_not_lt hw
      have hv : v = ⟨a.active, v.octets⟩ := by rw [← h.segment]
      have hholds : d₁.Holds a.folder (front ++ [v]) := by
        rw [hv]
        exact hon.holds
      have habove : ∀ u ∈ front ++ [v], u.segment.id < a.active.id + 1 := by
        intro u hu
        rw [hv] at hu
        exact UInt64.lt_of_le_of_lt ((Tracks.on hon).id_le hu) hlt
      refine ⟨_, d', hrotate, ⟨rfl, rfl, rfl, rfl, rfl⟩, ?_⟩
      rw [h.segment]
      rcases (openSegment_behind hholds habove hopen).1 with hoff | hon'
      · exact .off (hoff.holding bs) hne
      · exact .on (hon'.holding bs)
  · simp [Appender.rotate, hflush] at hok

theorem append_of_granted {r : Record} {force : Bool} (hok : (a.append d r force).1.isOk) :
    ∃ b d₁ c d', a.makeRoom d r.form.length = (.ok (), b, d₁) ∧
      b.enqueue d₁ r.form force = (.ok (), c, d') ∧
      a.append d r force = (.ok r.sequence, c, d') := by
  obtain ⟨hr, hopen⟩ := Writing.fits_of_granted hok
  simp only [Appender.append, Record.encode_of_fits hr, hopen, Bool.false_eq_true, if_false] at hok ⊢
  rcases hroom : a.makeRoom d r.form.length with ⟨e | _, b, d₁⟩
  · rw [hroom] at hok
    cases hok
  · rcases henqueue : b.enqueue d₁ r.form force with ⟨e | _, c, d'⟩
    · simp only [hroom, henqueue] at hok
      cases hok
    · exact ⟨b, d₁, c, d', rfl, henqueue, by simp only [henqueue]⟩

/-- A granted append adds its record as `Volume.fill` says. -/
theorem Spans.append (h : Spans a d front v) {r : Record} {force : Bool}
    (hw : ¬ (a.append d r force).2.1.active.id < a.active.id)
    (hok : (a.append d r force).1.isOk) :
    ∃ b d' front' v', a.append d r force = (.ok r.sequence, b, d') ∧ Spans b d' front' v' ∧
      SameTerms a b ∧
      ∀ rs, front ++ v.fill a.segmentLimit (r :: rs) = front' ++ v'.fill a.segmentLimit rs := by
  obtain ⟨b, d₁, c, d', hroom, henqueue, happend⟩ := append_of_granted hok
  have hlength := h.length
  cases hover : a.overflows r.form.length with
  | false =>
    rw [Appender.makeRoom, hover, if_neg Bool.false_ne_true] at hroom
    cases hroom
    obtain ⟨_, _, htaken, hspans, hterms⟩ := (h.holding r.form).enqueue (by rw [henqueue])
    cases henqueue.symm.trans htaken
    refine ⟨c, d', front, _, happend, hspans, hterms, fun rs => ?_⟩
    have hfits : v.octets = [] ∨ v.octets.length + r.form.length ≤ a.segmentLimit := by
      rcases overflows_eq_false_iff.mp hover with hzero | hfit
      · exact .inl (List.eq_nil_of_length_eq_zero (by omega))
      · exact .inr (by omega)
    rw [Volume.fill, if_pos hfits]
  | true =>
    obtain ⟨hr, hopen⟩ := Writing.fits_of_granted hok
    rw [append_active_eq hr hopen, hroom] at hw
    rw [Appender.makeRoom, hover, if_pos rfl] at hroom
    rw [← hroom] at hw
    obtain ⟨_, _, hrotated, hterms, hspans⟩ := h.rotate hw (by rw [hroom]) r.form_ne_nil
    cases hroom.symm.trans hrotated
    obtain ⟨_, _, htaken, hspans', hterms'⟩ := hspans.enqueue (by rw [henqueue])
    cases henqueue.symm.trans htaken
    refine ⟨c, d', _, _, happend, hspans', hterms.trans hterms', fun rs => ?_⟩
    have hlate : ¬ (v.octets = [] ∨ v.octets.length + r.form.length ≤ a.segmentLimit) := by
      rintro (hnil | hfit)
      · rw [overflows_eq_false_iff.mpr (.inl (by rw [← hlength, hnil]; rfl))] at hover
        cases hover
      · rw [overflows_eq_false_iff.mpr (.inr (by omega))] at hover
        cases hover
    rw [Volume.fill, if_neg hlate, List.append_assoc]
    rfl

end Appender

namespace Writing

variable {w : Writing} {front : List Volume} {v : Volume}

/-! ## What happens behind a cut -/

/-- No record that can be encoded is refused, and the appender is neither cut nor closed. -/
def Smooth (w : Writing) : Event → Prop
  | .append r force => r.Fits → (w.appender.append w.disk r force).1.isOk
  | .flush | .tick | .disturb _ => True
  | .cut _ _ | .close => False

theorem spans_step (h : w.appender.Spans w.disk front v) {e : Event} (ha : w.Allowed e)
    (hs : w.Smooth e) :
    ∃ front' v', (w.step e).appender.Spans (w.step e).disk front' v' ∧
      w.appender.SameTerms (w.step e).appender ∧
      ∀ rs, front ++ v.fill w.appender.segmentLimit (w.gained e ++ rs) =
        front' ++ v'.fill w.appender.segmentLimit rs := by
  cases e with
  | append r force =>
    by_cases hr : r.Fits
    · have hok := hs hr
      obtain ⟨b, d', front', v', happend, hspans, hterms, hfill⟩ := h.append ha hok
      have hgained : w.gained (.append r force) = [r] := if_pos hok
      have hstep : w.step (.append r force) = ⟨b, d'⟩ := by simp only [Writing.step, happend]
      rw [hstep, hgained]
      exact ⟨front', v', hspans, hterms, hfill⟩
    · have hunfit : ∃ e, w.appender.append w.disk r force = (.error e, w.appender, w.disk) :=
        append_of_unfit (.inl hr)
      obtain ⟨e, happend⟩ := hunfit
      have hgained : w.gained (.append r force) = [] := by
        simp [gained, happend, Except.isOk, Except.toBool]
      have hstep : w.step (.append r force) = w := by simp only [Writing.step, happend]
      rw [hstep, hgained]
      exact ⟨front, v, h, Appender.SameTerms.refl _, fun _ => rfl⟩
  | flush => exact ⟨front, v, h.flushed.1, h.flushed.2, fun _ => rfl⟩
  | tick =>
    simp only [Writing.step, Appender.tick]
    split
    · exact ⟨front, v, h, Appender.SameTerms.refl _, fun _ => rfl⟩
    · exact ⟨front, v, h.flushed.1, h.flushed.2, fun _ => rfl⟩
  | cut id offset => exact hs.elim
  | close => exact hs.elim
  | disturb d =>
    exact ⟨front, v, h.skips (Disk.Spares.skips ha), Appender.SameTerms.refl _, fun _ => rfl⟩

/-- Along a run the last volume grows and is followed by others, as `Volume.fill` says of all that is
gained. -/
theorem spans_run (h : w.appender.Spans w.disk front v) {es : List Event} (ha : w.Along Allowed es)
    (hs : w.Along Smooth es) :
    ∃ front' v', (w.run es).appender.Spans (w.run es).disk front' v' ∧
      w.appender.SameTerms (w.run es).appender ∧
      front ++ v.fill w.appender.segmentLimit (w.gains es) = front' ++ [v'] := by
  induction es generalizing w front v with
  | nil => exact ⟨front, v, h, Appender.SameTerms.refl _, rfl⟩
  | cons e es ih =>
    obtain ⟨front', v', hspans, hterms, hfill⟩ := spans_step h ha.1 hs.1
    obtain ⟨front'', v'', hlast, hterms', hrest⟩ := ih hspans ha.2 hs.2
    refine ⟨front'', v'', hlast, hterms.trans hterms', ?_⟩
    rw [gains, hfill, ← hterms.segmentLimit]
    exact hrest

/-! ## The cut -/

theorem filter_lt_of_ascending {back : List Volume}
    (h : ((front ++ v :: back).map (·.segment)).Pairwise (·.id < ·.id)) :
    (front ++ v :: back).filter (·.segment.id < v.segment.id) = front := by
  rw [List.map_append, List.map_cons, List.pairwise_append, List.pairwise_cons] at h
  obtain ⟨-, ⟨hback, -⟩, hfront⟩ := h
  rw [List.filter_append, List.filter_eq_self.mpr, List.filter_eq_nil_iff.mpr, List.append_nil]
  · intro u hu hlt
    rcases List.mem_cons.mp hu with rfl | hu
    · exact UInt64.lt_irrefl _ (of_decide_eq_true hlt)
    · exact UInt64.lt_asymm (of_decide_eq_true hlt) (hback _ (List.mem_map_of_mem hu))
  · intro u hu
    exact decide_eq_true (hfront _ (List.mem_map_of_mem hu) _ (by simp))

/-- An appender that goes on at the end of intact volumes. What is gained is read behind what they
hold once the buffer is flushed, whatever was refused on the way; as long as nothing is, the volumes
are filled one after the other. -/
theorem log_behind {folder : String} (hplace : w.appender.folder = folder)
    (hon : w.appender.OnFile w.disk front v.octets) (hactive : w.appender.active = v.segment)
    (hnil : w.appender.buffer = []) (hi : Intact (front ++ [v])) {es : List Event}
    (huncut : ∀ e ∈ es, Uncut e) (ha : w.Along Allowed es)
    (hok : ((w.run es).appender.flush (w.run es).disk).1 = .ok ()) :
    Log.recordsOf ((w.run es).step .flush).disk folder =
        .ok (recordsIn (front ++ [v]) ++ w.gains es) ∧
      (w.Along Smooth es → ((w.run es).step .flush).disk.volumes folder =
        front ++ v.fill w.appender.segmentLimit (w.gains es)) := by
  constructor
  · have hv : v = ⟨w.appender.active, v.octets⟩ := by rw [hactive]
    have hstands : w.Stands folder ⟨front ++ [v], []⟩ (front ++ [v]) [] := by
      refine ⟨hplace, ?_, ?_, .same, ?_⟩
      · rw [hv]
        exact .on hon
      · rw [hnil]
        exact Octets.whole_nil
      · rw [hnil]
        exact Octets.records_nil
    obtain ⟨ws, S, hlast⟩ := hstands.run ha
    have hempty := hlast.buffer_of_flush hok
    obtain ⟨us, T, hflushed, -⟩ := hlast.step (e := .flush) trivial
    rw [progress_of_uncut huncut] at hflushed
    obtain ⟨hread, hrecords⟩ := hflushed.log hi
    rw [hempty, Octets.records_nil, List.append_nil] at hrecords
    rw [hread, hrecords]
    rfl
  · intro hs
    obtain ⟨front', v', hspans, hterms, hfill⟩ :=
      spans_run (Appender.spans_of_onFile hon hactive hnil) ha hs
    rw [hfill, ← hplace, ← hterms.folder]
    exact hspans.volumes_of_flush hok

/-- A cut of an open appender at a place on disk is granted, whatever is in its buffer. The segments
before the place stay, the one that it is in keeps its name and first octets, those behind it are
gone, and nothing else is touched; the buffer is empty. If whole records are left, the log is read
after any later flush that is granted as these and the records of the appends granted since. Unless
one was refused that could be encoded, they fill the segment that was cut and then the next ones. -/
theorem cut_exactly {vs : List Volume} {offset : Nat}
    (h : w.disk.Holds w.appender.folder vs) (hopen : w.appender.closed = false) (hv : v ∈ vs)
    (ho : offset ≤ v.octets.length) :
    let folder := w.appender.folder
    let before := vs.filter (·.segment.id < v.segment.id)
    let last : Volume := ⟨v.segment, v.octets.take offset⟩
    let cut := w.step (.cut v.segment.id offset)
    (w.appender.cut w.disk v.segment.id offset).1 = .ok () ∧
    cut.disk.Holds folder (before ++ [last]) ∧
    (∀ loc l, w.disk.locate folder = .ok loc →
      (∀ u ∈ vs, v.segment.id ≤ u.segment.id → l ≠ loc.enter u.segment.name) →
        w.disk.Untouched cut.disk l) ∧
    (∃ n, cut.appender =
      { w.appender with active := v.segment, file := n, offset := offset, buffer := [] }) ∧
    (Intact (before ++ [last]) → ∀ es, (∀ e ∈ es, Uncut e) → cut.Along Allowed es →
      let after := cut.run es
      (after.appender.flush after.disk).1 = .ok () →
        Log.recordsOf (after.step .flush).disk folder =
          .ok (recordsIn (before ++ [last]) ++ cut.gains es) ∧
        (cut.Along Smooth es → (after.step .flush).disk.volumes folder =
          before ++ last.fill w.appender.segmentLimit (cut.gains es))) := by
  intro folder before last cut
  obtain ⟨front, back, rfl⟩ := List.append_of_mem hv
  obtain ⟨loc, hl⟩ := h.located
  obtain ⟨body, d, hcut, hholds, hbody, -, -, huntouched⟩ := Appender.cut_spec h hl hopen ho
  have hasc := h.ascending
  have hbefore : before = front := filter_lt_of_ascending hasc
  have hstep : cut = ⟨w.appender.moveTo v.segment (.file body) offset, d⟩ := by
    simp only [cut, step, hcut]
  have hlength : (v.octets.take offset).length = offset := by
    rw [List.length_take, Nat.min_eq_left ho]
  refine ⟨by rw [hcut], ?_, ?_, ⟨some (.file body), by rw [hstep]; rfl⟩, ?_⟩
  · rw [hstep, hbefore]
    exact hholds
  · intro loc' l hl' hne
    obtain rfl : loc = loc' := Except.ok.inj (hl.symm.trans hl')
    rw [List.map_append, List.map_cons, List.pairwise_append, List.pairwise_cons] at hasc
    rw [hstep]
    apply huntouched
    intro u hu
    apply hne u (List.mem_append_right _ hu)
    rcases List.mem_cons.mp hu with rfl | hu
    · exact UInt64.le_refl _
    · exact UInt64.le_of_lt (hasc.2.1.1 _ (List.mem_map_of_mem hu))
  · intro hintact es huncut ha after hok
    have hon : cut.appender.OnFile cut.disk before last.octets := by
      rw [hstep, hbefore]
      exact Appender.onFile_moveTo hholds hbody hlength
    have hlimit : cut.appender.segmentLimit = w.appender.segmentLimit := by rw [hstep]; rfl
    rw [← hlimit]
    apply log_behind _ hon _ _ hintact huncut ha hok
    all_goals rw [hstep]; rfl

def shortName : Disk where
  nodes := [((Location.top.enter "wal").enter "7.wal", .file 0),
    ((Location.top.enter "wal").enter "00000000000000000008.wal", .file 1),
    (Location.top.enter "wal", .folder)]
  bodies := fun body =>
    if body = 0 then .ofOctets ((Record.write 1 0 [1] []).form ++ (Record.write 2 0 [2] []).form)
    else if body = 1 then .ofOctets (Record.write 3 0 [3] []).form
    else {}
  nextBody := 2

/-- An appender over them that has begun a third segment, with a record in its buffer. -/
def inThird : Writing :=
  step ⟨(Appender.blank brief).moveTo (Segment.ofId 8) (.file 1) 27, shortName⟩
    (.append (Record.write 4 0 [4] []) false)

def threeVolumes : List Volume :=
  [⟨⟨7, "7.wal"⟩, (Record.write 1 0 [1] []).form ++ (Record.write 2 0 [2] []).form⟩,
    ⟨Segment.ofId 8, (Record.write 3 0 [3] []).form⟩, ⟨Segment.ofId 9, []⟩]

theorem cut_exactly_inThird :
    let v : Volume :=
      ⟨⟨7, "7.wal"⟩, (Record.write 1 0 [1] []).form ++ (Record.write 2 0 [2] []).form⟩
    let left : Volume := ⟨⟨7, "7.wal"⟩, (Record.write 1 0 [1] []).form⟩
    let cut := inThird.step (.cut 7 27)
    let later : List Event := [.append (Record.write 5 0 [] []) false, .tick,
      .append (Record.write 6 0 [6] []) false]
    let after := cut.run later
    (inThird.disk.Holds inThird.appender.folder threeVolumes ∧ inThird.appender.closed = false ∧
      inThird.appender.buffer ≠ [] ∧ v ∈ threeVolumes ∧ 27 ≤ v.octets.length ∧ Intact [left] ∧
      (∀ e ∈ later, Uncut e) ∧ cut.Along Allowed later ∧ cut.Along Smooth later ∧
      (after.appender.flush after.disk).1 = .ok ()) ∧
    (inThird.appender.cut inThird.disk 7 27).1 = .ok () ∧
    cut.disk.Holds "wal" [left] ∧
    Log.recordsOf (after.step .flush).disk "wal" =
      .ok [Record.write 1 0 [1] [], Record.write 5 0 [] [], Record.write 6 0 [6] []] ∧
    (after.step .flush).disk.volumes "wal" =
      [left, ⟨Segment.ofId 8, (Record.write 5 0 [] []).form⟩,
        ⟨Segment.ofId 9, (Record.write 6 0 [6] []).form⟩] := by
  intro v left cut later after
  have hsound : inThird.disk.Sound :=
    ⟨by decide +kernel, by decide +kernel, by decide +kernel, by decide +kernel⟩
  have hvolumes : inThird.disk.volumes "wal" = threeVolumes := by decide +kernel
  have hholds : inThird.disk.Holds inThird.appender.folder threeVolumes := by
    rw [← hvolumes]
    exact Disk.holds_volumes hsound (fun _ => Refusals.tidy_none) (by decide)
      ⟨Location.top.enter "wal", by decide +kernel⟩ (by decide +kernel)
  have hv : v ∈ threeVolumes := List.mem_cons_self
  have hoffset : 27 ≤ v.octets.length := by decide +kernel
  have hopen : inThird.appender.closed = false := by decide +kernel
  have hbuffer : inThird.appender.buffer ≠ [] := by decide +kernel
  have hfits : (Record.write 1 0 [1] []).Fits := by decide
  have hintact : Intact [left] := intact_singleton.mpr (Octets.whole_form hfits)
  have huncut : ∀ e ∈ later, Uncut e := by simp [later, Uncut]
  have ha : cut.Along Allowed later := by
    simp only [later, Along.cons, Along.nil, Allowed]
    decide +kernel
  have hs : cut.Along Smooth later := by
    simp only [later, Along.cons, Along.nil, Smooth]
    decide +kernel
  have hok : (after.appender.flush after.disk).1 = .ok () := by decide +kernel
  obtain ⟨hcut, hleft, -, -, hlater⟩ := cut_exactly hholds hopen hv hoffset
  have hbefore : threeVolumes.filter (·.segment.id < v.segment.id) = [] := by decide +kernel
  have htake : v.octets.take 27 = left.octets := by decide +kernel
  rw [hbefore, htake] at hleft hlater
  obtain ⟨hread, hfilled⟩ := hlater hintact later huncut ha hok
  refine ⟨⟨hholds, hopen, hbuffer, hv, hoffset, hintact, huncut, ha, hs, hok⟩, hcut, hleft, ?_, ?_⟩
  · refine hread.trans ?_
    decide +kernel
  · refine (hfilled hs).trans ?_
    decide +kernel

end Writing

end SegmentLog
