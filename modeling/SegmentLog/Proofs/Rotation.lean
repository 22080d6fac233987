import SegmentLog.Proofs.Adrift

/-!
The law of rotation. An appender that began in an empty folder, and in whose way nothing stands, is
used and opened again with the same limit as often as one likes. Its segments are then numbered from
1 on, the active one last, and each is a row of whole records (`Rotated`). None is longer than the
limit unless it is one record, and none was left as long as the next record had room in it. One
append either grows the last segment (`Rotated.grow`) or begins a new one that holds its record
(`Rotated.next`); all else only moves octets from the buffer to the disk, so that the segments, the
buffer counted with the active one, stay what they are (`Writing.Turns`).
-/

namespace SegmentLog

/-! ## Rotated volumes -/

/-- The record that begins one volume would have grown another past the limit. -/
def Volume.NoRoomFor (limit : Nat) (v w : Volume) : Prop :=
  ∀ r ∈ w.octets.records.head?, limit < v.octets.length + r.encodedLength

/-- Volumes as rotation leaves them under a limit. -/
structure Rotated (limit : Nat) (vs : List Volume) : Prop where
  numbered : vs.map (·.segment.id.toNat) = List.range' 1 vs.length
  whole : Intact vs
  sized : ∀ v ∈ vs, v.octets.length ≤ limit ∨ ∃ r, v.octets.records = [r]
  /-- A segment without octets is the only one. -/
  filled : ∀ v ∈ vs, v.octets = [] → vs = [v]
  late : vs.IsChain (Volume.NoRoomFor limit)

theorem toNat_succ_of_lt {n : UInt64} (h : n < n + 1) : (n + 1).toNat = n.toNat + 1 := by
  have hbound := n.toNat_lt
  rw [UInt64.lt_iff_toNat_lt, UInt64.toNat_add] at h
  rw [UInt64.toNat_add]
  simp only [UInt64.toNat_one] at h ⊢
  omega

theorem Octets.Whole.records_ne_nil {bs : Octets} (h : bs.Whole) (hne : bs ≠ []) :
    bs.records ≠ [] := by
  intro hnil
  apply hne
  rw [h.eq_row, hnil]
  rfl

namespace Rotated

variable {limit : Nat} {front : List Volume} {s : Segment} {bs : Octets} {r : Record}

theorem first (limit : Nat) : Rotated limit [⟨Segment.ofId Segment.firstId, []⟩] where
  numbered := rfl
  whole := intact_singleton.mpr Octets.whole_nil
  sized := by simp
  filled := by simp
  late := List.isChain_singleton _

theorem front_of_nil (h : Rotated limit (front ++ [⟨s, []⟩])) : front = [] := by
  have hone := congrArg List.length (h.filled ⟨s, []⟩ (by simp) rfl)
  apply List.eq_nil_of_length_eq_zero
  simpa using hone

/-- A record that fits, or finds an empty segment, grows the last segment. -/
theorem grow (h : Rotated limit (front ++ [⟨s, bs⟩])) (hr : r.Fits)
    (hfit : bs = [] ∨ bs.length + r.form.length ≤ limit) :
    Rotated limit (front ++ [⟨s, bs ++ r.form⟩]) := by
  have hwhole := intact_append.mp h.whole
  have hbs : bs.Whole := intact_singleton.mp hwhole.2
  have hchain := List.isChain_append.mp h.late
  constructor
  · simpa using h.numbered
  · rw [intact_append, intact_singleton]
    exact ⟨hwhole.1, hbs.append (Octets.whole_form hr)⟩
  · intro v hv
    rcases List.mem_append.mp hv with hv | hv
    · exact h.sized v (List.mem_append_left _ hv)
    · obtain rfl := List.mem_singleton.mp hv
      rcases hfit with rfl | hfit
      · exact .inr ⟨r, Octets.records_form hr⟩
      · left
        rw [List.length_append]
        exact hfit
  · intro v hv hnil
    rcases List.mem_append.mp hv with hv | hv
    · -- an empty one in front was alone, and is not
      have hone := congrArg List.length (h.filled v (List.mem_append_left _ hv) hnil)
      have hpos := List.length_pos_of_mem hv
      rw [List.length_append] at hone
      simp only [List.length_singleton] at hone
      omega
    · obtain rfl := List.mem_singleton.mp hv
      exact absurd (List.append_eq_nil_iff.mp hnil).2 r.form_ne_nil
  · apply List.isChain_append.mpr
    refine ⟨hchain.1, List.isChain_singleton _, ?_⟩
    intro v hv w hw
    obtain rfl : ⟨s, bs ++ r.form⟩ = w := Option.some.inj hw
    by_cases hnil : bs = []
    · subst hnil
      rw [h.front_of_nil] at hv
      cases hv
    · -- the first record of the segment is the one that it was
      have hlate := hchain.2.2 v hv ⟨s, bs⟩ rfl
      have hhead : Octets.records (bs ++ r.form) = bs.records ++ [r] := by
        rw [Octets.records_append hbs, Octets.records_form hr]
      intro r' hr'
      apply hlate r'
      have hne := hbs.records_ne_nil hnil
      rw [hhead] at hr'
      cases hrecords : bs.records with
      | nil => exact absurd hrecords hne
      | cons first rest =>
        rw [hrecords] at hr'
        exact hr'

/-- A record for which there is no room in the last segment begins the next one. -/
theorem next {v : Volume} {id : UInt64} (h : Rotated limit (front ++ [v])) (hr : r.Fits)
    (hne : v.octets ≠ []) (hlate : limit < v.octets.length + r.form.length)
    (hid : id.toNat = front.length + 2) :
    Rotated limit (front ++ [v] ++ [⟨Segment.ofId id, r.form⟩]) := by
  constructor
  · have hlength : (front ++ [v]).length = front.length + 1 := List.length_append
    have hlast : [(⟨Segment.ofId id, r.form⟩ : Volume)].map (·.segment.id.toNat) =
        [1 + (front ++ [v]).length] := by
      show [id.toNat] = [1 + (front ++ [v]).length]
      rw [List.singleton_inj]
      omega
    have hmore : (front ++ [v] ++ [(⟨Segment.ofId id, r.form⟩ : Volume)]).length =
        (front ++ [v]).length + 1 := List.length_append
    rw [List.map_append, h.numbered, hlast, hmore, List.range'_1_concat]
  · rw [intact_append, intact_singleton]
    exact ⟨h.whole, Octets.whole_form hr⟩
  · intro w hw
    rcases List.mem_append.mp hw with hw | hw
    · exact h.sized w hw
    · rw [List.mem_singleton.mp hw]
      exact .inr ⟨r, Octets.records_form hr⟩
  · intro w hw hnil
    rcases List.mem_append.mp hw with hw | hw
    · have hone : front ++ [v] = [] ++ [w] := h.filled w hw hnil
      obtain ⟨-, hv⟩ := List.append_inj' hone rfl
      rw [List.singleton_inj.mp hv] at hne
      exact absurd hnil hne
    · rw [List.mem_singleton.mp hw] at hnil
      exact absurd hnil r.form_ne_nil
  · apply List.isChain_append.mpr
    refine ⟨h.late, List.isChain_singleton _, ?_⟩
    intro w hw u hu r' hr'
    obtain rfl : v = w := by simpa using hw
    obtain rfl : ⟨Segment.ofId id, r.form⟩ = u := Option.some.inj hu
    rw [Octets.records_form hr] at hr'
    obtain rfl : r = r' := Option.some.inj hr'
    rw [← Record.length_form]
    exact hlate

end Rotated

/-! ## Where nothing stands in the way -/

namespace Appender

variable {a : Appender} {d : Disk} {vs front : List Volume} {settled : Octets}

theorem openSegment_of_clear (h : d.Holds a.folder vs) (hc : d.Clear a.folder) (hw : d.Willing)
    {id : UInt64} (habove : ∀ v ∈ vs, v.segment.id < id) :
    ∃ body d', openSegment d a.folder (Segment.ofId id) = .ok (.file body, 0, d') ∧
      OnFile (a.moveTo (Segment.ofId id) (.file body) 0) d' vs [] ∧
      Ready (a.moveTo (Segment.ofId id) (.file body) 0) d' := by
  have hnamed := Segment.named_ofId id
  have hnone := h.bodyOf?_eq_none hnamed habove
  obtain ⟨loc, hl, hsp, hnode, hwrite⟩ := Disk.openWrite_of_clear hc hnone
  have hbody := Disk.bodyOf?_create_self hl hnode hsp
  have hopen : openSegment d a.folder (Segment.ofId id) =
      .ok (.file d.nextBody, 0, d.create (loc.enter (Segment.ofId id).name)) := by
    rw [openSegment, hwrite]
    simp [Disk.size, Body.length, Body.lengthOf]
  refine ⟨d.nextBody, _, hopen, ?_, ?_⟩
  · exact onFile_moveTo (h.create hl hnamed hsp hnode habove) hbody rfl
  · exact ⟨hc.create hl hnode (by simp), hw, by simp [moveTo]⟩

theorem start_last {settings : Settings} {v : Volume}
    (h : d.Holds settings.folder (front ++ [v])) :
    ∃ body, Appender.start d settings =
        (.ok ((blank settings).moveTo v.segment (.file body) v.octets.length), d) ∧
      OnFile ((blank settings).moveTo v.segment (.file body) v.octets.length) d front v.octets := by
  obtain ⟨-, body, hb, hoctets⟩ := h.shows v (by simp)
  have hopen : openSegment d settings.folder (lastOf ((front ++ [v]).map (·.segment))) =
      .ok (.file body, v.octets.length, d) := by
    rw [lastOf_append, openSegment, Disk.openWrite_of_bodyOf? h.tidy hb, ← hoctets, Body.length_octets]
    rfl
  have hstart := start_of_openSegment h hopen
  rw [lastOf_append] at hstart
  exact ⟨body, hstart, onFile_moveTo h hb rfl⟩

/-- A rotation leaves all octets on disk and goes on in an empty segment. -/
theorem OnFile.rotate (h : OnFile a d front settled) (hr : a.Ready d)
    (hlt : a.active.id < a.active.id + 1) :
    ∃ body d', a.rotate d =
        (.ok (), a.moveTo (Segment.ofId (a.active.id + 1)) (.file body) 0, d') ∧
      OnFile (a.moveTo (Segment.ofId (a.active.id + 1)) (.file body) 0) d'
        (front ++ [⟨a.active, settled ++ a.buffer⟩]) [] ∧
      Ready (a.moveTo (Segment.ofId (a.active.id + 1)) (.file body) 0) d' := by
  obtain ⟨f, d₁, hflush, hon, hready⟩ := h.flush_of_ready hr
  have habove : ∀ v ∈ front ++ [⟨a.active, settled ++ a.buffer⟩],
      v.segment.id < a.active.id + 1 := by
    intro v hv
    exact UInt64.lt_of_le_of_lt ((Tracks.on hon).id_le hv) hlt
  obtain ⟨body, d', hopen, hon', hready'⟩ :=
    openSegment_of_clear (a := { a with file := f, buffer := [] }) hon.holds hready.clear
      hready.willing habove
  refine ⟨body, d', ?_, hon', hready'⟩
  have hopen' : openSegment d₁ a.folder (Segment.ofId (a.active.id + 1)) =
      .ok (.file body, 0, d') := hopen
  simp only [Appender.rotate, hflush, hopen']
  rfl

/-- Octets that are put into the buffer are in it, or on disk with all that was there. -/
theorem OnFile.enqueue (h : OnFile a d front settled) (hr : a.Ready d) (bs : Octets)
    (force : Bool) :
    ∃ b d' settled', a.enqueue d bs force = (.ok (), b, d') ∧ OnFile b d' front settled' ∧
      b.Ready d' ∧ SameTerms a b ∧ b.active = a.active ∧
      settled' ++ b.buffer = settled ++ (a.buffer ++ bs) := by
  have hon := h.holding bs
  have hready : (a.holding bs).Ready d := ⟨hr.clear, hr.willing, hr.file⟩
  by_cases hflushes : (a.holding bs).Flushes force
  · obtain ⟨f, d', hflush, hon', hready'⟩ := hon.flush_of_ready hready
    refine ⟨_, d', _, enqueue_of_flush hflushes hflush, hon', hready',
      ⟨rfl, rfl, rfl, rfl, rfl⟩, rfl, ?_⟩
    exact List.append_nil _
  · exact ⟨_, d, settled, enqueue_of_buffer hflushes, hon, hready, ⟨rfl, rfl, rfl, rfl, rfl⟩, rfl,
      rfl⟩

theorem OnFile.close (h : OnFile a d front settled) (hr : a.Ready d) (hopen : a.closed = false) :
    ∃ b d', a.close d = (.ok (), b, d') ∧ OnFile b d' front (settled ++ a.buffer) ∧ b.Ready d' ∧
      SameTerms { a with closed := true } b ∧ b.active = a.active ∧ b.buffer = [] := by
  have hshut : OnFile { a with closed := true } d front settled := ⟨h.holds, h.offset, h.file⟩
  obtain ⟨f, d', hflush, hon, hready'⟩ := hshut.flush_of_ready ⟨hr.clear, hr.willing, hr.file⟩
  generalize hb : { a with closed := true, file := f, buffer := [] } = b at hflush hon hready'
  have hagain : b.flush d' = (.ok (), b, d') := flush_of_nil (by rw [← hb]) d'
  obtain ⟨answer, hgone, hrefused⟩ := letGo_spec b hon.holds.tidy
  have hanswer : answer = .ok () := by
    cases answer with
    | ok _ => rfl
    | error e => exact absurd hready' (hrefused e rfl).2
  refine ⟨{ b with file := none }, d', ?_, ?_, ?_, ?_, ?_, ?_⟩
  · simp only [Appender.close, hopen, Bool.false_eq_true, if_false, hflush, hagain, hgone, hanswer]
  · refine ⟨hon.holds, hon.offset, ?_⟩
    intro n hn
    cases hn
  · exact hready'.drop_file
  · rw [← hb]
    exact ⟨rfl, rfl, rfl, rfl, rfl⟩
  · rw [← hb]
  · rw [← hb]

end Appender

/-! ## Use -/

namespace Writing

/-- What an appender is asked to do by one who has the folder for himself. -/
inductive Call
  | append (r : Record) (force : Bool)
  | flush
  | tick
  | close
  /-- Lets go of the appender, which closes it, and opens the folder again. -/
  | reopen (settings : Settings)

def serve (w : Writing) : Call → Writing
  | .append r force => w.step (.append r force)
  | .flush => w.step .flush
  | .tick => w.step .tick
  | .close => w.step .close
  | .reopen settings =>
    match Appender.start (w.step .close).disk settings with
    | (.error _, d) => ⟨(w.step .close).appender, d⟩
    | (.ok a, d) => ⟨a, d⟩

def serveAll (w : Writing) (cs : List Call) : Writing := cs.foldl serve w

/-- Numbers of segments do not start over, and the folder is opened again with the limit that it
had. -/
def Proper (w : Writing) : Call → Prop
  | .append r force => ¬ (w.appender.append w.disk r force).2.1.active.id < w.appender.active.id
  | .reopen settings =>
    settings.folder = w.appender.folder ∧ settings.segmentLimit = w.appender.segmentLimit
  | .flush | .tick | .close => True

abbrev AllProper (w : Writing) (cs : List Call) : Prop := SegmentLog.Along serve Proper w cs

/-- The segments of the folder, the active one with the octets in the buffer. -/
def volumes (w : Writing) : List Volume :=
  (w.disk.volumes w.appender.folder).map fun v =>
    if v.segment = w.appender.active then ⟨v.segment, v.octets ++ w.appender.buffer⟩ else v

/-- An appender in whose way nothing stands, over volumes that are rotated. -/
structure Turns (limit : Nat) (w : Writing) (front : List Volume) (settled : Octets) : Prop where
  on : w.appender.OnFile w.disk front settled
  ready : w.appender.Ready w.disk
  limited : w.appender.segmentLimit = limit
  closed : w.appender.closed = true → w.appender.buffer = []
  rotated : Rotated limit (front ++ [⟨w.appender.active, settled ++ w.appender.buffer⟩])

variable {limit : Nat} {w : Writing} {a : Appender} {d : Disk} {front : List Volume}
  {settled : Octets}

theorem Turns.volumes_eq (h : Turns limit w front settled) :
    w.volumes = front ++ [⟨w.appender.active, settled ++ w.appender.buffer⟩] := by
  have hasc := h.on.holds.ascending
  rw [List.map_append, List.pairwise_append] at hasc
  have hfront : (front.map fun v => if v.segment = w.appender.active then
      (⟨v.segment, v.octets ++ w.appender.buffer⟩ : Volume) else v) = front := by
    have hsame : ∀ v ∈ front, (if v.segment = w.appender.active then
        (⟨v.segment, v.octets ++ w.appender.buffer⟩ : Volume) else v) = v := by
      intro v hv
      apply if_neg
      intro hactive
      have hlt := hasc.2.2 _ (List.mem_map_of_mem hv) w.appender.active (by simp)
      rw [hactive] at hlt
      exact UInt64.lt_irrefl _ hlt
    rw [List.map_congr_left hsame, List.map_id']
  rw [volumes, h.on.holds.volumes_eq, List.map_append, hfront]
  simp

theorem Turns.active_eq (h : Turns limit w front settled) :
    w.appender.active.id.toNat = front.length + 1 := by
  have hnumbered := h.rotated.numbered
  rw [List.map_append, List.length_append, List.length_singleton, List.range'_1_concat] at hnumbered
  obtain ⟨-, hlast⟩ := List.append_inj' hnumbered rfl
  have hid : w.appender.active.id.toNat = 1 + front.length := List.singleton_inj.mp hlast
  omega

theorem Turns.settle {b : Appender} {d' : Disk} {settled' : Octets}
    (h : Turns limit ⟨a, d⟩ front settled) (hon : b.OnFile d' front settled') (hr : b.Ready d')
    (hl : b.segmentLimit = a.segmentLimit) (ha : b.active = a.active)
    (hc : b.closed = true → b.buffer = []) (hsame : settled' ++ b.buffer = settled ++ a.buffer) :
    Turns limit ⟨b, d'⟩ front settled' := by
  refine ⟨hon, hr, hl.trans h.limited, hc, ?_⟩
  show Rotated limit (front ++ [⟨b.active, settled' ++ b.buffer⟩])
  rw [hsame, ha]
  exact h.rotated

theorem Turns.flush (h : Turns limit ⟨a, d⟩ front settled) :
    (a.flush d).1 = .ok () ∧ (a.flush d).2.1.folder = a.folder ∧
      Turns limit ⟨(a.flush d).2.1, (a.flush d).2.2⟩ front (settled ++ a.buffer) := by
  obtain ⟨f, d', hflush, hon, hready⟩ := h.on.flush_of_ready h.ready
  rw [hflush]
  exact ⟨rfl, rfl, h.settle hon hready rfl rfl (fun _ => rfl) (List.append_nil _)⟩

theorem Turns.close (h : Turns limit ⟨a, d⟩ front settled) :
    (a.close d).1 = .ok () ∧ (a.close d).2.1.folder = a.folder ∧ (a.close d).2.1.buffer = [] ∧
      Turns limit ⟨(a.close d).2.1, (a.close d).2.2⟩ front (settled ++ a.buffer) := by
  cases hc : a.closed with
  | true =>
    have hnil : a.buffer = [] := h.closed hc
    have hclose : a.close d = (.ok (), a, d) := by
      rw [Appender.close, hc, if_pos rfl]
    have hsettled : settled ++ a.buffer = settled := by rw [hnil, List.append_nil]
    rw [hclose, hsettled]
    exact ⟨rfl, rfl, hnil, h⟩
  | false =>
    obtain ⟨b, d', hclose, hon, hready, hterms, hactive, hnil⟩ := h.on.close h.ready hc
    rw [hclose]
    refine ⟨rfl, hterms.folder, hnil, ?_⟩
    refine h.settle hon hready hterms.segmentLimit hactive (fun _ => hnil) ?_
    rw [hnil, List.append_nil]

theorem Turns.rotate_active (h : Turns limit ⟨a, d⟩ front settled) :
    (a.rotate d).2.1.active = Segment.ofId (a.active.id + 1) := by
  obtain ⟨f, d₁, hflush, hon, hready⟩ := h.on.flush_of_ready h.ready
  obtain ⟨body, d', hwrite⟩ := hready.clear.openWrite hon.holds.tidy (a.active.id + 1)
  simp only [Appender.rotate, hflush, Appender.openSegment, hwrite]

/-- A record that has room in the last segment, or finds it empty, is appended to it. -/
theorem Turns.append_last (h : Turns limit ⟨a, d⟩ front settled) (hopen : a.closed = false)
    {r : Record} (hr : r.Fits) (force : Bool) (hover : a.overflows r.form.length = false) :
    ∃ b d' settled', a.append d r force = (.ok r.sequence, b, d') ∧ b.folder = a.folder ∧
      Turns limit ⟨b, d'⟩ front settled' := by
  have hlength : (settled ++ a.buffer).length = a.offset := List.length_append.trans h.on.offset
  have hlimit : a.segmentLimit = limit := h.limited
  have hfit : settled ++ a.buffer = [] ∨
      (settled ++ a.buffer).length + r.form.length ≤ limit := by
    rw [hlength, ← hlimit]
    rcases Appender.overflows_eq_false_iff.mp hover with hzero | hfit
    · left
      apply List.eq_nil_of_length_eq_zero
      omega
    · exact .inr hfit
  obtain ⟨b, d', settled', henqueue, hon, hready, hterms, hactive, hoctets⟩ :=
    h.on.enqueue h.ready r.form force
  have happend : a.append d r force = (.ok r.sequence, b, d') := by
    simp only [Appender.append, Record.encode_of_fits hr, hopen, Appender.makeRoom, hover,
      henqueue, Bool.false_eq_true, if_false]
  refine ⟨b, d', settled', happend, hterms.folder, hon, hready, ?_, ?_, ?_⟩
  · exact hterms.segmentLimit.trans hlimit
  · intro hclosed
    rw [hterms.closed, hopen] at hclosed
    cases hclosed
  · show Rotated limit (front ++ [⟨b.active, settled' ++ b.buffer⟩])
    rw [hoctets, hactive, ← List.append_assoc]
    exact h.rotated.grow hr hfit

/-- A record that would grow the last segment past the limit is appended to the next one. -/
theorem Turns.append_next (h : Turns limit ⟨a, d⟩ front settled) (hopen : a.closed = false)
    {r : Record} (hr : r.Fits) (force : Bool) (hover : a.overflows r.form.length = true)
    (hlt : a.active.id < a.active.id + 1) :
    ∃ b d' settled', a.append d r force = (.ok r.sequence, b, d') ∧ b.folder = a.folder ∧
      Turns limit ⟨b, d'⟩ (front ++ [⟨a.active, settled ++ a.buffer⟩]) settled' := by
  have hlength : (settled ++ a.buffer).length = a.offset := List.length_append.trans h.on.offset
  have hlimit : a.segmentLimit = limit := h.limited
  have hlate : 0 < a.offset ∧ a.segmentLimit < a.offset + r.form.length := by
    rw [Appender.overflows, Bool.and_eq_true, decide_eq_true_eq, decide_eq_true_eq] at hover
    exact hover
  obtain ⟨body, d₁, hrotate, hon₁, hready₁⟩ := h.on.rotate h.ready hlt
  obtain ⟨b, d', settled', henqueue, hon, hready, hterms, hactive, hoctets⟩ :=
    hon₁.enqueue hready₁ r.form force
  have happend : a.append d r force = (.ok r.sequence, b, d') := by
    simp only [Appender.append, Record.encode_of_fits hr, hopen, Appender.makeRoom, hover, hrotate,
      henqueue, if_true, Bool.false_eq_true, if_false]
  refine ⟨b, d', settled', happend, hterms.folder, hon, hready, ?_, ?_, ?_⟩
  · exact hterms.segmentLimit.trans hlimit
  · intro hclosed
    have hstill : a.closed = true := hterms.closed.symm.trans hclosed
    rw [hopen] at hstill
    cases hstill
  · have hlast : settled' ++ b.buffer = r.form := hoctets
    rw [hlast, hactive]
    apply h.rotated.next hr
    · apply List.ne_nil_of_length_pos
      show 0 < (settled ++ a.buffer).length
      omega
    · show limit < (settled ++ a.buffer).length + r.form.length
      omega
    · rw [toNat_succ_of_lt hlt, h.active_eq]

/-- A record that can be encoded is appended, to the last segment or to the next one. -/
theorem Turns.append (h : Turns limit ⟨a, d⟩ front settled) (hopen : a.closed = false) {r : Record}
    (hr : r.Fits) (force : Bool) (hw : ¬ (a.append d r force).2.1.active.id < a.active.id) :
    (a.append d r force).1 = .ok r.sequence ∧ (a.append d r force).2.1.folder = a.folder ∧
      ∃ front' settled', front'.length ≤ front.length + 1 ∧
        Turns limit ⟨(a.append d r force).2.1, (a.append d r force).2.2⟩ front' settled' := by
  cases hover : a.overflows r.form.length with
  | false =>
    obtain ⟨b, d', settled', happend, hfolder, hturns⟩ := h.append_last hopen hr force hover
    rw [happend]
    exact ⟨rfl, hfolder, front, settled', Nat.le_succ _, hturns⟩
  | true =>
    have hlt : a.active.id < a.active.id + 1 := by
      rw [Appender.append_active_eq hr hopen, Appender.makeRoom, hover, if_pos rfl,
        h.rotate_active] at hw
      exact Appender.lt_succ_of_not_lt hw
    obtain ⟨b, d', settled', happend, hfolder, hturns⟩ := h.append_next hopen hr force hover hlt
    rw [happend]
    exact ⟨rfl, hfolder, _, settled', Nat.le_of_eq List.length_append, hturns⟩

theorem Turns.reopen (h : Turns limit ⟨a, d⟩ front settled) {settings : Settings}
    (hf : settings.folder = a.folder) (hl : settings.segmentLimit = a.segmentLimit) :
    ∃ b, Appender.start (a.close d).2.2 settings = (.ok b, (a.close d).2.2) ∧
      b.folder = a.folder ∧ Turns limit ⟨b, (a.close d).2.2⟩ front (settled ++ a.buffer) := by
  obtain ⟨-, hfolder, hnil, hclosed⟩ := h.close
  have hactive := Appender.close_active a d
  have hrotated := hclosed.rotated
  have hholds := hclosed.on.holds
  dsimp only at hrotated hholds
  rw [hnil, List.append_nil] at hrotated
  rw [hfolder, ← hf] at hholds
  obtain ⟨body, hstart, hon⟩ := Appender.start_last hholds
  refine ⟨_, hstart, hf, hon, ?_, ?_, ?_, ?_⟩
  · refine ⟨?_, hclosed.ready.willing, by simp [Appender.moveTo]⟩
    show (a.close d).2.2.Clear settings.folder
    rw [hf, ← hfolder]
    exact hclosed.ready.clear
  · exact hl.trans h.limited
  · intro _
    rfl
  · show Rotated limit (front ++ [⟨(a.close d).2.1.active, settled ++ a.buffer ++ []⟩])
    rw [List.append_nil]
    exact hrotated

/-- A call leaves the segments rotated, and begins one at most. -/
theorem Turns.step (h : Turns limit w front settled) {c : Call} (hp : w.Proper c) :
    (w.serve c).appender.folder = w.appender.folder ∧
      ∃ front' settled', front'.length ≤ front.length + 1 ∧
        Turns limit (w.serve c) front' settled' := by
  obtain ⟨a, d⟩ := w
  cases c with
  | append r force =>
    by_cases hgrant : r.Fits ∧ a.closed = false
    · obtain ⟨-, hfolder, hturns⟩ := h.append hgrant.2 hgrant.1 force hp
      exact ⟨hfolder, hturns⟩
    · have hunfit : ¬ r.Fits ∨ a.closed = true := by
        by_cases hr : r.Fits
        · right
          by_contra hopen
          exact hgrant ⟨hr, Bool.eq_false_iff.mpr hopen⟩
        · exact .inl hr
      have hrefused : ∃ e, a.append d r force = (.error e, a, d) := append_of_unfit hunfit
      obtain ⟨e, happend⟩ := hrefused
      have hsame : serve ⟨a, d⟩ (.append r force) = ⟨a, d⟩ := by
        simp only [serve, Writing.step, happend]
      rw [hsame]
      exact ⟨rfl, front, settled, Nat.le_succ _, h⟩
  | flush =>
    obtain ⟨-, hfolder, hturns⟩ := h.flush
    exact ⟨hfolder, front, _, Nat.le_succ _, hturns⟩
  | tick =>
    cases hc : a.closed with
    | true =>
      have hsame : serve ⟨a, d⟩ .tick = ⟨a, d⟩ := by
        simp only [serve, Writing.step, Appender.tick, hc, if_true]
      rw [hsame]
      exact ⟨rfl, front, settled, Nat.le_succ _, h⟩
    | false =>
      obtain ⟨-, hfolder, hturns⟩ := h.flush
      have hflush : serve ⟨a, d⟩ .tick = ⟨(a.flush d).2.1, (a.flush d).2.2⟩ := by
        simp only [serve, Writing.step, Appender.tick, hc, Bool.false_eq_true, if_false]
      rw [hflush]
      exact ⟨hfolder, front, _, Nat.le_succ _, hturns⟩
  | close =>
    obtain ⟨-, hfolder, -, hturns⟩ := h.close
    exact ⟨hfolder, front, _, Nat.le_succ _, hturns⟩
  | reopen settings =>
    obtain ⟨b, hstart, hfolder, hturns⟩ := h.reopen hp.1 hp.2
    have hserve : serve ⟨a, d⟩ (.reopen settings) = ⟨b, (a.close d).2.2⟩ := by
      simp only [serve, Writing.step, hstart]
    rw [hserve]
    exact ⟨hfolder, front, _, Nat.le_succ _, hturns⟩

theorem Turns.run {cs : List Call} (h : Turns limit w front settled) (hp : w.AllProper cs) :
    ∃ front' settled', Turns limit (w.serveAll cs) front' settled' := by
  induction cs generalizing w front settled with
  | nil => exact ⟨front, settled, h⟩
  | cons c rest ih =>
    obtain ⟨-, front', settled', -, hturns⟩ := h.step hp.1
    exact ih hturns hp.2

/-- Below the last number an append begins no segment with a lower one. -/
theorem proper_append (hroom : w.appender.active.id.toNat + 1 < 2 ^ 64) (r : Record)
    (force : Bool) : w.Proper (.append r force) := by
  have hactive := Appender.append_active w.appender w.disk r force
  have hfollows : Follows w.appender.active.id
      (w.appender.append w.disk r force).2.1.active.id :=
    hactive.imp (congrArg Segment.id) (congrArg Segment.id)
  exact hfollows.not_lt hroom

theorem Turns.allProper {cs : List Call} (h : Turns limit w front settled)
    (hlength : front.length + 1 + cs.length < 2 ^ 64)
    (hreopen : ∀ settings, Call.reopen settings ∈ cs →
      settings.folder = w.appender.folder ∧ settings.segmentLimit = limit) : w.AllProper cs := by
  induction cs generalizing w front settled with
  | nil => trivial
  | cons c rest ih =>
    have hactive := h.active_eq
    simp only [List.length_cons] at hlength
    have hproper : w.Proper c := by
      cases c with
      | append r force => exact proper_append (by omega) r force
      | reopen settings =>
        obtain ⟨hfolder, hlimit⟩ := hreopen settings List.mem_cons_self
        exact ⟨hfolder, hlimit.trans h.limited.symm⟩
      | flush => trivial
      | tick => trivial
      | close => trivial
    obtain ⟨hfolder, front', settled', hgrown, hturns⟩ := h.step hproper
    refine ⟨hproper, ih hturns (by omega) ?_⟩
    intro settings hmem
    rw [hfolder]
    exact hreopen settings (List.mem_cons_of_mem _ hmem)

theorem turns_start {settings : Settings} (h : d.Holds settings.folder [])
    (hc : d.Clear settings.folder) (hw : d.Willing) :
    ∃ a d', Appender.start d settings = (.ok a, d') ∧ a.folder = settings.folder ∧
      Turns settings.segmentLimit ⟨a, d'⟩ [] [] := by
  have habove : ∀ v ∈ ([] : List Volume), v.segment.id < Segment.firstId := by simp
  obtain ⟨body, d', hopen, hon, hready⟩ :=
    Appender.openSegment_of_clear (a := Appender.blank settings) h hc hw habove
  refine ⟨_, d', Appender.start_of_openSegment h hopen, rfl, hon, hready, rfl, ?_, ?_⟩
  · intro _
    rfl
  · exact Rotated.first _

/-- The law of rotation. From an empty folder on, after any proper calls, the segments are rotated
under the limit, and the active one is the last of them, and as long as the appender takes it to be.
Nothing is refused: flushing and closing are granted, and so is every proper append of a record that
can be encoded, until the appender is closed. -/
theorem rotation_law {settings : Settings} (h : d.Holds settings.folder [])
    (hc : d.Clear settings.folder) (hw : d.Willing) :
    ∃ a d', Appender.start d settings = (.ok a, d') ∧
      ∀ cs, AllProper ⟨a, d'⟩ cs →
        let w := serveAll ⟨a, d'⟩ cs
        Rotated settings.segmentLimit w.volumes ∧
        (∃ front octets, w.volumes = front ++ [⟨w.appender.active, octets⟩] ∧
          w.appender.offset = octets.length) ∧
        w.appender.active.id.toNat = w.volumes.length ∧
        (w.appender.flush w.disk).1 = .ok () ∧ (w.appender.close w.disk).1 = .ok () ∧
        (w.appender.closed = false → ∀ r force, r.Fits → w.Proper (.append r force) →
          (w.appender.append w.disk r force).1 = .ok r.sequence) := by
  obtain ⟨a, d', hstart, -, hturns⟩ := turns_start h hc hw
  refine ⟨a, d', hstart, ?_⟩
  intro cs hp w
  obtain ⟨front, settled, hlast⟩ := hturns.run hp
  have hvolumes : w.volumes = _ := hlast.volumes_eq
  rw [hvolumes]
  refine ⟨hlast.rotated, ⟨front, _, rfl, ?_⟩, ?_, hlast.flush.1, hlast.close.1, ?_⟩
  · rw [List.length_append]
    exact hlast.on.offset.symm
  · rw [List.length_append]
    exact hlast.active_eq
  · intro hopen r force hr hproper
    exact (hlast.append hopen hr force hproper).1

/-- Two short records, a long one, a closing, and a short one more under other settings. -/
def shortAndLong : List Call :=
  [.append (Record.write 1 0 [1] []) false, .append (Record.write 2 0 [2] []) false, .tick,
    .append (Record.write 3 0 (List.replicate 30 3) []) true, .close,
    .reopen { brief with sync := true, bufferLimit := 0 },
    .append (Record.write 4 0 [4] []) false, .append (Record.marker .checkpoint 5 0) false]

def inEmptyFolder : Writing where
  appender := (Appender.blank brief).moveTo (Segment.ofId 1) (.file 0) 0
  disk := (Appender.start Session.emptyFolder brief).2

theorem rotation_law_shortAndLong :
    let w := inEmptyFolder.serveAll shortAndLong
    (Session.emptyFolder.Holds brief.folder [] ∧ Session.emptyFolder.Clear brief.folder ∧
      Session.emptyFolder.Willing ∧
      Appender.start Session.emptyFolder brief = (.ok inEmptyFolder.appender, inEmptyFolder.disk) ∧
      inEmptyFolder.AllProper shortAndLong) ∧
    Rotated 40 w.volumes ∧ w.volumes.map (·.octets.length) = [27, 27, 56, 27, 26] ∧
    w.appender.active.id = 5 := by
  intro w
  have hholds : Session.emptyFolder.Holds brief.folder [] := Session.holds_emptyFolder
  have hlocate : Session.emptyFolder.locate "wal" = .ok (Location.top.enter "wal") := by
    decide +kernel
  have hclear : Session.emptyFolder.Clear brief.folder :=
    Disk.clear_of_files hlocate (by decide +kernel) (by decide +kernel)
  have hwilling : Session.emptyFolder.Willing := fun _ => rfl
  have hstart : Appender.start Session.emptyFolder brief =
      (.ok inEmptyFolder.appender, inEmptyFolder.disk) := Prod.ext (by decide +kernel) rfl
  have hproper : inEmptyFolder.AllProper shortAndLong := by
    obtain ⟨a, d, hstart', hfolder, hturns⟩ := turns_start hholds hclear hwilling
    rw [hstart] at hstart'
    cases hstart'
    apply hturns.allProper
    · decide
    · intro settings hmem
      simp only [shortAndLong, List.mem_cons, Call.reopen.injEq, reduceCtorEq, false_or,
        List.not_mem_nil, or_false] at hmem
      subst hmem
      exact ⟨rfl, rfl⟩
  obtain ⟨a, d, hstart', hlaw⟩ := rotation_law hholds hclear hwilling
  rw [hstart] at hstart'
  cases hstart'
  obtain ⟨hrotated, -, hactive, -⟩ := hlaw shortAndLong hproper
  have hlengths : w.volumes.map (·.octets.length) = [27, 27, 56, 27, 26] := by decide +kernel
  have hcount : w.volumes.length = 5 := by
    rw [← List.length_map, hlengths]
    rfl
  refine ⟨⟨hholds, hclear, hwilling, hstart, hproper⟩, hrotated, hlengths, ?_⟩
  rw [← UInt64.toNat_inj]
  exact hactive.trans hcount

end Writing

end SegmentLog
