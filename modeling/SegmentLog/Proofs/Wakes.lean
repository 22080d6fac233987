import SegmentLog.Proofs.Adrift

/-!
What happens in the wake of a refused cut. Records are appended and flushed again, the clock ticks,
and others change the disk, while the appender takes its segment for longer than it is
(`Writing.Wake`). Either the first record goes to a later segment; then the gap does no harm. Or it
goes to that segment, behind zeros that fill the gap. Records and gaps are at least as long as a header
(`Ample`), so the zeros are read as a header of no kind: the log is damaged there for good
(`Wake.recordsOf`).
-/

namespace SegmentLog

/-! ## Zeros in a log -/

/-- Nothing decodes where zeros take the place of a header. -/
theorem Record.decode_zeros {n : Nat} (hn : Header.size ≤ n) (rest : Octets) :
    Record.decode (List.replicate n 0 ++ rest) = .error (.unknownKind 0) := by
  have hlength : Header.size ≤ (List.replicate n (0 : UInt8) ++ rest).length := by
    rw [List.length_append, List.length_replicate]
    omega
  have htake : (List.replicate n (0 : UInt8) ++ rest).take Header.size =
      List.replicate Header.size 0 := by
    rw [List.take_append_of_le_length (by simpa using hn), List.take_replicate,
      Nat.min_eq_left hn]
  have hheader : Header.ofOctets (List.replicate n (0 : UInt8) ++ rest) =
      ⟨0, 0, 0, 0, 0, 0, 0⟩ := by
    rw [← Header.ofOctets_take (Nat.le_refl Header.size), htake]
    decide
  have hempty (bs : Octets) : bs.slice Header.size 0 = [] := by
    simp [Octets.slice]
  simp only [Record.decode, if_neg (Nat.not_lt.mpr hlength), hheader, Header.recordLength,
    Header.payloadLength, Nat.add_zero, hempty]
  decide

/-- A length that is nothing or leaves room for a header, as that of whole records does. -/
def Ample (n : Nat) : Prop := n = 0 ∨ Header.size ≤ n

theorem Ample.add {m n : Nat} (hm : Ample m) (hn : Ample n) : Ample (m + n) := by
  unfold Ample at *
  omega

theorem Octets.Whole.ample {bs : Octets} (h : bs.Whole) : Ample bs.length := by
  cases hr : bs.records with
  | nil => exact .inl (by rw [h.eq_nil hr]; rfl)
  | cons r rest =>
    refine .inr ?_
    rw [h.eq_row, hr, List.flatMap_cons, List.length_append, Record.length_form]
    exact Nat.le_trans (Record.size_le_encodedLength r) (Nat.le_add_right _ _)

/-- Every volume is empty or leaves room for a header. -/
def Roomy (vs : List Volume) : Prop := ∀ v ∈ vs, Ample v.octets.length

theorem roomy_append {vs ws : List Volume} : Roomy (vs ++ ws) ↔ Roomy vs ∧ Roomy ws :=
  List.forall_mem_append

theorem roomy_singleton {v : Volume} : Roomy [v] ↔ Ample v.octets.length := by
  simp [Roomy]

theorem Intact.roomy {vs : List Volume} (h : Intact vs) : Roomy vs := fun v hv => (h v hv).ample

theorem Grows.roomy {vs ws : List Volume} {rs : List Record} (h : Grows vs ws rs)
    (hr : Roomy vs) : Roomy ws := by
  induction h with
  | same => exact hr
  | @rows front s settled bs rs _ hb ih =>
    rw [roomy_append, roomy_singleton] at ih ⊢
    refine ⟨ih.1, ?_⟩
    rw [List.length_append]
    exact ih.2.add hb.ample
  | next _ s ih => exact roomy_append.mpr ⟨ih, roomy_singleton.mpr (.inl rfl)⟩

/-- Volumes that grow keep what they hold. -/
theorem Grows.keeps {front ws : List Volume} {s : Segment} {bs : Octets} {rs : List Record}
    (h : Grows (front ++ [⟨s, bs⟩]) ws rs) : ∃ tail back, ws = front ++ ⟨s, bs ++ tail⟩ :: back := by
  generalize hvs : front ++ [⟨s, bs⟩] = vs at h
  induction h with
  | same => exact ⟨[], [], by rw [← hvs, List.append_nil]⟩
  | @rows front' t settled cs rs _ _ ih =>
    obtain ⟨tail, back, hws⟩ := ih
    rcases List.eq_nil_or_concat back with rfl | ⟨back', v, rfl⟩
    · obtain ⟨rfl, hlast⟩ := List.append_inj' hws rfl
      cases hlast
      exact ⟨tail ++ cs, [], by rw [← List.append_assoc]⟩
    · rw [List.concat_eq_append, ← List.cons_append, ← List.append_assoc] at hws
      obtain ⟨rfl, -⟩ := List.append_inj' hws rfl
      exact ⟨tail, back' ++ [⟨t, settled ++ cs⟩], by simp⟩
  | next _ t ih =>
    obtain ⟨tail, back, rfl⟩ := ih
    exact ⟨tail, back ++ [⟨t, []⟩], by simp⟩

/-- The survey of volumes ends where one of them goes on with zeros. -/
theorem survey_of_zeros {front back : List Volume} {s : Segment} {settled rest : Octets} {n : Nat}
    (hfront : Intact front) (hs : settled.Whole) (hn : Header.size ≤ n) :
    (survey (front ++ ⟨s, settled ++ (List.replicate n 0 ++ rest)⟩ :: back)).damage =
      some ⟨s, settled.length, .unknownKind 0⟩ := by
  have hdecode := Record.decode_zeros hn rest
  have hremnant : Octets.remnant (settled ++ (List.replicate n 0 ++ rest)) =
      List.replicate n 0 ++ rest := by
    rw [Octets.remnant_append hs, Octets.remnant_of_error hdecode]
  have hflaw : Octets.flaw (settled ++ (List.replicate n 0 ++ rest)) = .unknownKind 0 := by
    have herror := Octets.decode_remnant (settled ++ (List.replicate n 0 ++ rest))
    rw [hremnant, hdecode] at herror
    exact (Except.error.inj herror).symm
  have hlength : Octets.wholeLength (settled ++ (List.replicate n 0 ++ rest)) = settled.length := by
    rw [Octets.wholeLength, hremnant, List.length_append, Nat.add_sub_cancel]
  have hnot : ¬ Octets.Whole (settled ++ (List.replicate n 0 ++ rest)) := by
    rw [Octets.Whole, hremnant]
    have hpos : 0 < n := Nat.lt_of_lt_of_le (by decide) hn
    simp [Nat.pos_iff_ne_zero.mp hpos]
  rw [survey_of_torn hfront hnot, hlength, hflaw]

theorem Appender.Base.intact {front base : List Volume} {s : Segment} {settled : Octets}
    (h : Base front s settled base) : Intact base ↔ Intact front ∧ settled.Whole := by
  rcases h with rfl | ⟨rfl, rfl⟩
  · rw [intact_append, intact_singleton]
  · simp [Octets.whole_nil]

theorem Appender.Base.recordsIn {front base : List Volume} {s : Segment} {settled : Octets}
    (h : Base front s settled base) :
    recordsIn base = SegmentLog.recordsIn front ++ settled.records := by
  rcases h with rfl | ⟨rfl, rfl⟩
  · simp
  · rw [Octets.records_nil, List.append_nil]

theorem Appender.Base.roomy {front base : List Volume} {s : Segment} {settled : Octets}
    (h : Base front s settled base) : Roomy base ↔ Roomy front ∧ Ample settled.length := by
  rcases h with rfl | ⟨rfl, rfl⟩
  · rw [roomy_append, roomy_singleton]
  · simp [Ample]

namespace Writing

variable {folder : String} {front : List Volume} {s : Segment} {settled : Octets} {gap : Nat}
  {w : Writing} {S : List Record} {L : Option UInt64} {e : Event}

/-! ## Where records go -/

/-- What happens to an appender that is neither cut nor closed. Others let files be written. -/
def Ordinary (w : Writing) : Event → Prop
  | .cut _ _ | .close => False
  | .disturb d => w.Allowed (.disturb d) ∧ d.Willing
  | e => w.Allowed e

theorem Ordinary.allowed (h : w.Ordinary e) : w.Allowed e := by
  cases e with
  | cut id offset => exact h.elim
  | close => trivial
  | disturb d => exact h.1
  | _ => exact h

theorem Ordinary.uncut (h : w.Ordinary e) : Uncut e := by
  cases e with
  | cut id offset => exact h.elim
  | _ => trivial

/-- The number of the segment that the record of an event goes to. -/
def landing (w : Writing) (e : Event) : Option UInt64 :=
  if w.gained e = [] then none else some (w.step e).appender.active.id

/-- The number of the segment that the first record goes to. -/
def landing? (w : Writing) : List Event → Option UInt64
  | [] => none
  | e :: rest => w.landing e <|> (w.step e).landing? rest

/-- Numbers of segments go up. -/
theorem Ordinary.le_active (h : w.Ordinary e) :
    w.appender.active.id ≤ (w.step e).appender.active.id := by
  cases e with
  | append r force => exact UInt64.not_lt.mp h
  | flush => exact UInt64.le_of_eq (congrArg _ (Appender.flush_active w.appender w.disk).symm)
  | tick =>
    simp only [step, Appender.tick]
    split
    · exact UInt64.le_refl _
    · exact UInt64.le_of_eq (congrArg _ (Appender.flush_active w.appender w.disk).symm)
  | cut id offset => exact h.elim
  | close => exact h.elim
  | disturb d => exact UInt64.le_refl _

/-- A rotation that is granted goes on in the next segment. -/
theorem rotate_of_ok {a : Appender} {d : Disk} (h : (a.rotate d).1 = .ok ()) :
    (a.rotate d).2.1.active = Segment.ofId (a.active.id + 1) := by
  have hflush := Appender.flush_active a d
  unfold Appender.rotate at h ⊢
  rcases hf : a.flush d with ⟨answer, b, d'⟩
  rw [hf] at h hflush
  cases answer with
  | error e => cases h
  | ok _ =>
    dsimp only at h hflush ⊢
    rw [hflush] at h ⊢
    split
    · rename_i hopen
      rw [hopen] at h
      cases h
    · rfl

/-- A granted append stays in its segment exactly if its record fits there. -/
theorem landing_append {r : Record} {force : Bool} (ho : w.Ordinary (.append r force))
    (hgranted : (w.appender.append w.disk r force).1.isOk) :
    w.landing (.append r force) = some w.appender.active.id ↔
      w.appender.overflows r.encodedLength = false := by
  obtain ⟨hr, hopen⟩ := fits_of_granted hgranted
  have hgained : w.gained (.append r force) = [r] := if_pos hgranted
  have hactive := Appender.append_active_eq (d := w.disk) hr hopen force
  have hland : w.landing (.append r force) =
      some (w.appender.makeRoom w.disk r.form.length).2.1.active.id := by
    rw [landing, if_neg (by simp [hgained]), ← hactive]
    rfl
  rw [hland, Option.some.injEq, ← Record.length_form]
  cases hover : w.appender.overflows r.form.length with
  | false =>
    have hroom : w.appender.makeRoom w.disk r.form.length = (.ok (), w.appender, w.disk) := by
      rw [Appender.makeRoom, hover, if_neg (by simp)]
    simp only [hroom]
  | true =>
    have hroom : w.appender.makeRoom w.disk r.form.length = w.appender.rotate w.disk := by
      rw [Appender.makeRoom, hover, if_pos rfl]
    have hok : (w.appender.rotate w.disk).1 = .ok () := by
      rcases hrotate : w.appender.rotate w.disk with ⟨e | _, b, d⟩
      · simp only [Appender.append, Record.encode_of_fits hr, hopen, hroom, hrotate,
          Bool.false_eq_true, if_false] at hgranted
        exact absurd hgranted (by simp [Except.isOk, Except.toBool])
      · rfl
    have hnext := rotate_of_ok hok
    have hlt : w.appender.active.id < w.appender.active.id + 1 := by
      refine Appender.lt_succ_of_not_lt ?_
      have hid : (w.appender.append w.disk r force).2.1.active.id = w.appender.active.id + 1 := by
        rw [hactive, hroom, hnext]
        rfl
      exact hid ▸ ho
    rw [hroom, hnext]
    refine iff_of_false (fun hsame => ?_) (by decide)
    exact UInt64.ne_of_lt hlt hsame.symm

/-- No record goes to a segment that appending has left. -/
theorem landing_ne (ho : w.Ordinary e) {id : UInt64} (hlt : id < w.appender.active.id)
    (hL : L ≠ some id) : (L <|> w.landing e) ≠ some id := by
  cases L with
  | some x => simpa using hL
  | none =>
    have hle := ho.le_active
    rw [landing]
    split
    · simp
    · intro he
      have hid : (w.step e).appender.active.id = id := by simpa using he
      rw [hid] at hle
      exact UInt64.lt_irrefl _ (UInt64.lt_of_lt_of_le hlt hle)

/-! ## The wake of a refused cut -/

/-- Where an appender is that took its active segment `s` for longer than it was, by `gap` octets. In
front of that segment stood the volumes `front`, and `settled` in it. Since then the records `S` were
added, the first of them to the segment `L`. -/
inductive Wake (folder : String) (front : List Volume) (s : Segment) (settled : Octets) (gap : Nat)
    (w : Writing) (S : List Record) (L : Option UInt64) : Prop
  /-- Nothing is written yet. -/
  | adrift (hplace : w.appender.folder = folder) (hactive : w.appender.active = s)
    (h : w.appender.Adrift w.disk front settled gap) (hwhole : w.appender.buffer.Whole)
    (hrecords : Octets.records w.appender.buffer = S)
    (hlanding : L = if S = [] then none else some s.id)
  /-- Appending went on in a later segment, or there was no gap. -/
  | passed {base ws : List Volume} {written : List Record}
    (hbase : Appender.Base front s settled base) (h : w.Stands folder ⟨base, S⟩ ws written)
    (hpassed : gap = 0 ∨ s.id < w.appender.active.id ∧ L ≠ some s.id)
  /-- The gap is filled with zeros, and what was in the buffer stands behind them. -/
  | filled {bs : Octets} {added : List Record} {ws : List Volume} {written : List Record}
    (hb : bs.Whole)
    (h : w.Stands folder ⟨front ++ [⟨s, settled ++ (List.replicate gap 0 ++ bs)⟩], added⟩ ws written)
    (hrecords : bs.records ++ added = S) (hlanding : L = some s.id)

/-- What adds no record leaves the first of them where it is. -/
theorem Wake.still (h : Wake folder front s settled gap w S L) :
    Wake folder front s settled gap w (S ++ []) (L <|> none) := by
  have hL : (L <|> none) = L := by cases L <;> rfl
  rwa [List.append_nil, hL]

theorem Wake.step_passed {base ws : List Volume} {written : List Record}
    (hbase : Appender.Base front s settled base) (h : w.Stands folder ⟨base, S⟩ ws written)
    (hpassed : gap = 0 ∨ s.id < w.appender.active.id ∧ L ≠ some s.id) (ho : w.Ordinary e) :
    Wake folder front s settled gap (w.step e) (S ++ w.gained e) (L <|> w.landing e) := by
  obtain ⟨ws', S', hnext, -⟩ := h.step ho.allowed
  rw [after_of_uncut ho.uncut] at hnext
  refine .passed hbase hnext ?_
  rcases hpassed with hgap | ⟨hlt, hL⟩
  · exact .inl hgap
  · exact .inr ⟨UInt64.lt_of_lt_of_le hlt ho.le_active, landing_ne ho hlt hL⟩

theorem Wake.step_filled {bs : Octets} {added : List Record} {ws : List Volume}
    {written : List Record} (hb : bs.Whole)
    (h : w.Stands folder ⟨front ++ [⟨s, settled ++ (List.replicate gap 0 ++ bs)⟩], added⟩ ws written)
    (hrecords : bs.records ++ added = S) (hlanding : L = some s.id) (ho : w.Ordinary e) :
    Wake folder front s settled gap (w.step e) (S ++ w.gained e) (L <|> w.landing e) := by
  obtain ⟨ws', S', hnext, -⟩ := h.step ho.allowed
  rw [after_of_uncut ho.uncut] at hnext
  refine .filled hb hnext ?_ (by rw [hlanding]; rfl)
  rw [← hrecords, List.append_assoc]

/-- A granted flush fills the gap. -/
theorem stands_of_flush {b : Appender} {d : Disk} (hplace : w.appender.folder = folder)
    (h : w.appender.Adrift w.disk front settled gap) (hne : w.appender.buffer ≠ [])
    (hflush : w.appender.flush w.disk = (.ok (), b, d)) :
    ∃ ws, Stands folder ⟨b, d⟩
      ⟨front ++ [⟨w.appender.active, settled ++ (List.replicate gap 0 ++ w.appender.buffer)⟩], []⟩
      ws [] := by
  rcases h.flush hne with ⟨f, d', hgranted, hon⟩ | ⟨e, d', hrefused, -⟩
  · rw [hflush] at hgranted
    obtain ⟨rfl, rfl⟩ : b = { w.appender with file := some f, buffer := [] } ∧ d = d' := by
      simpa using hgranted
    rw [List.append_assoc] at hon
    exact ⟨_, hplace, .on hon, Octets.whole_nil, .same, Octets.records_nil⟩
  · rw [hrefused] at hflush
    cases hflush

/-- A flush fills the gap, or nothing changes that counts. -/
theorem Wake.step_flush (hplace : w.appender.folder = folder) (hactive : w.appender.active = s)
    (h : w.appender.Adrift w.disk front settled gap) (hwhole : w.appender.buffer.Whole)
    (hrecords : Octets.records w.appender.buffer = S)
    (hlanding : L = if S = [] then none else some s.id) :
    Wake folder front s settled gap (w.step .flush) S L := by
  by_cases hnil : w.appender.buffer = []
  · have hstep : w.step .flush = w := by
      simp only [Writing.step, Appender.flush_of_nil hnil]
    rw [hstep]
    exact .adrift hplace hactive h hwhole hrecords hlanding
  · rcases hflush : w.appender.flush w.disk with ⟨answer, b, d⟩
    have hstep : w.step .flush = ⟨b, d⟩ := by simp only [Writing.step, hflush]
    rw [hstep]
    cases answer with
    | ok _ =>
      obtain ⟨ws, hstands⟩ := stands_of_flush hplace h hnil hflush
      have hne : S ≠ [] := fun hS => hnil (hwhole.eq_nil (hrecords.trans hS))
      rw [hactive] at hstands
      exact .filled hwhole hstands (by rw [hrecords, List.append_nil]) (by rw [hlanding, if_neg hne])
    | error e =>
      rcases h.flush hnil with ⟨f, d', hgranted, -⟩ | ⟨e', d', hrefused, hadrift⟩
      · rw [hflush] at hgranted
        cases hgranted
      · rw [hflush] at hrefused
        cases hrefused
        exact .adrift hplace hactive hadrift hwhole hrecords hlanding

/-- Appends that come to the same add the same. -/
theorem step_append_congr {v : Writing} {r : Record} {force : Bool}
    (h : w.appender.append w.disk r force = v.appender.append v.disk r force) :
    w.step (.append r force) = v.step (.append r force) ∧
      w.gained (.append r force) = v.gained (.append r force) ∧
      w.landing (.append r force) = v.landing (.append r force) := by
  have hstep : w.step (.append r force) = v.step (.append r force) := by
    simp only [step, h]
  have hgained : w.gained (.append r force) = v.gained (.append r force) := by
    simp only [gained, h]
  exact ⟨hstep, hgained, by simp only [landing, hstep, hgained]⟩

theorem Wake.step_append (hplace : w.appender.folder = folder) (hactive : w.appender.active = s)
    (h : w.appender.Adrift w.disk front settled gap) (hwhole : w.appender.buffer.Whole)
    (hrecords : Octets.records w.appender.buffer = S)
    (hlanding : L = if S = [] then none else some s.id) {r : Record} {force : Bool}
    (ho : w.Ordinary (.append r force)) :
    Wake folder front s settled gap (w.step (.append r force)) (S ++ w.gained (.append r force))
      (L <|> w.landing (.append r force)) := by
  -- an append that is refused leaves all as it is
  have hrefused {x : Error} {d : Disk}
      (happend : w.appender.append w.disk r force = (.error x, w.appender, d))
      (hadrift : w.appender.Adrift d front settled gap) :
      Wake folder front s settled gap (w.step (.append r force)) (S ++ w.gained (.append r force))
        (L <|> w.landing (.append r force)) := by
    have hgained : w.gained (.append r force) = [] := by
      simp only [gained, happend]
      rfl
    have hstep : w.step (.append r force) = ⟨w.appender, d⟩ := by
      simp only [Writing.step, happend]
    rw [landing, if_pos hgained, hgained, hstep]
    exact Wake.still (.adrift hplace hactive hadrift hwhole hrecords hlanding)
  -- one that is granted while the segment is the same goes to that segment
  have hgranted {b : Appender} {d : Disk}
      (happend : w.appender.append w.disk r force = (.ok r.sequence, b, d))
      (hb : b.active = w.appender.active) :
      w.gained (.append r force) = [r] ∧ (L <|> w.landing (.append r force)) = some s.id := by
    have hgained : w.gained (.append r force) = [r] := by
      simp only [gained, happend]
      rfl
    refine ⟨hgained, ?_⟩
    have hnew : w.landing (.append r force) = some s.id := by
      simp only [landing, hgained, Writing.step, happend, hb, hactive]
      rfl
    rw [hnew, hlanding]
    split <;> rfl
  rcases fits_or_refused w.appender w.disk r force with ⟨hr, hopen⟩ | ⟨x, happend⟩
  · have hheld : Octets.Whole (w.appender.holding r.form).buffer :=
      hwhole.append (Octets.whole_form hr)
    have hrow : Octets.records (w.appender.holding r.form).buffer = S ++ [r] := by
      rw [show (w.appender.holding r.form).buffer = w.appender.buffer ++ r.form from rfl,
        Octets.records_append hwhole, Octets.records_form hr, hrecords]
    have hnext : some s.id = if S ++ [r] = [] then none else some s.id := by simp
    cases h.append hopen hr force ho with
    | refused happend hadrift => exact hrefused happend hadrift
    | buffered happend =>
      obtain ⟨hgained, hL⟩ := hgranted happend rfl
      have hstep : w.step (.append r force) = ⟨w.appender.holding r.form, w.disk⟩ := by
        simp only [Writing.step, happend]
      rw [hgained, hL, hstep]
      exact .adrift hplace hactive (h.holding r.form) hheld hrow hnext
    | @flushed b d hflush happend =>
      have hb : b.active = w.appender.active := by
        have hsame := Appender.flush_active (w.appender.holding r.form) w.disk
        rw [hflush] at hsame
        exact hsame
      obtain ⟨hgained, hL⟩ := hgranted happend hb
      let held : Writing := ⟨w.appender.holding r.form, w.disk⟩
      have hstep : w.step (.append r force) = held.step .flush := by
        simp only [Writing.step, happend, held, hflush]
      rw [hgained, hL, hstep]
      exact Wake.step_flush (w := held) hplace hactive (h.holding r.form) hheld hrow hnext
    | @filled b d hne hflush happend =>
      obtain ⟨ws, hstands⟩ := stands_of_flush hplace h hne hflush
      have hb : b.active = w.appender.active := by
        have hsame := Appender.flush_active w.appender w.disk
        rw [hflush] at hsame
        exact hsame
      obtain ⟨hstep, hgained, hland⟩ := step_append_congr (v := ⟨b, d⟩) happend
      have hS : S ≠ [] := fun hS => hne (hwhole.eq_nil (hrecords.trans hS))
      rw [hactive] at hstands
      rw [hstep, hgained, hland]
      refine Wake.step_filled hwhole hstands (by rw [hrecords, List.append_nil])
        (by rw [hlanding, if_neg hS]) ?_
      change ¬ _
      rw [← happend, hb]
      exact ho
    | @passed n d hnil hlt hopened happend hnew =>
      obtain ⟨hstep, hgained, hland⟩ := step_append_congr
        (v := ⟨w.appender.moveTo (Segment.ofId (w.appender.active.id + 1)) n 0, d⟩) happend
      have hS : S = [] := by rw [← hrecords, hnil, Octets.records_nil]
      obtain ⟨base, hbase, hholds⟩ := h.holds
      have hstands : ∃ ws, Stands folder
          ⟨w.appender.moveTo (Segment.ofId (w.appender.active.id + 1)) n 0, d⟩ ⟨base, S⟩ ws [] := by
        rw [hS]
        rcases (Appender.openSegment_behind hholds (h.below hbase hlt) hopened).1 with hoff | hon
        · exact ⟨_, hplace, .off hoff, Octets.whole_nil, .same, Octets.records_nil⟩
        · exact ⟨_, hplace, .on hon, Octets.whole_nil, Grows.same.next _, Octets.records_nil⟩
      obtain ⟨ws, hstands⟩ := hstands
      rw [hstep, hgained, hland]
      refine Wake.step_passed (hactive ▸ hbase) hstands (.inr ⟨?_, ?_⟩) ?_
      · rw [← hactive]
        exact hlt
      · rw [hlanding, if_pos hS]
        exact (Option.some_ne_none _).symm
      · change ¬ _
        rw [← happend, hnew]
        exact UInt64.lt_irrefl _
  · exact hrefused happend h

/-- What happens next, as long as the log is not cut again. -/
theorem Wake.step (h : Wake folder front s settled gap w S L) (ho : w.Ordinary e) :
    Wake folder front s settled gap (w.step e) (S ++ w.gained e) (L <|> w.landing e) := by
  cases h with
  | passed hbase h hpassed => exact step_passed hbase h hpassed ho
  | filled hb h hrecords hlanding => exact step_filled hb h hrecords hlanding ho
  | adrift hplace hactive h hwhole hrecords hlanding =>
    have hflush := step_flush hplace hactive h hwhole hrecords hlanding
    cases e with
    | append r force => exact step_append hplace hactive h hwhole hrecords hlanding ho
    | flush => exact hflush.still
    | tick =>
      refine Wake.still ?_
      cases hc : w.appender.closed with
      | true =>
        have hstep : w.step .tick = w := by simp only [Writing.step, Appender.tick, hc, if_true]
        rw [hstep]
        exact .adrift hplace hactive h hwhole hrecords hlanding
      | false =>
        have hstep : w.step .tick = w.step .flush := by
          simp only [Writing.step, Appender.tick, hc, Bool.false_eq_true, if_false]
        rwa [hstep]
    | disturb d => exact Wake.still (.adrift hplace hactive (h.spares ho.1 ho.2) hwhole hrecords hlanding)
    | cut id offset => exact ho.elim
    | close => exact ho.elim

theorem Wake.run (h : Wake folder front s settled gap w S L) {es : List Event}
    (ho : w.Along Ordinary es) :
    Wake folder front s settled gap (w.run es) (S ++ w.gains es) (L <|> w.landing? es) := by
  induction es generalizing w S L with
  | nil => exact h.still
  | cons e es ih =>
    have hnext := ih (h.step ho.1) ho.2
    have hL : ((L <|> w.landing e) <|> (w.step e).landing? es) =
        (L <|> (w.landing e <|> (w.step e).landing? es)) := by
      cases L <;> rfl
    rwa [List.append_assoc, hL] at hnext

/-! ## What the log reads as in the wake -/

/-- Once the buffer is empty the log reads as what was kept and what was added, if there was no gap or
the first record went to a later segment. Otherwise it is damaged where the gap begins. -/
theorem Wake.recordsOf (h : Wake folder front s settled gap w S L) (hfront : Intact front)
    (hsettled : settled.Whole) (hgap : Ample gap) (hnil : w.appender.buffer = []) :
    Log.recordsOf w.disk folder =
      if gap = 0 ∨ L ≠ some s.id then .ok (recordsIn front ++ settled.records ++ S)
      else .error (.corruption (s.path folder) settled.length (.unknownKind 0)) := by
  cases h with
  | adrift hplace hactive h hwhole hrecords hlanding =>
    obtain ⟨base, hbase, hholds⟩ := h.holds
    have hintact := hbase.intact.mpr ⟨hfront, hsettled⟩
    have hS : S = [] := by rw [← hrecords, hnil, Octets.records_nil]
    have hL : L ≠ some s.id := by simp [hlanding, hS]
    rw [hplace] at hholds
    rw [if_pos (.inr hL), hholds.recordsOf, survey_of_intact hintact, hbase.recordsIn, hS,
      List.append_nil]
  | passed hbase h hpassed =>
    have hintact := hbase.intact.mpr ⟨hfront, hsettled⟩
    obtain ⟨hread, hrecords⟩ := h.log hintact
    rw [hnil, Octets.records_nil, List.append_nil] at hrecords
    rw [if_pos (hpassed.imp_right And.right), ← hbase.recordsIn, ← hrecords]
    exact hread
  | @filled bs added ws written hb h hrecords hlanding =>
    rcases hgap with rfl | hgap
    · have hwhole : Octets.Whole (settled ++ bs) := hsettled.append hb
      obtain ⟨hread, hlog⟩ := h.log (intact_append.mpr ⟨hfront, intact_singleton.mpr hwhole⟩)
      rw [hnil, Octets.records_nil, List.append_nil] at hlog
      rw [if_pos (.inl rfl), hread, hlog]
      simp [Octets.records_append hsettled, ← hrecords]
    · have hpos : gap ≠ 0 := by
        rintro rfl
        exact absurd hgap (by decide)
      obtain ⟨tail, back, rfl⟩ := h.grows.keeps
      have hholds := h.tracks.holds
      have hdamage : (survey (front ++
          ⟨s, settled ++ (List.replicate gap 0 ++ (bs ++ tail))⟩ :: back)).damage = _ :=
        survey_of_zeros hfront hsettled hgap
      rw [h.place, List.append_assoc, List.append_assoc] at hholds
      rw [if_neg (by simp [hpos, hlanding]), hholds.recordsOf, hdamage]
      rfl

end Writing

end SegmentLog
