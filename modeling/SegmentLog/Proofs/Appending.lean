import SegmentLog.Proofs.Flushing

/-!
What an appender does to the records of its log. The volumes of its folder grow by whole records
behind the last of them, and by new volumes (`Grows`), whatever they held before. Each operation
either succeeds or is refused by the disk: a flush moves the buffer to the disk (`Tracks.flush`); a
rotation moves no record from its place in the order (`Tracks.rotate`); an append adds one record at
the end or, if it is refused, none (`Tracks.append`). Of intact volumes and the buffer behind them
the records are those of the log (`Appender.Keeps`), so all this holds of the log as well.
-/

namespace SegmentLog

/-! ## Volumes that grow -/

/-- Volumes grow by these records. Whole records are added to the last volume, behind what it holds,
and new volumes behind all others. -/
inductive Grows (vs : List Volume) : List Volume → List Record → Prop
  | same : Grows vs vs []
  | rows {front : List Volume} {s : Segment} {settled bs : Octets} {rs : List Record}
    (h : Grows vs (front ++ [⟨s, settled⟩]) rs) (hb : bs.Whole) :
    Grows vs (front ++ [⟨s, settled ++ bs⟩]) (rs ++ bs.records)
  | next {ws : List Volume} {rs : List Record} (h : Grows vs ws rs) (s : Segment) :
    Grows vs (ws ++ [⟨s, []⟩]) rs

namespace Grows

variable {vs ws us : List Volume} {rs rs' : List Record}

theorem trans (h : Grows vs ws rs) (h' : Grows ws us rs') : Grows vs us (rs ++ rs') := by
  induction h' with
  | same =>
    rw [List.append_nil]
    exact h
  | rows _ hb ih =>
    rw [← List.append_assoc]
    exact ih.rows hb
  | next _ s ih => exact ih.next s

/-- A new volume that holds whole records. -/
theorem volume (h : Grows vs ws rs) (s : Segment) {bs : Octets} (hb : bs.Whole) :
    Grows vs (ws ++ [⟨s, bs⟩]) (rs ++ bs.records) :=
  (h.next s).rows hb

/-- What is added are the forms of the records, one behind the other. -/
theorem octets (h : Grows vs ws rs) :
    ∃ bs : Octets, bs.Whole ∧ bs.records = rs ∧ ws.flatMap (·.octets) = vs.flatMap (·.octets) ++ bs := by
  induction h with
  | same => exact ⟨[], Octets.whole_nil, Octets.records_nil, (List.append_nil _).symm⟩
  | @rows front s settled cs rs _ hb ih =>
    obtain ⟨bs, hbs, hrecords, hoctets⟩ := ih
    refine ⟨bs ++ cs, hbs.append hb, by rw [Octets.records_append hbs, hrecords], ?_⟩
    rw [← List.append_assoc, ← hoctets]
    simp
  | next _ s ih =>
    obtain ⟨bs, hbs, hrecords, hoctets⟩ := ih
    exact ⟨bs, hbs, hrecords, by simpa using hoctets⟩

/-- By which records volumes grew can be told from them. -/
theorem unique (h : Grows vs ws rs) (h' : Grows vs ws rs') : rs = rs' := by
  obtain ⟨bs, -, rfl, hoctets⟩ := h.octets
  obtain ⟨bs', -, rfl, hoctets'⟩ := h'.octets
  rw [List.append_cancel_left (hoctets.symm.trans hoctets')]

/-- Intact volumes stay intact, and hold the new records behind the others. -/
theorem intact (h : Grows vs ws rs) (hi : Intact vs) :
    Intact ws ∧ recordsIn ws = recordsIn vs ++ rs := by
  induction h with
  | same => exact ⟨hi, (List.append_nil _).symm⟩
  | @rows front s settled cs rs _ hb ih =>
    obtain ⟨hfront, hrecords⟩ := ih
    rw [intact_append, intact_singleton] at hfront
    refine ⟨intact_append.mpr ⟨hfront.1, intact_singleton.mpr (hfront.2.append hb)⟩, ?_⟩
    rw [← List.append_assoc, ← hrecords]
    simp [Octets.records_append hfront.2]
  | next _ s ih =>
    refine ⟨intact_append.mpr ⟨ih.1, intact_singleton.mpr Octets.whole_nil⟩, ?_⟩
    simp [ih.2]

end Grows

namespace Appender

variable {a : Appender} {d : Disk} {vs front : List Volume} {settled : Octets}

/-! ## One appender after another -/

/-- From one appender to another these records were added at the end. By some of them the volumes
grew, and the others are in the buffer. -/
structure Writes (a : Appender) (d : Disk) (vs : List Volume) (new : List Record) (b : Appender)
    (d' : Disk) (ws : List Volume) (written : List Record) : Prop where
  tracks : Tracks b d' ws
  whole : b.buffer.Whole
  grows : Grows vs ws written
  records : written ++ Octets.records b.buffer = Octets.records a.buffer ++ new
  terms : SameTerms a b
  ready : a.Ready d → b.Ready d'

theorem Tracks.drop_file (h : Tracks a d vs) : Tracks { a with file := none } d vs := by
  cases h with
  | on h => exact .on ⟨h.holds, h.offset, fun n hn => by cases hn⟩
  | off h => exact .off ⟨h.holds, h.above, h.active, h.offset, fun n hn => by cases hn⟩

theorem Ready.drop_file (h : a.Ready d) : Ready { a with file := none } d :=
  ⟨h.clear, h.willing, by simp⟩

theorem Tracks.writes (h : Tracks a d vs) (hb : a.buffer.Whole) : Writes a d vs [] a d vs [] :=
  ⟨h, hb, .same, by simp, SameTerms.refl a, id⟩

theorem Tracks.writes_drop_file (h : Tracks a d vs) (hb : a.buffer.Whole) :
    Writes a d vs [] { a with file := none } d vs [] :=
  ⟨h.drop_file, hb, .same, by simp, ⟨rfl, rfl, rfl, rfl, rfl⟩, Ready.drop_file⟩

theorem Writes.trans {b c : Appender} {d' d'' : Disk} {ws us : List Volume}
    {S S' rs rs' : List Record} (h : Writes a d vs rs b d' ws S)
    (h' : Writes b d' ws rs' c d'' us S') : Writes a d vs (rs ++ rs') c d'' us (S ++ S') :=
  ⟨h'.tracks, h'.whole, h.grows.trans h'.grows,
    by rw [List.append_assoc, h'.records, ← List.append_assoc, h.records, List.append_assoc],
    h.terms.trans h'.terms, fun hr => h'.ready (h.ready hr)⟩

/-- A refused flush leaves the volumes as they were, or with an empty one behind them. -/
theorem Tracks.writes_refused {d' : Disk} {ws : List Volume}
    (h : Tracks { a with file := none } d' ws) (hb : a.buffer.Whole) (hg : Grows vs ws [])
    (hnot : ¬ a.Ready d) : Writes a d vs [] { a with file := none } d' ws [] :=
  ⟨h, hb, hg, by simp, ⟨rfl, rfl, rfl, rfl, rfl⟩, fun hr => absurd hr hnot⟩

/-- A flush moves the buffer to the disk, or it is refused and moves nothing. -/
theorem Tracks.flush (h : Tracks a d vs) (hb : a.buffer.Whole) :
    (∃ f d' ws S, a.flush d = (.ok (), { a with file := f, buffer := [] }, d') ∧
      Writes a d vs [] { a with file := f, buffer := [] } d' ws S) ∨
    (∃ e d' ws, a.flush d = (.error e, { a with file := none }, d') ∧
      Writes a d vs [] { a with file := none } d' ws [] ∧ e.isIo = true ∧ ¬ a.Ready d) := by
  have hterms (f : Option Node) : SameTerms a { a with file := f, buffer := [] } :=
    ⟨rfl, rfl, rfl, rfl, rfl⟩
  cases h with
  | @on front settled hon =>
    rcases hon.flush with ⟨f, d', hflush, hon', hready⟩ | ⟨e, d', hflush, hon', hio, hnot⟩
    · exact .inl ⟨f, d', _, _, hflush, .on hon', Octets.whole_nil, Grows.same.rows hb, by simp,
        hterms f, hready⟩
    · exact .inr ⟨e, d', _, hflush, Tracks.writes_refused (.on hon') hb .same hnot, hio, hnot⟩
  | off hoff =>
    by_cases hempty : a.buffer = []
    · have hsame : { a with file := a.file, buffer := [] } = a := by rw [← hempty]
      refine .inl ⟨a.file, d, vs, [], ?_, ?_⟩
      · rw [hsame, Appender.flush, if_pos hempty]
      · rw [hsame]
        exact Tracks.writes (.off hoff) hb
    · rcases hoff.flush hempty with
        ⟨f, d', hflush, hon', hready⟩ | ⟨e, d', hflush, rfl | hon', hio, hnot⟩
      · exact .inl ⟨f, d', _, _, hflush, .on hon', Octets.whole_nil, Grows.same.volume _ hb,
          by simp, hterms f, hready⟩
      · exact .inr ⟨e, _, vs, hflush, Tracks.writes_drop_file (.off hoff) hb, hio, hnot⟩
      · exact .inr ⟨e, d', _, hflush,
          Tracks.writes_refused (.on hon') hb (.next .same a.active) hnot, hio, hnot⟩

/-! ## Appending -/

theorem flush_active (a : Appender) (d : Disk) : (a.flush d).2.1.active = a.active := by
  have hwrite (n : Node) (d : Disk) : (a.writeOut d n).2.1.active = a.active := by
    unfold writeOut
    split
    · rfl
    · split <;> rfl
  unfold Appender.flush
  split
  · rfl
  · split
    · exact hwrite _ d
    · split
      · rfl
      · exact hwrite _ _

theorem letGo_active (a : Appender) (d : Disk) : (a.letGo d).2.1.active = a.active := by
  unfold letGo
  split
  · rfl
  · split <;> rfl

theorem letGo_disk (a : Appender) (d : Disk) : (a.letGo d).2.2 = d := by
  unfold letGo
  split
  · rfl
  · split <;> rfl

theorem close_active (a : Appender) (d : Disk) : (a.close d).2.1.active = a.active := by
  unfold Appender.close
  split
  · rfl
  · have hfirst := flush_active { a with closed := true } d
    rcases hf : { a with closed := true }.flush d with ⟨answer, b, d'⟩
    rw [hf] at hfirst
    have hsecond := flush_active b d'
    rcases hg : b.flush d' with ⟨answer', c, d''⟩
    rw [hg] at hsecond
    rw [hf]
    simp only [hg]
    cases answer' with
    | error e => exact hsecond.trans hfirst
    | ok _ => exact (letGo_active c d'').trans (hsecond.trans hfirst)

theorem enqueue_active (a : Appender) (d : Disk) (bs : Octets) (force : Bool) :
    (a.enqueue d bs force).2.1.active = a.active := by
  have hflush := flush_active { a with buffer := a.buffer ++ bs, offset := a.offset + bs.length } d
  unfold enqueue
  dsimp only
  split
  · split
    · rename_i heq
      rw [heq] at hflush
      exact hflush
    · rename_i heq
      rw [heq] at hflush
      exact hflush
  · rfl

theorem rotate_active (a : Appender) (d : Disk) : (a.rotate d).2.1.active = a.active ∨
    (a.rotate d).2.1.active = Segment.ofId (a.active.id + 1) := by
  have hflush := flush_active a d
  unfold Appender.rotate
  rcases hf : a.flush d with ⟨answer, b, d'⟩
  rw [hf] at hflush
  cases answer with
  | error e => exact .inl hflush
  | ok _ =>
    dsimp only
    rw [hflush]
    split
    · exact .inl rfl
    · exact .inr rfl

/-- An append stays in its segment or goes on in the next one. -/
theorem append_active (a : Appender) (d : Disk) (r : Record) (force : Bool) :
    (a.append d r force).2.1.active = a.active ∨
    (a.append d r force).2.1.active = Segment.ofId (a.active.id + 1) := by
  unfold Appender.append
  split
  · exact .inl rfl
  · rename_i bs _
    split
    · exact .inl rfl
    · have hroom : (a.makeRoom d bs.length).2.1.active = a.active ∨
          (a.makeRoom d bs.length).2.1.active = Segment.ofId (a.active.id + 1) := by
        unfold Appender.makeRoom
        split
        · exact rotate_active a d
        · exact .inl rfl
      rcases hm : a.makeRoom d bs.length with ⟨answer, b, d₁⟩
      rw [hm] at hroom
      cases answer with
      | error e => exact hroom
      | ok _ =>
        have hactive := enqueue_active b d₁ bs force
        rcases he : b.enqueue d₁ bs force with ⟨answer, c, d₂⟩
        rw [he] at hactive
        dsimp only at hroom hactive
        rw [← hactive] at hroom
        simp only [he]
        cases answer <;> exact hroom

/-- An append that gets as far as the buffer stays where room was made. -/
theorem append_active_eq {r : Record} (hr : r.Fits) (hopen : a.closed = false) (force : Bool) :
    (a.append d r force).2.1.active = (a.makeRoom d r.form.length).2.1.active := by
  simp only [Appender.append, Record.encode_of_fits hr, hopen]
  rcases a.makeRoom d r.form.length with ⟨answer, b, d₁⟩
  cases answer with
  | error e => rfl
  | ok _ =>
    have hactive := enqueue_active b d₁ r.form force
    rcases he : b.enqueue d₁ r.form force with ⟨answer, c, d₂⟩
    rw [he] at hactive
    cases answer <;> simpa [he] using hactive

theorem lt_succ_of_not_lt {id : UInt64} (h : ¬ id + 1 < id) : id < id + 1 := by
  refine UInt64.lt_of_le_of_ne (UInt64.not_lt.mp h) ?_
  intro he
  have hone : (id + 1).toNat = id.toNat := by rw [← he]
  have hbound := id.toNat_lt
  rw [UInt64.toNat_add] at hone
  simp at hone
  omega

/-- A rotation flushes and goes on in a new segment, or it is refused. -/
theorem Tracks.rotate (h : Tracks a d vs) (hb : a.buffer.Whole)
    (hw : ¬ (a.rotate d).2.1.active.id < a.active.id) :
    ∃ answer b d' ws S, a.rotate d = (answer, b, d') ∧ Writes a d vs [] b d' ws S ∧
      ∀ e, answer = .error e → e.isIo = true ∧ ¬ a.Ready d := by
  rcases h.flush hb with
    ⟨f, d₁, ws, S, hflush, hwrites⟩ | ⟨e, d₁, ws, hflush, hwrites, hio, hready⟩
  · cases hopen : openSegment d₁ a.folder (Segment.ofId (a.active.id + 1)) with
    | error e =>
      have hgone := hwrites.trans (hwrites.tracks.writes_drop_file hwrites.whole)
      refine ⟨.error e, { a with file := none, buffer := [] }, d₁, ws, _, ?_, hgone, ?_⟩
      · simp only [Appender.rotate, hflush, hopen]
      · rintro _ ⟨⟩
        unfold openSegment at hopen
        cases hwrite : d₁.openWrite ((Segment.ofId (a.active.id + 1)).place a.folder) with
        | ok opened => simp [hwrite] at hopen
        | error f =>
          rw [hwrite] at hopen
          cases hopen
          refine ⟨rfl, fun hr => ?_⟩
          obtain ⟨_, _, hok⟩ := (hwrites.ready hr).clear.openWrite hwrites.tracks.holds.tidy
            (a.active.id + 1)
          rw [hwrite] at hok
          cases hok
    | ok opened =>
      obtain ⟨n, length, d'⟩ := opened
      have hrotate : a.rotate d =
          (.ok (), a.moveTo (Segment.ofId (a.active.id + 1)) n length, d') := by
        simp only [Appender.rotate, hflush, hopen, moveTo]
      -- numbers go up, so the new segment stands behind all others
      have hlt : a.active.id < a.active.id + 1 := by
        rw [hrotate] at hw
        exact lt_succ_of_not_lt hw
      have habove : ∀ w ∈ ws, w.segment.id < a.active.id + 1 :=
        fun w hw => UInt64.lt_of_le_of_lt (hwrites.tracks.id_le hw) hlt
      obtain ⟨hbehind, hready⟩ := openSegment_behind hwrites.tracks.holds habove hopen
      have hmoved {us : List Volume}
          (ht : Tracks (a.moveTo (Segment.ofId (a.active.id + 1)) n length) d' us)
          (hgrows : Grows vs us S) :
          Writes a d vs [] (a.moveTo (Segment.ofId (a.active.id + 1)) n length) d' us S :=
        ⟨ht, Octets.whole_nil, hgrows, hwrites.records, ⟨rfl, rfl, rfl, rfl, rfl⟩,
          fun hr => (hready (hwrites.ready hr).clear).2 (hwrites.ready hr).willing⟩
      rcases hbehind with hoff | hon
      · exact ⟨.ok (), _, d', _, S, hrotate, hmoved (.off hoff) hwrites.grows,
          fun e he => by cases he⟩
      · exact ⟨.ok (), _, d', _, S, hrotate, hmoved (.on hon) (hwrites.grows.next _),
          fun e he => by cases he⟩
  · refine ⟨.error e, { a with file := none }, d₁, ws, [], ?_, hwrites, ?_⟩
    · simp only [Appender.rotate, hflush]
    · rintro _ ⟨⟩
      exact ⟨hio, hready⟩

theorem Tracks.makeRoom (h : Tracks a d vs) (hb : a.buffer.Whole) (length : Nat)
    (hw : ¬ (a.makeRoom d length).2.1.active.id < a.active.id) :
    ∃ answer b d' ws S, a.makeRoom d length = (answer, b, d') ∧ Writes a d vs [] b d' ws S ∧
      ∀ e, answer = .error e → e.isIo = true ∧ ¬ a.Ready d := by
  unfold Appender.makeRoom at hw ⊢
  split
  · rename_i hover
    rw [if_pos hover] at hw
    exact h.rotate hb hw
  · exact ⟨.ok (), a, d, vs, [], rfl, h.writes hb, fun e he => by cases he⟩

/-- The appender with more octets in its buffer. -/
def holding (a : Appender) (bs : Octets) : Appender :=
  { a with buffer := a.buffer ++ bs, offset := a.offset + bs.length }

theorem OnFile.holding (h : OnFile a d front settled) (bs : Octets) :
    OnFile (a.holding bs) d front settled := by
  refine ⟨h.holds, ?_, h.file⟩
  have hoffset := h.offset
  simp only [Appender.holding, List.length_append]
  omega

theorem OffFile.holding (h : OffFile a d vs) (bs : Octets) : OffFile (a.holding bs) d vs := by
  refine ⟨h.holds, h.above, h.active, ?_, h.file⟩
  have hoffset := h.offset
  simp only [Appender.holding, List.length_append]
  omega

theorem Tracks.holding (h : Tracks a d vs) (bs : Octets) : Tracks (a.holding bs) d vs := by
  cases h with
  | on h => exact .on (h.holding bs)
  | off h => exact .off (h.holding bs)

/-- What was put into the buffer can be taken out again. -/
theorem Tracks.of_holding {bs : Octets} (h : Tracks (a.holding bs) d vs) : Tracks a d vs := by
  have hsum {n : Nat} (ho : n + (a.buffer ++ bs).length = a.offset + bs.length) :
      n + a.buffer.length = a.offset := by
    rw [List.length_append] at ho
    omega
  cases h with
  | on h => exact .on ⟨h.holds, hsum h.offset, h.file⟩
  | off h =>
    have hoffset := hsum ((Nat.zero_add _).trans h.offset)
    exact .off ⟨h.holds, h.above, h.active, (Nat.zero_add _).symm.trans hoffset, h.file⟩

/-- With such a buffer an append flushes. -/
def Flushes (a : Appender) (force : Bool) : Prop :=
  (force || a.sync || decide (a.bufferLimit ≤ a.buffer.length)) = true

theorem enqueue_of_buffer {bs : Octets} {force : Bool} (h : ¬ (a.holding bs).Flushes force) :
    a.enqueue d bs force = (.ok (), a.holding bs, d) :=
  if_neg h

theorem enqueue_of_flush {bs : Octets} {force : Bool} {b : Appender} {d' : Disk}
    (h : (a.holding bs).Flushes force) (hflush : (a.holding bs).flush d = (.ok (), b, d')) :
    a.enqueue d bs force = (.ok (), b, d') := by
  refine (if_pos h).trans ?_
  unfold Appender.holding at hflush
  rw [hflush]

/-- Octets whose flush is refused are taken out again. -/
theorem enqueue_of_refused {bs : Octets} {force : Bool} {e : Error} {f : Option Node} {d' : Disk}
    (h : (a.holding bs).Flushes force)
    (hflush : (a.holding bs).flush d = (.error e, { a.holding bs with file := f }, d')) :
    a.enqueue d bs force = (.error e, { a with file := f }, d') := by
  refine (if_pos h).trans ?_
  unfold Appender.holding at hflush
  rw [hflush]
  simp

/-- A record enters the buffer and goes to the disk where it has to; refused, it leaves again. -/
theorem Tracks.enqueue (h : Tracks a d vs) (hb : a.buffer.Whole) {r : Record} (hr : r.Fits)
    (force : Bool) :
    (∃ b d' ws S, a.enqueue d r.form force = (.ok (), b, d') ∧ Writes a d vs [r] b d' ws S ∧
      ((force || a.sync) = true → b.buffer = [])) ∨
    (∃ e d' ws, a.enqueue d r.form force = (.error e, { a with file := none }, d') ∧
      Writes a d vs [] { a with file := none } d' ws [] ∧ e.isIo = true ∧ ¬ a.Ready d) := by
  have hgrown := h.holding r.form
  have hwhole : (a.holding r.form).buffer.Whole := hb.append (Octets.whole_form hr)
  have hrecords : Octets.records (a.holding r.form).buffer = Octets.records a.buffer ++ [r] := by
    rw [show (a.holding r.form).buffer = a.buffer ++ r.form from rfl, Octets.records_append hb,
      Octets.records_form hr]
  have hready : a.Ready d → (a.holding r.form).Ready d := fun h => ⟨h.clear, h.willing, h.file⟩
  by_cases hflushes : (a.holding r.form).Flushes force
  · rcases hgrown.flush hwhole with
      ⟨f, d', ws, S, hflush, hwrites⟩ | ⟨e, d', ws, hflush, hwrites, hio, hnot⟩
    · refine .inl ⟨_, d', ws, S, enqueue_of_flush hflushes hflush, ?_, fun _ => rfl⟩
      refine ⟨hwrites.tracks, hwrites.whole, hwrites.grows, ?_, ⟨rfl, rfl, rfl, rfl, rfl⟩,
        fun h => hwrites.ready (hready h)⟩
      rw [hwrites.records, hrecords, List.append_nil]
    · have htracks : Tracks ({ a with file := none }.holding r.form) d' ws := hwrites.tracks
      exact .inr ⟨e, d', ws, enqueue_of_refused hflushes hflush,
        htracks.of_holding.writes_refused hb hwrites.grows fun h => hnot (hready h), hio,
        fun h => hnot (hready h)⟩
  · refine .inl ⟨_, d, vs, [], enqueue_of_buffer hflushes, ?_, ?_⟩
    · exact ⟨hgrown, hwhole, .same, hrecords, ⟨rfl, rfl, rfl, rfl, rfl⟩, hready⟩
    · intro hforce
      rw [Flushes, show (a.holding r.form).sync = a.sync from rfl, hforce, Bool.true_or] at hflushes
      exact absurd rfl hflushes

/-- An append adds its record at the end of the log, or it is refused and adds nothing. -/
theorem Tracks.append (h : Tracks a d vs) (hb : a.buffer.Whole) (hopen : a.closed = false)
    {r : Record} (hr : r.Fits) (force : Bool)
    (hw : ¬ (a.append d r force).2.1.active.id < a.active.id) :
    ∃ b d' ws S,
      (a.append d r force = (.ok r.sequence, b, d') ∧ Writes a d vs [r] b d' ws S ∧
        ((force || a.sync) = true → b.buffer = [])) ∨
      (∃ e, a.append d r force = (.error e, b, d') ∧ Writes a d vs [] b d' ws S ∧
        e.isIo = true ∧ ¬ a.Ready d) := by
  have hencode := Record.encode_of_fits hr
  have hwroom : ¬ (a.makeRoom d r.form.length).2.1.active.id < a.active.id := by
    rwa [← append_active_eq hr hopen force]
  obtain ⟨answer, b, d₁, ws, S, hroom, hwrites, herror⟩ := h.makeRoom hb r.form.length hwroom
  cases answer with
  | error e =>
    refine ⟨b, d₁, ws, S, .inr ⟨e, ?_, hwrites, herror e rfl⟩⟩
    simp only [Appender.append, hencode, hopen, hroom, Bool.false_eq_true, if_false]
  | ok _ =>
    rcases hwrites.tracks.enqueue hwrites.whole hr force with
      ⟨c, d', us, S', henqueue, hwrites', hforce⟩ | ⟨e, d', us, henqueue, hwrites', hio, hready⟩
    · refine ⟨c, d', us, _, .inl ⟨?_, hwrites.trans hwrites', ?_⟩⟩
      · simp only [Appender.append, hencode, hopen, hroom, henqueue, Bool.false_eq_true, if_false]
      · rw [← hwrites.terms.sync]
        exact hforce
    · refine ⟨{ b with file := none }, d', us, _, .inr ⟨e, ?_, hwrites.trans hwrites', hio, ?_⟩⟩
      · simp only [Appender.append, hencode, hopen, hroom, henqueue, Bool.false_eq_true, if_false]
      · exact fun hr => hready (hwrites.ready hr)

/-! ## Closing -/

/-- Letting go of the file is refused for a full device only. -/
theorem letGo_spec (a : Appender) (ht : d.Tidy) :
    ∃ answer, a.letGo d = (answer, { a with file := none }, d) ∧
      ∀ e, answer = .error e → e.isIo = true ∧ ¬ a.Ready d := by
  unfold Appender.letGo
  cases hf : a.file with
  | none =>
    have hsame : { a with file := none } = a := by rw [← hf]
    exact ⟨.ok (), by simp only [hsame], fun e he => by cases he⟩
  | some n =>
    dsimp only
    split
    · rename_i f hsync
      refine ⟨.error (.io .syncSegment a.path f), rfl, ?_⟩
      rintro _ ⟨⟩
      refine ⟨rfl, fun hr => ?_⟩
      split at hsync
      · -- only a full device cannot be synced
        cases n with
        | full => exact hr.file hf
        | file body => simp [Disk.sync, (ht body).syncing] at hsync
        | folder => cases hsync
      · cases hsync
    · exact ⟨.ok (), rfl, fun e he => by cases he⟩

/-- A flush leaves an appender that has all records, whether it is refused or not. -/
theorem Tracks.flush_writes (h : Tracks a d vs) (hb : a.buffer.Whole) :
    ∃ answer b d' ws S, a.flush d = (answer, b, d') ∧ Writes a d vs [] b d' ws S ∧
      (answer = .ok () → b.buffer = []) ∧ ∀ e, answer = .error e → e.isIo = true ∧ ¬ a.Ready d := by
  rcases h.flush hb with
    ⟨f, d', ws, S, hflush, hwrites⟩ | ⟨e, d', ws, hflush, hwrites, hio, hready⟩
  · exact ⟨.ok (), _, d', ws, S, hflush, hwrites, fun _ => rfl, fun e he => by cases he⟩
  · refine ⟨.error e, _, d', ws, [], hflush, hwrites, fun he => (by cases he), ?_⟩
    rintro _ ⟨⟩
    exact ⟨hio, hready⟩

/-- Closing flushes the buffer, or it is refused and the buffer is all that is not on disk. -/
theorem Tracks.close (h : Tracks a d vs) (hb : a.buffer.Whole) (hopen : a.closed = false) :
    ∃ answer b d' ws S, a.close d = (answer, b, d') ∧
      Writes { a with closed := true } d vs [] b d' ws S ∧
      (answer = .ok () → b.buffer = []) ∧ ∀ e, answer = .error e → e.isIo = true ∧ ¬ a.Ready d := by
  let shut := { a with closed := true }
  have hshut : Tracks shut d vs := by
    cases h with
    | on hon => exact .on ⟨hon.holds, hon.offset, hon.file⟩
    | off hoff => exact .off ⟨hoff.holds, hoff.above, hoff.active, hoff.offset, hoff.file⟩
  have hready : a.Ready d → shut.Ready d := fun h => ⟨h.clear, h.willing, h.file⟩
  obtain ⟨answer₁, b, d₁, ws, S, hflush, hwrites, -, -⟩ := hshut.flush_writes hb
  obtain ⟨answer₂, c, d₂, us, S', hflush', hwrites', hempty, herror⟩ :=
    hwrites.tracks.flush_writes hwrites.whole
  have hboth := hwrites.trans hwrites'
  have hclose : a.close d =
      match answer₂ with
      | .error e => (.error e, c, d₂)
      | .ok _ => c.letGo d₂ := by
    simp only [Appender.close, hopen, Bool.false_eq_true, if_false]
    simp only [shut] at hflush
    rw [hflush]
    simp only [hflush']
    cases answer₂ <;> rfl
  cases answer₂ with
  | error e =>
    refine ⟨.error e, c, d₂, us, _, hclose, hboth, fun he => (by cases he), ?_⟩
    rintro _ ⟨⟩
    obtain ⟨hio, hnot⟩ := herror e rfl
    exact ⟨hio, fun hr => hnot (hwrites.ready (hready hr))⟩
  | ok _ =>
    obtain ⟨answer, hgone, hrefused⟩ := letGo_spec c hwrites'.tracks.holds.tidy
    have hlast := hboth.trans (hboth.tracks.writes_drop_file hboth.whole)
    refine ⟨answer, { c with file := none }, d₂, us, _, hclose.trans hgone, hlast,
      fun _ => hempty rfl, ?_⟩
    intro e he
    obtain ⟨hio, hnot⟩ := hrefused e he
    exact ⟨hio, fun hr => hnot (hboth.ready (hready hr))⟩

theorem Tracks.tick (h : Tracks a d vs) (hb : a.buffer.Whole) :
    ∃ b d' ws S, a.tick d = (b, d') ∧ Writes a d vs [] b d' ws S := by
  unfold Appender.tick
  split
  · exact ⟨a, d, vs, [], rfl, h.writes hb⟩
  · obtain ⟨answer, b, d', ws, S, hflush, hwrites, -, -⟩ := h.flush_writes hb
    exact ⟨b, d', ws, S, by rw [hflush], hwrites⟩

/-! ## Records on disk and in the buffer -/

/-- Of the records of the log these stand on disk, and those in the buffer. -/
def Keeps (a : Appender) (d : Disk) (stored buffered : List Record) : Prop :=
  ∃ vs, Tracks a d vs ∧ Intact vs ∧ a.buffer.Whole ∧ recordsIn vs = stored ∧
    Octets.records a.buffer = buffered

/-- From one appender to another these records were added at the end, and what stood on disk
still stands there. -/
structure Advances (a : Appender) (d : Disk) (stored buffered new : List Record) (b : Appender)
    (d' : Disk) (stored' buffered' : List Record) : Prop where
  keeps : Keeps b d' stored' buffered'
  records : stored' ++ buffered' = stored ++ buffered ++ new
  stored : stored <+: stored'
  terms : SameTerms a b
  ready : a.Ready d → b.Ready d'

variable {D B : List Record}

/-- Over intact volumes the records of the log are those of the volumes and the buffer. -/
theorem Writes.advances {b : Appender} {d' : Disk} {ws : List Volume} {S rs : List Record}
    (h : Writes a d vs rs b d' ws S) (hi : Intact vs) :
    Advances a d (recordsIn vs) (Octets.records a.buffer) rs b d' (recordsIn vs ++ S)
      (Octets.records b.buffer) := by
  obtain ⟨hintact, hrecords⟩ := h.grows.intact hi
  refine ⟨⟨ws, h.tracks, hintact, h.whole, hrecords, rfl⟩, ?_, List.prefix_append _ _, h.terms,
    h.ready⟩
  rw [List.append_assoc, h.records, List.append_assoc]

/-- An append adds its record to those of the log, or it is refused and adds nothing. -/
theorem Keeps.append (h : Keeps a d D B) (hopen : a.closed = false) {r : Record} (hr : r.Fits)
    (force : Bool) (hw : ¬ (a.append d r force).2.1.active.id < a.active.id) :
    ∃ b d' S T,
      (a.append d r force = (.ok r.sequence, b, d') ∧ Advances a d D B [r] b d' S T ∧
        ((force || a.sync) = true → T = [])) ∨
      (∃ e, a.append d r force = (.error e, b, d') ∧ Advances a d D B [] b d' S T ∧
        e.isIo = true ∧ ¬ a.Ready d) := by
  obtain ⟨vs, htracks, hintact, hwhole, rfl, rfl⟩ := h
  obtain ⟨b, d', ws, S, ⟨happend, hwrites, hforce⟩ | ⟨e, happend, hwrites, hrefused⟩⟩ :=
    htracks.append hwhole hopen hr force hw
  · refine ⟨b, d', _, _, .inl ⟨happend, hwrites.advances hintact, fun h => ?_⟩⟩
    rw [hforce h, Octets.records_nil]
  · exact ⟨b, d', _, _, .inr ⟨e, happend, hwrites.advances hintact, hrefused⟩⟩

/-- A flush keeps all records, whether it is refused or not. -/
theorem Keeps.flush_advances (h : Keeps a d D B) :
    ∃ answer b d' S T, a.flush d = (answer, b, d') ∧ Advances a d D B [] b d' S T ∧
      (answer = .ok () → T = []) ∧ ∀ e, answer = .error e → e.isIo = true ∧ ¬ a.Ready d := by
  obtain ⟨vs, htracks, hintact, hwhole, rfl, rfl⟩ := h
  obtain ⟨answer, b, d', ws, S, hflush, hwrites, hempty, herror⟩ := htracks.flush_writes hwhole
  refine ⟨answer, b, d', _, _, hflush, hwrites.advances hintact, fun hok => ?_, herror⟩
  rw [hempty hok, Octets.records_nil]

/-- After a closing all records are on disk, or it is refused and loses none. -/
theorem Keeps.close (h : Keeps a d D B) (hopen : a.closed = false) :
    ∃ answer b d' S T, a.close d = (answer, b, d') ∧
      Advances { a with closed := true } d D B [] b d' S T ∧
      (answer = .ok () → T = []) ∧ ∀ e, answer = .error e → e.isIo = true ∧ ¬ a.Ready d := by
  obtain ⟨vs, htracks, hintact, hwhole, rfl, rfl⟩ := h
  obtain ⟨answer, b, d', ws, S, hclose, hwrites, hempty, herror⟩ := htracks.close hwhole hopen
  refine ⟨answer, b, d', _, _, hclose, hwrites.advances hintact, fun hok => ?_, herror⟩
  rw [hempty hok, Octets.records_nil]

theorem Keeps.tick (h : Keeps a d D B) :
    ∃ b d' S T, a.tick d = (b, d') ∧ Advances a d D B [] b d' S T := by
  obtain ⟨vs, htracks, hintact, hwhole, rfl, rfl⟩ := h
  obtain ⟨b, d', ws, S, htick, hwrites⟩ := htracks.tick hwhole
  exact ⟨b, d', _, _, htick, hwrites.advances hintact⟩

end Appender

end SegmentLog
