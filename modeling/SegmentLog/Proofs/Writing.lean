import SegmentLog.Proofs.Durability

/-!
An appender in use. Records are appended, the buffer is flushed, the clock ticks, the log is cut, the
appender is closed, and others change the disk around its segments. Whatever the segments held when
it was opened, they grow by the records of the granted appends, and those that are not on disk are in
the buffer behind them (`Writing.Stands.run`); a refused append adds nothing, whatever it did on the
way. A cut removes records on purpose, so what is on disk after it counts as found.
-/

namespace SegmentLog

structure Writing where
  appender : Appender
  disk : Disk

namespace Writing

inductive Event
  | append (r : Record) (force : Bool)
  | flush
  /-- A tick of the clock. -/
  | tick
  | cut (id : UInt64) (offset : Nat)
  | close
  /-- Others change the disk. -/
  | disturb (d : Disk)

def step (w : Writing) : Event → Writing
  | .append r force =>
    match w.appender.append w.disk r force with
    | (_, a, d) => ⟨a, d⟩
  | .flush =>
    match w.appender.flush w.disk with
    | (_, a, d) => ⟨a, d⟩
  | .tick =>
    match w.appender.tick w.disk with
    | (a, d) => ⟨a, d⟩
  | .cut id offset =>
    match w.appender.cut w.disk id offset with
    | (_, a, d) => ⟨a, d⟩
  | .close =>
    match w.appender.close w.disk with
    | (_, a, d) => ⟨a, d⟩
  | .disturb d => { w with disk := d }

def run (w : Writing) (es : List Event) : Writing := es.foldl step w

/-- The volumes that an appender found when it was opened or cut, and the records of the granted
appends since. -/
structure Progress where
  found : List Volume
  added : List Record
  deriving DecidableEq

def Progress.after (p : Progress) (w : Writing) : Event → Progress
  | .append r force =>
    if (w.appender.append w.disk r force).1.isOk then { p with added := p.added ++ [r] } else p
  | .cut id offset =>
    match w.appender.cut w.disk id offset with
    | (.error _, _, _) => p
    | (.ok _, a, d) => ⟨d.volumes a.folder, []⟩
  | .flush | .tick | .close | .disturb _ => p

def progress (w : Writing) (p : Progress) : List Event → Progress
  | [] => p
  | e :: rest => (w.step e).progress (p.after w e) rest

abbrev Along (P : Writing → Event → Prop) (w : Writing) (es : List Event) : Prop :=
  SegmentLog.Along step P w es

theorem along_append {P : Writing → Event → Prop} {w : Writing} {es fs : List Event} :
    w.Along P (es ++ fs) ↔ w.Along P es ∧ (w.run es).Along P fs := SegmentLog.Along.append

/-- Others leave the segments alone, numbers of segments do not start over, and a cut is made at a
place that is on disk. New segments and writes may be refused, if nothing is left of them. -/
def Allowed (w : Writing) : Event → Prop
  | .append r force => ¬ (w.appender.append w.disk r force).2.1.active.id < w.appender.active.id
  | .cut id offset =>
    ∃ v ∈ w.disk.volumes w.appender.folder, v.segment.id = id ∧ offset ≤ v.octets.length
  | .disturb d => Disk.Spares w.appender.folder w.disk d
  | .flush | .tick | .close => True

def Grants (w : Writing) : Event → Prop
  | .close => (w.appender.close w.disk).1 = .ok ()
  | _ => True

/-- The volumes of the folder have grown to these by some of the records that were added, and the
others are in the buffer. -/
structure Stands (folder : String) (w : Writing) (p : Progress) (vs : List Volume)
    (written : List Record) : Prop where
  place : w.appender.folder = folder
  tracks : w.appender.Tracks w.disk vs
  whole : w.appender.buffer.Whole
  grows : Grows p.found vs written
  records : written ++ Octets.records w.appender.buffer = p.added

variable {folder : String} {w : Writing} {p : Progress} {vs : List Volume} {S : List Record}

theorem Stands.writes (h : w.Stands folder p vs S) {a b : Appender} {d : Disk} {ws : List Volume}
    {rs S' : List Record} (hf : a.folder = w.appender.folder) (hb : a.buffer = w.appender.buffer)
    (hw : a.Writes w.disk vs rs b d ws S') :
    Stands folder ⟨b, d⟩ { p with added := p.added ++ rs } ws (S ++ S') := by
  refine ⟨hw.terms.folder.trans (hf.trans h.place), hw.tracks, hw.whole, h.grows.trans hw.grows, ?_⟩
  rw [List.append_assoc, hw.records, hb, ← List.append_assoc, h.records]

/-- An append that is not granted before it comes to the disk changes nothing. -/
theorem append_of_unfit {a : Appender} {d : Disk} {r : Record} {force : Bool}
    (h : ¬ r.Fits ∨ a.closed = true) : ∃ e, a.append d r force = (.error e, a, d) := by
  cases he : r.encode with
  | error e => exact ⟨e, by simp only [Appender.append, he]⟩
  | ok bs =>
    rcases h with h | h
    · exact absurd (Record.encode_eq_ok_iff.mp he).1 h
    · exact ⟨.closed, by simp only [Appender.append, he, h, if_true]⟩

/-- An append is one of a record that fits to an open appender, or nothing comes of it. -/
theorem fits_or_refused (a : Appender) (d : Disk) (r : Record) (force : Bool) :
    r.Fits ∧ a.closed = false ∨ ∃ e, a.append d r force = (.error e, a, d) := by
  by_cases hr : r.Fits
  · cases hc : a.closed with
    | true => exact .inr (append_of_unfit (.inr hc))
    | false => exact .inl ⟨hr, rfl⟩
  · exact .inr (append_of_unfit (.inl hr))

theorem fits_of_granted {a : Appender} {d : Disk} {r : Record} {force : Bool}
    (h : (a.append d r force).1.isOk) : r.Fits ∧ a.closed = false := by
  refine (fits_or_refused a d r force).resolve_right ?_
  rintro ⟨e, happend⟩
  rw [happend] at h
  cases h

theorem Stands.append (h : w.Stands folder p vs S) {r : Record} {force : Bool}
    (ha : w.Allowed (.append r force)) :
    ∃ ws S', (w.step (.append r force)).Stands folder (p.after w (.append r force)) ws S' ∧
      (w.step (.append r force)).appender.closed = w.appender.closed := by
  rcases fits_or_refused w.appender w.disk r force with ⟨hr, hopen⟩ | ⟨e, happend⟩
  · obtain ⟨a, d, ws, S', ⟨happend, hwrites, -⟩ | ⟨e, happend, hwrites, -, -⟩⟩ :=
      h.tracks.append h.whole hopen hr force ha
    · refine ⟨ws, S ++ S', ?_, by simp only [step, happend, hwrites.terms.closed]⟩
      simpa [step, Progress.after, happend, Except.isOk, Except.toBool] using
        h.writes rfl rfl hwrites
    · refine ⟨ws, S ++ S', ?_, by simp only [step, happend, hwrites.terms.closed]⟩
      simpa [step, Progress.after, happend, Except.isOk, Except.toBool] using
        h.writes rfl rfl hwrites
  · refine ⟨vs, S, ?_, by simp only [step, happend]⟩
    simpa [step, Progress.after, happend, Except.isOk, Except.toBool] using h

/-- What a cut does: the volumes that it leaves are what is found from then on. -/
theorem Stands.cut (h : w.Stands folder p vs S) {id : UInt64} {offset : Nat}
    (ha : w.Allowed (.cut id offset)) :
    ∃ ws S', (w.step (.cut id offset)).Stands folder (p.after w (.cut id offset)) ws S' ∧
      (w.step (.cut id offset)).appender.closed = w.appender.closed := by
  cases hc : w.appender.closed with
  | true =>
    have hcut : w.appender.cut w.disk id offset = (.error .closed, w.appender, w.disk) := by
      rw [Appender.cut, if_pos hc]
    exact ⟨vs, S, by simpa only [step, Progress.after, hcut] using h, by simp only [step, hcut, hc]⟩
  | false =>
    obtain ⟨v, hv, rfl, hlength⟩ := ha
    have hholds := h.tracks.holds
    rw [hholds.volumes_eq] at hv
    obtain ⟨front, back, n, d, -, hcut, htracks⟩ := Appender.tracks_cut hholds hc hv hlength
    refine ⟨front ++ [⟨v.segment, v.octets.take offset⟩], [], ?_,
      by simp only [step, hcut, Appender.moveTo, hc]⟩
    simp only [step, Progress.after, hcut]
    refine ⟨h.place, htracks, Octets.whole_nil, ?_, Octets.records_nil⟩
    rw [htracks.holds.volumes_eq]
    exact .same

theorem Stands.step (h : w.Stands folder p vs S) {e : Event} (ha : w.Allowed e) :
    ∃ ws S', (w.step e).Stands folder (p.after w e) ws S' ∧
      ((w.step e).appender.closed = true ↔ w.appender.closed = true ∨ e = .close) := by
  -- where nothing is added the progress stays what it is
  have hsame {a b : Appender} {d : Disk} {ws : List Volume} {S' : List Record}
      (hf : a.folder = w.appender.folder) (hb : a.buffer = w.appender.buffer)
      (hw : a.Writes w.disk vs [] b d ws S') : Stands folder ⟨b, d⟩ p ws (S ++ S') := by
    simpa using h.writes hf hb hw
  cases e with
  | append r force =>
    obtain ⟨ws, S', hnext, hclosed⟩ := h.append ha
    exact ⟨ws, S', hnext, by simp [hclosed]⟩
  | cut id offset =>
    obtain ⟨ws, S', hnext, hclosed⟩ := h.cut ha
    exact ⟨ws, S', hnext, by simp [hclosed]⟩
  | flush =>
    obtain ⟨answer, a, d, ws, S', hflush, hwrites, -, -⟩ := h.tracks.flush_writes h.whole
    have hstep : w.step .flush = ⟨a, d⟩ := by simp only [Writing.step, hflush]
    rw [hstep]
    exact ⟨ws, _, hsame rfl rfl hwrites, by simp [hwrites.terms.closed]⟩
  | tick =>
    obtain ⟨a, d, ws, S', htick, hwrites⟩ := h.tracks.tick h.whole
    have hstep : w.step .tick = ⟨a, d⟩ := by simp only [Writing.step, htick]
    rw [hstep]
    exact ⟨ws, _, hsame rfl rfl hwrites, by simp [hwrites.terms.closed]⟩
  | close =>
    cases hc : w.appender.closed with
    | true =>
      have hstep : w.step .close = w := by
        simp only [Writing.step, Appender.close, hc, if_true]
      rw [hstep]
      exact ⟨vs, S, h, by simp [hc]⟩
    | false =>
      obtain ⟨answer, a, d, ws, S', hclose, hwrites, -, -⟩ := h.tracks.close h.whole hc
      have hstep : w.step .close = ⟨a, d⟩ := by simp only [Writing.step, hclose]
      rw [hstep]
      exact ⟨ws, _, hsame (a := { w.appender with closed := true }) rfl rfl hwrites,
        by simp [hwrites.terms.closed]⟩
  | disturb d =>
    exact ⟨vs, S, ⟨h.place, h.tracks.spares ha, h.whole, h.grows, h.records⟩, by simp [Writing.step]⟩

/-- Along a run no record is lost or moved, and granted appends add theirs in order. -/
theorem Stands.run (h : w.Stands folder p vs S) {es : List Event} (ha : w.Along Allowed es) :
    ∃ ws S', (w.run es).Stands folder (w.progress p es) ws S' := by
  induction es generalizing w p vs S with
  | nil => exact ⟨vs, S, h⟩
  | cons e es ih =>
    obtain ⟨ws, S', hnext, -⟩ := h.step ha.1
    exact ih hnext ha.2

theorem stands_start {d d' : Disk} {settings : Settings} {a : Appender}
    (h : d.Holds settings.folder vs) (hstart : Appender.start d settings = (.ok a, d')) :
    (∃ ws, Stands settings.folder ⟨a, d'⟩ ⟨vs, []⟩ ws []) ∧ a.closed = false := by
  rcases Appender.start_spec h with ⟨n, length, d₁, ws, hopened, hopens⟩ | ⟨e, hrefused, -, -⟩
  · obtain ⟨rfl, rfl⟩ : (Appender.blank settings).moveTo (Appender.lastOf (vs.map (·.segment))) n
        length = a ∧ d₁ = d' := by
      have hsame := hopened.symm.trans hstart
      simp only [Prod.mk.injEq, Except.ok.injEq] at hsame
      exact hsame
    have hgrows : Grows vs ws [] := by
      rcases hopens.volumes with rfl | ⟨rfl, rfl⟩
      · exact .same
      · exact Grows.same.next (Segment.ofId Segment.firstId)
    exact ⟨⟨ws, rfl, hopens.tracks, Octets.whole_nil, hgrows, Octets.records_nil⟩, rfl⟩
  · rw [hrefused] at hstart
    cases hstart

end Writing

end SegmentLog
