import SegmentLog.Proofs.Finality
import SegmentLog.Proofs.Repair
import SegmentLog.Proofs.Writing

/-!
What a granted closing means. The first closing of an appender is granted only when nothing remains
in the buffer, so all records are on disk. Closing again is always granted and does nothing: if the
first closing was refused, what it could not write out stays in the buffer and is lost with it
(`buffered_after_close`). So a granted closing means that everything is on disk if no closing of the
same appender was refused before (`closes_of_granted`).
-/

namespace SegmentLog

theorem Octets.Whole.eq_nil {bs : Octets} (h : bs.Whole) (hr : bs.records = []) : bs = [] := by
  rw [h.eq_row, hr]
  rfl

namespace Appender

variable {a : Appender} {d : Disk} {vs : List Volume} {D B : List Record}

theorem Keeps.buffer_eq_nil_iff (h : a.Keeps d D B) : a.buffer = [] ↔ B = [] := by
  obtain ⟨vs, -, -, hwhole, -, hbuffered⟩ := h
  constructor
  · intro hempty
    rw [← hbuffered, hempty, Octets.records_nil]
  · rintro rfl
    exact hwhole.eq_nil hbuffered

theorem close_of_closed (hc : a.closed = true) : a.close d = (.ok (), a, d) := by
  rw [Appender.close, if_pos hc]

/-- A granted closing, from before it to after it. Of the records that were logged some stand on disk
and the others are in the buffer; what it is for records to stand on a disk is left open. -/
structure Closes (OnDisk : Disk → List Record → Prop) (logged : List Record) (a : Appender)
    (d : Disk) (b : Appender) (d' : Disk) : Prop where
  /-- What is not on disk is in the buffer. -/
  records : ∃ stored, OnDisk d' stored ∧ stored ++ Octets.records b.buffer = logged
  /-- All records are on disk exactly if nothing remains in the buffer. -/
  durable : OnDisk d' logged ↔ b.buffer = []
  first : a.closed = false → b.buffer = []
  again : a.closed = true → b = a ∧ d' = d

/-- If nothing remained in the buffer when the appender was closed before, nothing remains there. -/
theorem Closes.buffer_eq_nil {OnDisk : Disk → List Record → Prop} {logged : List Record}
    {b : Appender} {d' : Disk} (h : a.Closes OnDisk logged d b d')
    (hs : a.closed = true → a.buffer = []) : b.buffer = [] := by
  cases hc : a.closed with
  | false => exact h.first hc
  | true =>
    obtain ⟨rfl, -⟩ := h.again hc
    exact hs hc

theorem Tracks.closes (h : a.Tracks d vs) (hb : a.buffer.Whole) (hok : (a.close d).1 = .ok ()) :
    ∃ b d' ws S, a.close d = (.ok (), b, d') ∧ { a with closed := true }.Writes d vs [] b d' ws S ∧
      (a.closed = false → b.buffer = []) ∧ (a.closed = true → b = a ∧ d' = d) := by
  cases hc : a.closed with
  | true =>
    have hsame : { a with closed := true } = a := by rw [← hc]
    refine ⟨a, d, vs, [], close_of_closed hc, ?_, nofun, fun _ => ⟨rfl, rfl⟩⟩
    rw [hsame]
    exact h.writes hb
  | false =>
    obtain ⟨answer, b, d', ws, S, hclose, hwrites, hempty, -⟩ := h.close hb hc
    obtain rfl : answer = .ok () := by rw [← hok, hclose]
    exact ⟨b, d', ws, S, hclose, hwrites, fun _ => hempty rfl, nofun⟩

theorem Closes.intro {OnDisk : Disk → List Record → Prop} {logged S : List Record} {b : Appender}
    {d' : Disk} (hs : OnDisk d' S) (hunique : ∀ rs, OnDisk d' rs → rs = S) (hb : b.buffer.Whole)
    (hrecords : S ++ Octets.records b.buffer = logged) (hfirst : a.closed = false → b.buffer = [])
    (hagain : a.closed = true → b = a ∧ d' = d) : a.Closes OnDisk logged d b d' := by
  refine ⟨⟨S, hs, hrecords⟩, ⟨fun hall => ?_, fun hempty => ?_⟩, hfirst, hagain⟩
  · have hnone : Octets.records b.buffer = [] := by
      rw [hunique logged hall] at hrecords
      exact List.append_right_eq_self.mp hrecords
    exact hb.eq_nil hnone
  · rw [hempty, Octets.records_nil, List.append_nil] at hrecords
    rwa [← hrecords]

theorem Keeps.closes (h : a.Keeps d D B) (hok : (a.close d).1 = .ok ()) :
    a.Closes (fun d rs => Log.recordsOf d a.folder = .ok rs) (D ++ B) d (a.close d).2.1
      (a.close d).2.2 := by
  obtain ⟨vs, htracks, hintact, hwhole, rfl, rfl⟩ := h
  obtain ⟨b, d', ws, S, hclose, hwrites, hfirst, hagain⟩ := htracks.closes hwhole hok
  have hadv := hwrites.advances hintact
  have hread := Log.recordsOf_of_keeps hadv.keeps
  rw [show b.folder = a.folder from hwrites.terms.folder] at hread
  rw [hclose]
  refine Closes.intro hread (fun rs hrs => ?_) hwrites.whole ?_ hfirst hagain
  · exact Except.ok.inj (hrs.symm.trans hread)
  · simpa using hadv.records

end Appender

/-! ## An appender on its own -/

namespace Writing

variable {folder : String} {w : Writing} {p : Progress} {vs : List Volume} {S : List Record}

/-- A granted closing leaves volumes that have grown by the records added, up to those in the
buffer. -/
theorem Stands.closes (h : w.Stands folder p vs S)
    (hok : (w.appender.close w.disk).1 = .ok ()) :
    w.appender.Closes (fun d rs => Grows p.found (d.volumes folder) rs) p.added w.disk
      (w.step .close).appender (w.step .close).disk := by
  obtain ⟨a, d, ws, S', hclose, hwrites, hfirst, hagain⟩ := h.tracks.closes h.whole hok
  obtain ⟨hplace, htracks, hwhole, hgrows, hrecords⟩ :=
    h.writes (a := { w.appender with closed := true }) rfl rfl hwrites
  have hholds := htracks.holds
  rw [hplace] at hholds
  have hstep : w.step .close = ⟨a, d⟩ := by simp only [Writing.step, hclose]
  rw [hstep]
  have hgrown : Grows p.found (d.volumes folder) (S ++ S') := by
    rw [hholds.volumes_eq]
    exact hgrows
  refine .intro hgrown (fun rs hrs => Grows.unique hrs hgrown) hwhole ?_ hfirst hagain
  rw [hrecords, List.append_nil]

/-- Nothing remains in the buffer of a closed appender. -/
def Spent (w : Writing) : Prop := w.appender.closed = true → w.appender.buffer = []

/-- Nothing that happens to a closed appender changes it, if its buffer is empty. -/
theorem step_of_closed (hc : w.appender.closed = true) (hb : w.appender.buffer = []) (e : Event) :
    (w.step e).appender = w.appender := by
  cases e with
  | append r force =>
    obtain ⟨e, happend⟩ : ∃ e, w.appender.append w.disk r force = (.error e, w.appender, w.disk) :=
      append_of_unfit (.inr hc)
    simp only [step, happend]
  | flush => simp only [step, Appender.flush, if_pos hb]
  | tick => simp only [step, Appender.tick, if_pos hc]
  | cut id offset => simp only [step, Appender.cut, if_pos hc]
  | close => simp only [step, Appender.close_of_closed hc]
  | disturb d => rfl

/-- If no closing is refused a closed appender has nothing in its buffer. -/
theorem Stands.spent_step (h : w.Stands folder p vs S) (hs : w.Spent) {e : Event}
    (ha : w.Allowed e) (hg : w.Grants e) : (w.step e).Spent := by
  intro hclosed
  cases hc : w.appender.closed with
  | true =>
    rw [step_of_closed hc (hs hc)]
    exact hs hc
  | false =>
    obtain ⟨-, -, -, hiff⟩ := h.step ha
    obtain rfl : e = .close := (hiff.mp hclosed).resolve_left (by simp [hc])
    exact (h.closes hg).first hc

theorem Stands.spent_run (h : w.Stands folder p vs S) (hs : w.Spent) {es : List Event}
    (ha : w.Along Allowed es) (hg : w.Along Grants es) : (w.run es).Spent := by
  induction es generalizing w p vs S with
  | nil => exact hs
  | cons e es ih =>
    obtain ⟨ws, S', hnext, -⟩ := h.step ha.1
    exact ih hnext (h.spent_step hs ha.1 hg.1) ha.2 hg.2

end Writing

/-! ## A log -/

namespace Session

variable {folder : String} {s : Session} {l : Log} {D B : List Record}

def Grants (s : Session) : Event → Prop
  | .ask .close => (s.serve .close).1 = .done
  | _ => True

/-- Nothing remains in the buffer of a closed log. -/
def Spent (s : Session) : Prop :=
  ∀ l, s.log = some l → l.closed = true → l.appender.buffer = []

theorem serve_close (hl : s.log = some l) (hc : l.appender.closed = l.closed) :
    s.serve .close = (.of (fun _ => .done) (l.appender.close s.disk).1,
      { s with
        disk := (l.appender.close s.disk).2.2
        log := some { l with appender := (l.appender.close s.disk).2.1, closed := true } }) := by
  rw [serve, onLog_eq hl]
  cases hcl : l.closed with
  | true =>
    rw [Log.close, if_pos hcl, Appender.close_of_closed (hc.trans hcl), ← hcl]
  | false => rw [Log.close, if_neg (by simp [hcl])]

theorem ok_of_done {answer : Except Error Unit} (h : Answer.of (fun _ => .done) answer = .done) :
    answer = .ok () := by
  cases answer with
  | error e => cases h
  | ok _ => rfl

/-- If no closing is refused a closed log has nothing in its buffer. -/
theorem Rests.spent_step (h : s.Rests folder D B) (hs : s.Spent) {e : Event}
    (hstart : e ≠ .ask .start) (ha : Allowed folder s e) (hg : Grants s e) : (s.step e).Spent := by
  cases hl : s.log with
  | none =>
    have hnone : (s.step e).log = none := by
      cases e with
      | ask q =>
        have hq : q ≠ .start := fun hq => hstart (by rw [hq])
        rw [Session.step, serve_of_none hl hq]
        exact hl
      | tick => simp only [Session.step, hl]
      | configure settings => exact hl
      | disturb d => exact hl
      | crash => rfl
    intro l' hl'
    rw [hnone] at hl'
    cases hl'
  | some l =>
    have hlog := h.stands.log hl
    -- a log that was closed before keeps its records, and none of them enters the buffer
    have hkept {l' : Log} {S T : List Record} (hstands : l'.Stands (s.step e).disk folder S T)
        (hrecords : l.closed = true → S ++ T = D ++ B) (hstored : D <+: S)
        (hclosed : l'.closed = true → l.closed = true) :
        l'.closed = true → l'.appender.buffer = [] := by
      intro hc
      have hbefore := hclosed hc
      have hsame := hrecords hbefore
      rw [hlog.keeps.buffer_eq_nil_iff.mp (hs l hl hbefore), List.append_nil] at hsame
      exact hstands.keeps.buffer_eq_nil_iff.mpr (eq_nil_of_isPrefix hsame hstored)
    cases e with
    | ask q =>
      have hq : q ≠ .start := fun hq => hstart (by rw [hq])
      by_cases hqc : q = .close
      · subst hqc
        have hserve := serve_close hl hlog.closed
        have hok : (l.appender.close s.disk).1 = .ok () := by
          have hdone : (s.serve .close).1 = .done := hg
          rw [hserve] at hdone
          exact ok_of_done hdone
        rintro l' hl' -
        rw [Session.step, hserve] at hl'
        cases hl'
        exact (hlog.keeps.closes hok).buffer_eq_nil fun hc => hs l hl (hlog.closed.symm.trans hc)
      · obtain ⟨refusal, S, T, -, hserves, -, -⟩ := serve_spec hl hlog hq ha.2
        obtain ⟨-, -, ⟨l₁, hl₁, hstands, hdesk, -, -⟩, hrecords, hstored⟩ := hserves
        have hbooks := Ledger.books_serveRefused (l := ⟨D ++ B, some l.desk⟩) rfl refusal hq
        intro l' hl'
        obtain rfl : l₁ = l' := Option.some.inj (hl₁.symm.trans hl')
        refine hkept hstands (fun hc => hrecords.trans (hbooks.shut hc)) hstored ?_
        exact fun hc => (hbooks.closed hqc _ hdesk).symm.trans hc
    | tick =>
      obtain ⟨l₁, S, T, hl₁, hstands, hdesk, -, -, hrecords, hstored⟩ := tick_spec hl hlog
      intro l' hl'
      obtain rfl : l₁ = l' := Option.some.inj (hl₁.symm.trans hl')
      exact hkept hstands (fun _ => hrecords) hstored
        fun hc => (congrArg Desk.closed hdesk).symm.trans hc
    | configure settings => exact hs
    | disturb d => exact hs
    | crash =>
      intro l' hl'
      cases hl'

theorem Rests.spent_run (h : s.Rests folder D B) (hs : s.Spent) {es : List Event}
    (hstart : .ask .start ∉ es) (ha : s.Along (Allowed folder) es) (hg : s.Along Grants es) :
    (s.run es).Spent := by
  induction es generalizing s D B with
  | nil => exact hs
  | cons e es ih =>
    rw [List.mem_cons, not_or] at hstart
    obtain ⟨Y, T, hnext, -⟩ := h.step ha.1
    exact ih hnext (h.spent_step hs (Ne.symm hstart.1) ha.1 hg.1) hstart.2 ha.2 hg.2

end Session

/-! ## Granted closings -/

/-- What a granted closing of an appender or of a log comes to (`Appender.Closes`), whatever the
segments held and although new segments and writes were refused, with nothing left of them. All
records of granted appends are on disk exactly if the buffer is empty, as after the first closing
and after any if none was refused before. For an appender, to be on disk means that the volumes have
grown by whole records since it was opened or last cut; for a log, that the records are read. -/
theorem closes_of_granted {d : Disk} {vs : List Volume} {settings : Settings}
    (h : d.Holds settings.folder vs) :
    (∀ {a : Appender} {d' : Disk} {es : List Writing.Event},
        Appender.start d settings = (.ok a, d') → Writing.Along Writing.Allowed ⟨a, d'⟩ es →
      let opened : Writing := ⟨a, d'⟩
      let last := opened.run es
      let after := last.step .close
      let p := opened.progress ⟨vs, []⟩ es
      (last.appender.close last.disk).1 = .ok () →
        last.appender.Closes (fun d rs => Grows p.found (d.volumes settings.folder) rs) p.added
          last.disk after.appender after.disk ∧
        (opened.Along Writing.Grants es → after.appender.buffer = [])) ∧
    (∀ {es : List Event},
      let opened := Session.opening d settings
      let last := opened.run es
      let after := last.step (.ask .close)
      opened.log.isSome → opened.Along (Session.Allowed settings.folder) es →
      (∀ e ∈ es, e ≠ .ask .start ∧ e ≠ .crash) → (last.serve .close).1 = .done →
        ∃ l₁ l₂, last.log = some l₁ ∧ after.log = some l₂ ∧
          l₁.appender.Closes (fun d rs => Log.recordsOf d settings.folder = .ok rs)
            (opened.contents settings.folder ++ opened.gains es) last.disk l₂.appender after.disk ∧
          (opened.Along Session.Grants es → l₂.appender.buffer = [])) := by
  constructor
  · intro a d' es hstart ha opened last after p hok
    obtain ⟨⟨ws, hopened⟩, hopen⟩ := Writing.stands_start h hstart
    obtain ⟨us, S, hlast⟩ := hopened.run ha
    have hcloses := hlast.closes hok
    refine ⟨hcloses, fun hg => hcloses.buffer_eq_nil ?_⟩
    exact hopened.spent_run (fun hc => absurd (hopen.symm.trans hc) (by simp)) ha hg
  · intro es opened last after hopen ha hes hdone
    obtain ⟨hopened, l, hl, hdesk⟩ := Session.rests_opening h hopen
    obtain ⟨S, T, hlast, hlogged, -⟩ :=
      hopened.history (H := ⟨(survey vs).records, (survey vs).records⟩) (List.append_nil _).symm
        (List.prefix_refl _) hes ha
    have hfound : opened.contents settings.folder = (survey vs).records := by
      rw [hopened.stands.contents, List.append_nil]
    rw [Session.logged_history, ← hfound] at hlogged
    cases hl₁ : last.log with
    | none =>
      rw [Session.serve_of_none hl₁ (by simp)] at hdone
      cases hdone
    | some l₁ =>
      have hlog := hlast.stands.log hl₁
      have hserve := Session.serve_close hl₁ hlog.closed
      rw [hserve] at hdone
      have hcloses := hlog.keeps.closes (Session.ok_of_done hdone)
      rw [hlog.appender, ← hlogged] at hcloses
      have hafter : after = (last.serve .close).2 := rfl
      rw [hserve] at hafter
      rw [hafter]
      refine ⟨l₁, _, rfl, rfl, hcloses, fun hg => hcloses.buffer_eq_nil fun hc => ?_⟩
      have hspent : opened.Spent := by
        intro l' hl' hc'
        obtain rfl : l = l' := Option.some.inj (hl.symm.trans hl')
        exact absurd ((congrArg Desk.closed hdesk).symm.trans hc') (by simp [Desk.ofRecords])
      have hnostart : .ask .start ∉ es := fun hmem => (hes _ hmem).1 rfl
      exact hopened.spent_run hspent hnostart ha hg l₁ hl₁ (hlog.closed.symm.trans hc)

/-! ## A full device that goes away, and one that stays -/

/-- A folder without segments, where a full device stands at the place of the first one. -/
def fullFirst : Disk where
  nodes := [((Location.top.enter "wal").enter "00000000000000000001.wal", .full),
    (Location.top.enter "wal", .folder)]

def unsynced : Settings := { folder := "wal", sync := false }

theorem holds_fullFirst : fullFirst.Holds "wal" [] := by
  have hsound : fullFirst.Sound :=
    ⟨by decide +kernel, by decide +kernel, by decide +kernel, by decide +kernel⟩
  have hvolumes : fullFirst.volumes "wal" = [] := by decide +kernel
  rw [← hvolumes]
  exact Disk.holds_volumes hsound (fun _ => Refusals.tidy_none) (by decide)
    ⟨Location.top.enter "wal", by decide +kernel⟩ (by decide +kernel)

/-- The device is no segment, so the segments are the same without it. -/
theorem spares_emptyFolder : Disk.Spares "wal" fullFirst Session.emptyFolder := by
  have hnone {d : Disk} (h : d.Holds "wal" []) {s : Segment} (hs : s.Named) :
      d.bodyOf? "wal" s = none := h.bodyOf?_eq_none hs (by simp)
  refine ⟨Session.holds_emptyFolder.sound, fun h => h, by decide +kernel, fun s hs => ?_,
    fun _ _ _ => rfl⟩
  rw [hnone Session.holds_emptyFolder hs, hnone holds_fullFirst hs]

/-- The appender that is opened on the device. -/
def onDevice : Appender := (Appender.blank unsynced).moveTo (Segment.ofId 1) .full 0

theorem start_onDevice : Appender.start fullFirst unsynced = (.ok onDevice, fullFirst) := by
  have hlocate : fullFirst.locate "wal" = .ok (Location.top.enter "wal") := by decide +kernel
  have hmake := Disk.makeFolders_of_locate hlocate
  have hlook : fullFirst.look ((Segment.ofId 1).place "wal") =
      .ok ((Location.top.enter "wal").enter "00000000000000000001.wal", some .full) := by
    decide +kernel
  have hopen : Appender.openSegment fullFirst "wal" (Segment.ofId 1) = .ok (.full, 0, fullFirst) := by
    simp only [Appender.openSegment, Disk.openWrite, hlook]
    rfl
  have hlast : Appender.lastOf (([] : List Volume).map (·.segment)) = Segment.ofId 1 := rfl
  simp only [Appender.start, unsynced, hmake, holds_fullFirst.list, hlast, hopen]
  rfl

def flushRefused : List Writing.Event :=
  [.append (Record.write 1 1 [107] [118]) false, .flush, .disturb Session.emptyFolder,
    .append (Record.write 2 1 [120] []) false]

def closeRefused : List Event := [.ask (.write 1 [107] [118]), .ask .close]

/-- The closing of the appender writes out what the device had refused. The second closing of the
log is granted with the write still in the buffer. -/
theorem closes_of_granted_fullFirst :
    let w := Writing.run ⟨onDevice, fullFirst⟩ flushRefused
    let opened := Session.opening fullFirst unsynced
    let last := opened.run closeRefused
    (fullFirst.Holds "wal" [] ∧ Appender.start fullFirst unsynced = (.ok onDevice, fullFirst) ∧
      Writing.Along Writing.Allowed ⟨onDevice, fullFirst⟩ flushRefused ∧
      Writing.Along Writing.Grants ⟨onDevice, fullFirst⟩ flushRefused ∧
      opened.log.isSome ∧ opened.Along (Session.Allowed "wal") closeRefused ∧
      (∀ e ∈ closeRefused, e ≠ .ask .start ∧ e ≠ .crash)) ∧
    ((w.appender.close w.disk).1 = .ok () ∧
      Grows [] ((w.step .close).disk.volumes "wal")
        [Record.write 1 1 [107] [118], Record.write 2 1 [120] []]) ∧
    (last.serve .close).1 = .done ∧
    ∃ l, (last.step (.ask .close)).log = some l ∧ l.appender.buffer ≠ [] ∧
      Log.recordsOf (last.step (.ask .close)).disk "wal" ≠ .ok [Record.write 1 1 [107] [118]] := by
  intro w opened last
  have hwriting : Writing.Along Writing.Allowed ⟨onDevice, fullFirst⟩ flushRefused := by
    refine ⟨?_, trivial, spares_emptyFolder, ?_, trivial⟩ <;>
      simp only [Writing.Allowed] <;> decide +kernel
  have hgrants : Writing.Along Writing.Grants ⟨onDevice, fullFirst⟩ flushRefused :=
    ⟨trivial, trivial, trivial, trivial, trivial⟩
  have ha : opened.Along (Session.Allowed "wal") closeRefused :=
    ⟨⟨trivial, by decide +kernel⟩, ⟨trivial, by decide +kernel⟩, trivial⟩
  have hes : ∀ e ∈ closeRefused, e ≠ .ask .start ∧ e ≠ .crash := by simp [closeRefused]
  have hholds : fullFirst.Holds unsynced.folder [] := holds_fullFirst
  have hopen : opened.log.isSome := by decide +kernel
  refine ⟨⟨hholds, start_onDevice, hwriting, hgrants, hopen, ha, hes⟩, ?_, ?_⟩
  · have hok : (w.appender.close w.disk).1 = .ok () := by decide +kernel
    obtain ⟨hcloses, hempty⟩ := (closes_of_granted hholds).1 start_onDevice hwriting hok
    have hprogress : Writing.progress ⟨onDevice, fullFirst⟩ ⟨[], []⟩ flushRefused =
        ⟨[], [Record.write 1 1 [107] [118], Record.write 2 1 [120] []]⟩ := by decide +kernel
    rw [hprogress] at hcloses
    exact ⟨hok, hcloses.durable.mpr (hempty hgrants)⟩
  · have hdone : (last.serve .close).1 = .done := by decide +kernel
    obtain ⟨l, l', -, hl', hcloses, -⟩ := (closes_of_granted hholds).2 hopen ha hes hdone
    have hlogged : opened.contents "wal" ++ opened.gains closeRefused =
        [Record.write 1 1 [107] [118]] := by decide +kernel
    have hlost : (last.step (.ask .close)).log.any (fun l => l.appender.buffer ≠ []) = true := by
      decide +kernel
    have hbuffer : l'.appender.buffer ≠ [] := by
      rw [hl'] at hlost
      simpa using hlost
    refine ⟨hdone, l', hl', hbuffer, fun hread => hbuffer (hcloses.durable.mp ?_)⟩
    exact hread.trans (congrArg Except.ok hlogged.symm)

/-- A write is granted and stays in the buffer. The first closing is refused, the second is granted,
and the write is not on disk. -/
theorem buffered_after_close :
    let opened := Session.step { disk := fullFirst, settings := unsynced } (.ask .start)
    let refused := (opened.step (.ask (.write 1 [107] [118]))).step (.ask .close)
    (opened.serve (.write 1 [107] [118])).1 = .number 1 ∧
    ((opened.step (.ask (.write 1 [107] [118]))).serve .close).1.isRefused = true ∧
    (refused.serve .close).1 = .done ∧
    (refused.step (.ask .close)).log.any (fun l => l.appender.buffer ≠ []) = true ∧
    Log.recordsOf (refused.step (.ask .close)).disk "wal" = .ok [] := by
  decide +kernel

end SegmentLog
