import SegmentLog.Proofs.Numbering

/-!
A log that is used without faults is a list of records. In a calm run no file operation is refused
and no segment number starts over; every answer is then that of the ledger of the log, and the list
that the log stands for is the list of its ledger (`Session.refines_ledger`). The ledger knows no
settings, no segments and no clock, so none of them shows in the answers.
-/

namespace SegmentLog

def requests : List Event → List Request
  | [] => []
  | .ask q :: rest => q :: requests rest
  | _ :: rest => requests rest

namespace Session

variable {folder : String} {s : Session} {L : Ledger}

/-- An event of a calm run. No file operation is refused, no segment number starts over, settings
are valid and name the same folder, and nobody else has a hand in it. -/
def Calm (folder : String) (s : Session) : Event → Prop
  | .ask q =>
    (s.serve q).1.isRefused = false ∧ s.wraps (.ask q) = false ∧ (q = .start → s.letsGo = true)
  | .configure settings => settings.validate = .ok () ∧ settings.folder = folder
  | .tick => True
  | .disturb _ | .crash => False

instance (folder : String) (s : Session) : (e : Event) → Decidable (Calm folder s e)
  | .ask _ => inferInstanceAs (Decidable (_ ∧ _ ∧ _))
  | .configure _ => inferInstanceAs (Decidable (_ ∧ _))
  | .tick => .isTrue trivial
  | .disturb _ | .crash => .isFalse id

/-! ## One event -/

/-- A session and its ledger. A log that was closed has nothing buffered, and the settings for the
next opening are valid. -/
structure Agrees (folder : String) (s : Session) (L : Ledger) : Prop where
  valid : s.settings.validate = .ok ()
  place : s.settings.folder = folder
  desk : L.desk = s.log.map (·.desk)
  stands : ∃ D B, s.Stands folder D B ∧ L.records = D ++ B ∧
    ∀ l, s.log = some l → l.closed = true → B = []

theorem Agrees.contents (h : Agrees folder s L) : s.contents folder = L.records := by
  obtain ⟨-, -, -, D, B, hstands, hrecords, -⟩ := h
  rw [hstands.contents, hrecords]

theorem Agrees.start (h : Agrees folder s L) (hc : Calm folder s (.ask .start)) :
    (s.serve .start).1 = (L.serve .start).1 ∧
      Agrees folder (s.serve .start).2 (L.serve .start).2 := by
  obtain ⟨hrefused, -, hgo⟩ := hc
  obtain ⟨hvalid, hplace, -, D, B, hstands, hrecords, hshut⟩ := h
  obtain ⟨vs, hholds, hintact, -, -, hwhole, -⟩ := hstands.released
  have hsame : recordsIn vs = L.records := (hwhole (hgo rfl) hshut).trans hrecords.symm
  rcases start_spec hholds hintact hvalid hplace with
    ⟨l, hanswer, hl, hopened, hdesk, -, -⟩ | ⟨e, hanswer, hio, -, -⟩
  · have hsettings : (s.serve .start).2.settings = s.settings := by
      simp only [serve]
      split <;> rfl
    rw [hsame] at hanswer hopened hdesk
    refine ⟨hanswer, hsettings ▸ hvalid, hsettings ▸ hplace, ?_, L.records, [], ?_, ?_, ?_⟩
    · rw [hl, Option.map_some, hdesk]
      rfl
    · exact .opened hl hopened
    · exact (List.append_nil _).symm
    · exact fun _ _ _ => rfl
  · -- a refusal of the disk is not calm
    rw [hanswer] at hrefused
    exact absurd (hio.symm.trans hrefused) (by simp)

theorem Agrees.askOpen (h : Agrees folder s L) {l : Log} (hl : s.log = some l) {q : Request}
    (hq : q ≠ .start) (hc : Calm folder s (.ask q)) :
    (s.serve q).1 = (L.serve q).1 ∧ Agrees folder (s.serve q).2 (L.serve q).2 := by
  obtain ⟨hrefused, hwraps, -⟩ := hc
  obtain ⟨hvalid, hplace, hdesk, D, B, hstands, hrecords, hshut⟩ := h
  have hlog := hstands.log hl
  obtain rfl : L = ⟨D ++ B, some l.desk⟩ := by
    rw [← hrecords, ← Option.map_some, ← hl, ← hdesk]
  obtain ⟨refusal, S, T, hrefusal, hserves, -, hclose⟩ := serve_spec hl hlog hq hwraps
  obtain rfl : refusal = none := by
    cases refusal with
    | none => rfl
    | some e =>
      obtain ⟨hanswer, hio, -⟩ := hrefusal e rfl
      rw [hanswer] at hrefused
      exact absurd (hio.symm.trans hrefused) (by simp)
  obtain ⟨hanswer, hsettings, ⟨l', hl', hstands', hdesk', -, -⟩, hsame, hstored⟩ := hserves
  refine ⟨hanswer, hsettings ▸ hvalid, hsettings ▸ hplace, ?_, S, T, .opened hl' hstands',
    hsame.symm, ?_⟩
  · rw [hl', Option.map_some]
    exact hdesk'
  · intro l'' hl'' hcl
    obtain rfl : l' = l'' := Option.some.inj (hl'.symm.trans hl'')
    have hbooks := Ledger.books_serveRefused (l := ⟨D ++ B, some l.desk⟩) rfl none hq
    cases hlc : l.closed with
    | true =>
      -- a closed log adds nothing to a list that is all on disk
      have hkept := hbooks.shut hlc
      rw [← hsame, hshut l hl hlc, List.append_nil] at hkept
      exact eq_nil_of_isPrefix hkept hstored
    | false =>
      by_cases hqc : q = .close
      · refine hclose ?_ hqc hlc
        rw [hanswer, hqc]
        simp only [Ledger.serveRefused, Ledger.onDesk, Desk.close, Log.desk, hlc]
        rfl
      · have hkept := hbooks.closed hqc l'.desk hdesk'
        exact absurd (hcl.symm.trans (hkept.trans hlc)) (by simp)

theorem Agrees.ask (h : Agrees folder s L) {q : Request} (hc : Calm folder s (.ask q)) :
    (s.serve q).1 = (L.serve q).1 ∧ Agrees folder (s.serve q).2 (L.serve q).2 := by
  by_cases hq : q = .start
  · subst hq
    exact h.start hc
  · cases hl : s.log with
    | some l => exact h.askOpen hl hq hc
    | none =>
      have hdesk : L.desk = none := by rw [h.desk, hl]; rfl
      rw [serve_of_none hl hq, Ledger.serve_of_none hdesk hq]
      exact ⟨rfl, h⟩

theorem Agrees.step (h : Agrees folder s L) {e : Event} (hc : Calm folder s e)
    (he : ∀ q, e ≠ .ask q) : Agrees folder (s.step e) L := by
  cases e with
  | ask q => exact absurd rfl (he q)
  | configure settings =>
    obtain ⟨-, -, hdesk, D, B, hstands, hrest⟩ := h
    refine ⟨hc.1, hc.2, hdesk, D, B, ?_, hrest⟩
    cases hstands with
    | shut hl hholds hi => exact .shut hl hholds hi
    | opened hl hlog => exact .opened hl hlog
  | tick =>
    obtain ⟨hvalid, hplace, hdesk, D, B, hstands, hrecords, hshut⟩ := h
    cases hstands with
    | shut hl hholds hi =>
      have hstep : s.step .tick = s := by simp only [Session.step, hl]
      rw [hstep]
      exact ⟨hvalid, hplace, hdesk, _, _, .shut hl hholds hi, hrecords, hshut⟩
    | @opened l _ _ hl hlog =>
      obtain ⟨l', S, T, hl', hlog', hdesk', -, -, hsame, hstored⟩ := tick_spec hl hlog
      have hsettings : (s.step .tick).settings = s.settings := by simp only [Session.step, hl]
      refine ⟨hsettings ▸ hvalid, hsettings ▸ hplace, ?_, S, T, .opened hl' hlog',
        hrecords.trans hsame.symm, ?_⟩
      · rw [hdesk, hl, hl', Option.map_some, Option.map_some, hdesk']
      · intro l'' hl'' hcl
        obtain rfl : l' = l'' := Option.some.inj (hl'.symm.trans hl'')
        have hlc : l.closed = true := (congrArg Desk.closed hdesk').symm.trans hcl
        rw [hshut l hl hlc, List.append_nil] at hsame
        exact eq_nil_of_isPrefix hsame hstored
  | disturb d => exact hc.elim
  | crash => exact hc.elim

/-! ## Runs -/

theorem Agrees.run (h : Agrees folder s L) {es : List Event} (hc : s.Along (Calm folder) es) :
    s.answers es = L.answers (requests es) ∧ Agrees folder (s.run es) (L.run (requests es)) := by
  induction es generalizing s L with
  | nil => exact ⟨rfl, h⟩
  | cons e es ih =>
    obtain ⟨he, hes⟩ := hc
    cases e with
    | ask q =>
      obtain ⟨hanswer, hnext⟩ := h.ask he
      obtain ⟨hanswers, hlast⟩ := ih hnext hes
      refine ⟨?_, hlast⟩
      rw [answers, requests, Ledger.answers, hanswer]
      exact congrArg _ hanswers
    | configure settings => exact ih (h.step he (by simp)) hes
    | tick => exact ih (h.step he (by simp)) hes
    | disturb d => exact he.elim
    | crash => exact he.elim

theorem Agrees.added (h : Agrees folder s L) (q : Request) (answer : Answer) :
    s.added q answer = L.added q answer := by
  unfold Session.added Ledger.added
  rw [h.desk]
  cases s.log with
  | none => rfl
  | some l => rfl

theorem Agrees.gains (h : Agrees folder s L) {es : List Event} (hc : s.Along (Calm folder) es) :
    (L.run (requests es)).records = L.records ++ s.gains es := by
  induction es generalizing s L with
  | nil => exact (List.append_nil _).symm
  | cons e es ih =>
    obtain ⟨he, hes⟩ := hc
    cases e with
    | ask q =>
      obtain ⟨hanswer, hnext⟩ := h.ask he
      have hadded : L.added q (L.serve q).1 = s.gained (.ask q) := by
        rw [← hanswer, ← h.added]
        rfl
      rw [requests, Ledger.run_cons, ih hnext hes, Ledger.records_serve, hadded, List.append_assoc]
      rfl
    | configure settings => exact ih (h.step he (by simp)) hes
    | tick => exact ih (h.step he (by simp)) hes
    | disturb d => exact he.elim
    | crash => exact he.elim

/-! ## Runs on a clear disk -/

/-- An event in which only the log has a hand. No segment number starts over, and settings are valid
and name the same folder. -/
def Plain (folder : String) (s : Session) : Event → Prop
  | .ask q => s.wraps (.ask q) = false
  | .configure settings => settings.validate = .ok () ∧ settings.folder = folder
  | .tick => True
  | .disturb _ | .crash => False

instance (folder : String) (s : Session) : (e : Event) → Decidable (Plain folder s e)
  | .ask _ => inferInstanceAs (Decidable (_ = _))
  | .configure _ => inferInstanceAs (Decidable (_ ∧ _))
  | .tick => .isTrue trivial
  | .disturb _ | .crash => .isFalse id

/-- Where nothing stands in the way of writing, nothing is refused, and nothing stands in the way
afterwards. -/
theorem Agrees.calm (h : Agrees folder s L) (hr : s.Ready folder) {e : Event}
    (hp : Plain folder s e) : Calm folder s e ∧ (s.step e).Ready folder := by
  cases e with
  | configure settings => exact ⟨hp, hr⟩
  | disturb d => exact hp.elim
  | crash => exact hp.elim
  | tick =>
    refine ⟨trivial, ?_⟩
    cases hl : s.log with
    | none =>
      have hstep : s.step .tick = s := by simp only [Session.step, hl]
      rwa [hstep]
    | some l =>
      obtain ⟨-, -, -, D, B, hstands, -⟩ := h
      obtain ⟨l', S, T, hl', -, -, -, hready, -⟩ := tick_spec hl (hstands.log hl)
      simp only [Ready, hl] at hr
      simpa only [Ready, hl'] using hready hr
  | ask q =>
    obtain ⟨hvalid, hplace, -, D, B, hstands, -⟩ := h
    by_cases hq : q = .start
    · subst hq
      obtain ⟨vs, hholds, hintact, -, -, -, hclear⟩ := hstands.released
      obtain ⟨hclear, hwilling, hgo⟩ := hclear hr
      rcases start_spec hholds hintact hvalid hplace with
        ⟨l, hanswer, hl, -, -, -, hready⟩ | ⟨-, -, -, hnot, -⟩
      · refine ⟨⟨by rw [hanswer]; rfl, hp, fun _ => hgo⟩, ?_⟩
        rw [Session.step]
        simpa only [Ready, hl] using hready hclear hwilling
      · exact absurd hclear hnot
    · cases hl : s.log with
      | none =>
        have hserve := serve_of_none hl hq
        refine ⟨⟨by rw [hserve]; rfl, hp, fun hs => absurd hs hq⟩, ?_⟩
        rwa [Session.step, hserve]
      | some l =>
        obtain ⟨S, T, hserves⟩ := serve_of_ready hl (hstands.log hl) hr hq hp
        simp only [Ready, hl] at hr
        obtain ⟨l', hl', -, -, -, hready⟩ := hserves.log
        refine ⟨⟨?_, hp, fun hs => absurd hs hq⟩, ?_⟩
        · rw [hserves.answer]
          exact Ledger.isRefused_serve _ q
        · simpa only [Session.step, Ready, hl'] using hready hr

theorem Agrees.calm_run (h : Agrees folder s L) (hr : s.Ready folder) {es : List Event}
    (hp : s.Along (Plain folder) es) :
    s.Along (Calm folder) es ∧ (s.run es).Ready folder := by
  induction es generalizing s L with
  | nil => exact ⟨trivial, hr⟩
  | cons e es ih =>
    obtain ⟨he, hes⟩ := hp
    obtain ⟨hcalm, hready⟩ := h.calm hr he
    obtain ⟨-, hnext⟩ := h.run (show s.Along (Calm folder) [e] from ⟨hcalm, trivial⟩)
    obtain ⟨hlater, hlast⟩ := ih hnext hready hes
    exact ⟨⟨hcalm, hlater⟩, hlast⟩

/-! ## The refinement -/

theorem records_of_readAll {L : Ledger} {rs : List Record}
    (h : (L.serve .readAll).1 = .records rs) : rs = L.records.filter (shown L.records) := by
  unfold Ledger.serve Ledger.serveRefused Ledger.onDesk Desk.readAll at h
  cases hk : L.desk with
  | none => simp [hk] at h
  | some k =>
    simp only [hk] at h
    split at h
    · cases h
    · cases h
    · cases h
      rfl

/-- A log used without faults is a list of records. From any folder of intact segments of distinct
numbers, every calm run is answered as by the ledger of the records found there and leaves the
records of that ledger. The next request then adds the record it asks for if it is granted and
nothing otherwise, what is read is what is shown of the list, and other settings and other ticks of
the clock would have been answered the same. -/
theorem refines_ledger {d : Disk} {vs : List Volume} {settings : Settings} {es : List Event}
    (h : d.Holds folder vs) (hi : Intact vs) (hv : settings.validate = .ok ())
    (hf : settings.folder = folder)
    (hc : Along (Calm folder) { disk := d, settings } es) :
    let s : Session := { disk := d, settings }
    let L : Ledger := { records := recordsIn vs }
    s.answers es = L.answers (requests es) ∧
    (s.run es).contents folder = (L.run (requests es)).records ∧
    (∀ q, Calm folder (s.run es) (.ask q) →
      ((s.run es).serve q).2.contents folder =
        (s.run es).contents folder ++ (s.run es).added q ((s.run es).serve q).1 ∧
      ∀ rs, q = .readAll → ((s.run es).serve q).1 = .records rs →
        rs = ((s.run es).contents folder).filter (shown ((s.run es).contents folder))) ∧
    ∀ settings' es', settings'.validate = .ok () → settings'.folder = folder →
      Along (Calm folder) { disk := d, settings := settings' } es' → requests es' = requests es →
        answers { disk := d, settings := settings' } es' = s.answers es := by
  intro s L
  have hstart (settings' : Settings) (hv : settings'.validate = .ok ())
      (hf : settings'.folder = folder) : Agrees folder { disk := d, settings := settings' } L :=
    ⟨hv, hf, rfl, recordsIn vs, [], .shut rfl h hi, (List.append_nil _).symm, fun _ hl => nomatch hl⟩
  obtain ⟨hanswers, hlast⟩ := (hstart settings hv hf).run hc
  refine ⟨hanswers, hlast.contents, ?_, ?_⟩
  · intro q hq
    obtain ⟨hanswer, hnext⟩ := hlast.ask hq
    refine ⟨?_, ?_⟩
    · rw [hnext.contents, hlast.contents, hlast.added, Ledger.records_serve, hanswer]
    · rintro rs rfl hrs
      rw [hanswer] at hrs
      rw [hlast.contents]
      exact records_of_readAll hrs
  · intro settings' es' hv' hf' hc' hsame
    obtain ⟨hanswers', -⟩ := (hstart settings' hv' hf').run hc'
    rw [hanswers, hanswers', hsame]

/-! ## A run over several segments -/

/-- A folder with one segment, under a short name, that holds one record. -/
def oneRecord : Disk where
  nodes := [((Location.top.enter "wal").enter "7.wal", .file 0), (Location.top.enter "wal", .folder)]
  bodies := fun body => if body = 0 then .ofOctets (Record.write 5 0 [1] [2]).form else {}
  nextBody := 1

/-- Settings under which a segment is full after one record, and only what has to is flushed. -/
def smallSegments : Settings := { folder := "wal", segmentLimit := 40, sync := false }

/-- A transaction over two segments, committed between other settings and another opening. -/
def rotations : List Event :=
  [.ask .start, .ask .begin, .ask (.write 1 [3] [4]), .tick, .ask (.write 1 [5] []),
    .ask (.commit 1), .configure { smallSegments with segmentLimit := 100 }, .ask .start,
    .ask (.write 2 [6] []), .ask .readAll]

theorem holds_oneRecord : oneRecord.Holds "wal" [⟨⟨7, "7.wal"⟩, (Record.write 5 0 [1] [2]).form⟩] := by
  have hsound : oneRecord.Sound :=
    ⟨by decide +kernel, by decide +kernel, by decide +kernel, by decide +kernel⟩
  have hvolumes : oneRecord.volumes "wal" =
      [⟨⟨7, "7.wal"⟩, (Record.write 5 0 [1] [2]).form⟩] := by decide +kernel
  rw [← hvolumes]
  exact Disk.holds_volumes hsound (fun _ => Refusals.tidy_none) (by decide)
    ⟨Location.top.enter "wal", by decide +kernel⟩ (by decide +kernel)

theorem intact_oneRecord : Intact [⟨⟨7, "7.wal"⟩, (Record.write 5 0 [1] [2]).form⟩] :=
  intact_singleton.mpr (Octets.whole_form (by decide))

theorem refines_ledger_rotations :
    (oneRecord.Holds "wal" [⟨⟨7, "7.wal"⟩, (Record.write 5 0 [1] [2]).form⟩] ∧
      Intact [⟨⟨7, "7.wal"⟩, (Record.write 5 0 [1] [2]).form⟩] ∧
      smallSegments.validate = .ok () ∧ smallSegments.folder = "wal" ∧
      Along (Calm "wal") { disk := oneRecord, settings := smallSegments } rotations) ∧
    answers { disk := oneRecord, settings := smallSegments } rotations =
      [.opened { scanned := 1, lastSequence := 5 }, .number 1, .number 6, .number 7, .done,
        .opened { scanned := 4, lastSequence := 8, lastTxn := 1 }, .number 9,
        .records [Record.write 5 0 [1] [2], Record.write 6 1 [3] [4], Record.write 7 1 [5] []]] := by
  have hc : Along (Calm "wal") { disk := oneRecord, settings := smallSegments } rotations := by
    decide +kernel
  have hrun := refines_ledger holds_oneRecord intact_oneRecord rfl rfl hc
  refine ⟨⟨holds_oneRecord, intact_oneRecord, rfl, rfl, hc⟩, hrun.1.trans ?_⟩
  have hlist : recordsIn [⟨⟨7, "7.wal"⟩, (Record.write 5 0 [1] [2]).form⟩] =
      [Record.write 5 0 [1] [2]] := by
    simp [recordsIn, Octets.records_form (show (Record.write 5 0 [1] [2]).Fits by decide)]
  rw [hlist]
  decide +kernel

end Session

end SegmentLog
