import SegmentLog.Proofs.Closing

/-!
No record of an appender is lost and none is doubled, although new segments are refused on the way,
and writes of which nothing is left. A record whose append is refused is nowhere; one whose append is granted is in the log or in the buffer behind
it, once and in its place. So whenever the buffer is empty the log reads as the records that were
found, then those of the granted appends (`Writing.log_of_appends`). What refuses may come and go: a
full device that stands where no segment does is none of the log's business
(`Disk.spares_link_full`, `Disk.spares_unlink_full`).
-/

namespace SegmentLog

/-! ## Full devices that come and go -/

namespace Disk

variable {d : Disk} {folder : String} {loc place : Location}

/-- A change at one place is none of the segments, if no file stands there before or after it. -/
theorem spares_of_place {d' : Disk} (hs : d'.Sound) (hbodies : d'.bodies = d.bodies)
    (hrefusals : d'.refusals = d.refusals) (hl : d.locate folder = .ok loc)
    (hl' : d'.locate folder = .ok loc)
    (hother : ∀ l, l ≠ place → d'.node? l = d.node? l)
    (hnone : ∀ body, d.node? place ≠ some (.file body))
    (hnone' : ∀ body, d'.node? place ≠ some (.file body)) : Spares folder d d' := by
  refine ⟨hs, fun ht => ht.of_refusals hrefusals, hl'.trans hl.symm, fun s _ => ?_,
    fun _ _ _ => by rw [hbodies]⟩
  by_cases hne : loc.enter s.name = place
  · apply Option.ext
    intro body
    rw [bodyOf?_eq_some hl, bodyOf?_eq_some hl', hne]
    exact iff_of_false (fun h => hnone' body h.2) fun h => hnone body h.2
  · exact bodyOf?_congr hl hl' (hother _ hne)

/-- A full device that comes where nothing stands. -/
theorem spares_link_full (hs : d.Sound) (hl : d.locate folder = .ok loc) (htop : place ≠ .top)
    (hn : d.node? place = none) (hfit : (place.names.headD "").utf8ByteSize ≤ nameLimit) :
    Spares folder d (d.link place .full) := by
  have hother (l : Location) (hne : l ≠ place) : (d.link place .full).node? l = d.node? l :=
    node?_link_of_ne d _ hne
  have hhere : (d.link place .full).here = d.here := rfl
  refine spares_of_place (hs.link rfl hfit) rfl rfl hl (locate_mono hhere ?_ hl) hother ?_ ?_
  · intro l hfolder
    rw [hother l (fun he => by rw [he, hn] at hfolder; cases hfolder), hfolder]
  · simp [hn]
  · simp [node?_link_self d place .full htop]

theorem spares_unlink_full (hs : d.Sound) (hl : d.locate folder = .ok loc) (htop : place ≠ .top)
    (hn : d.node? place = some .full) : Spares folder d (d.unlink place) := by
  refine spares_of_place (hs.unlink place) rfl rfl hl (locate_unlink hl hn (by simp))
    (fun l hne => node?_unlink_of_ne d hne) ?_ ?_
  · simp [hn]
  · simp [node?_unlink_self d place htop]

end Disk

/-! ## Opening where the folder is missing -/

/-- Opening is opening in the folder that it makes. -/
theorem Appender.start_makeFolders {d d' : Disk} {settings : Settings} {a : Appender}
    {vs : List Volume} (h : (d.makeFolders settings.folder).2.Holds settings.folder vs)
    (hstart : Appender.start d settings = (.ok a, d')) :
    Appender.start (d.makeFolders settings.folder).2 settings = (.ok a, d') := by
  obtain ⟨loc, hl⟩ := h.located
  have hagain := Disk.makeFolders_of_locate hl
  rcases hm : d.makeFolders settings.folder with ⟨f | _, made⟩
  · simp only [Appender.start, hm] at hstart
    cases hstart
  · rw [hm] at hagain
    simpa only [Appender.start, hm, hagain] using hstart

/-! ## Granted appends -/

namespace Writing

variable {folder : String} {w : Writing} {p : Progress}

def gained (w : Writing) : Event → List Record
  | .append r force => if (w.appender.append w.disk r force).1.isOk then [r] else []
  | _ => []

def gains (w : Writing) : List Event → List Record
  | [] => []
  | e :: rest => w.gained e ++ (w.step e).gains rest

def Uncut : Event → Prop
  | .cut _ _ => False
  | _ => True

theorem after_of_uncut {e : Event} (h : Uncut e) :
    p.after w e = { p with added := p.added ++ w.gained e } := by
  cases e with
  | append r force =>
    simp only [Progress.after, gained]
    split
    · rfl
    · rw [List.append_nil]
  | cut id offset => exact h.elim
  | flush => simp [Progress.after, gained]
  | tick => simp [Progress.after, gained]
  | close => simp [Progress.after, gained]
  | disturb d => simp [Progress.after, gained]

/-- As long as the log is not cut it grows by what is gained. -/
theorem progress_of_uncut {es : List Event} (h : ∀ e ∈ es, Uncut e) :
    w.progress p es = { p with added := p.added ++ w.gains es } := by
  induction es generalizing w p with
  | nil => rw [progress, gains, List.append_nil]
  | cons e es ih =>
    rw [progress, ih fun e he => h e (List.mem_cons_of_mem _ he),
      after_of_uncut (h e List.mem_cons_self), gains, List.append_assoc]

/-- Over intact volumes the log reads as what was found and added, but for what is in the buffer. -/
theorem Stands.log {vs : List Volume} {S : List Record} (h : w.Stands folder p vs S)
    (hi : Intact p.found) :
    Log.recordsOf w.disk folder = .ok (recordsIn p.found ++ S) ∧
      recordsIn p.found ++ S ++ Octets.records w.appender.buffer = recordsIn p.found ++ p.added := by
  obtain ⟨hintact, hrecords⟩ := h.grows.intact hi
  have hholds := h.tracks.holds
  rw [h.place] at hholds
  refine ⟨?_, by rw [List.append_assoc, h.records]⟩
  rw [hholds.recordsOf, survey_of_intact hintact, hrecords]

variable {vs : List Volume} {S : List Record} {r : Record} {force : Bool}

theorem Stands.buffer_of_flush (h : w.Stands folder p vs S)
    (hok : (w.appender.flush w.disk).1 = .ok ()) : (w.step .flush).appender.buffer = [] := by
  obtain ⟨answer, b, d, -, -, hflush, -, hempty, -⟩ := h.tracks.flush_writes h.whole
  simp only [Writing.step, hflush]
  exact hempty (by rw [← hok, hflush])

theorem Stands.buffer_of_append (h : w.Stands folder p vs S) (ha : w.Allowed (.append r force))
    (hforce : (force || w.appender.sync) = true)
    (hok : (w.appender.append w.disk r force).1.isOk) :
    (w.step (.append r force)).appender.buffer = [] := by
  obtain ⟨hr, hopen⟩ := fits_of_granted hok
  obtain ⟨b, d, -, -, ⟨happend, -, hempty⟩ | ⟨e, happend, -⟩⟩ :=
    h.tracks.append h.whole hopen hr force ha
  · simp only [Writing.step, happend]
    exact hempty hforce
  · rw [happend] at hok
    cases hok

/-- Where nothing stands in the way a flush is granted. -/
theorem Stands.flush_of_ready (h : w.Stands folder p vs S) (hready : w.appender.Ready w.disk) :
    (w.appender.flush w.disk).1 = .ok () := by
  obtain ⟨answer, b, d, -, -, hflush, -, -, herror⟩ := h.tracks.flush_writes h.whole
  cases answer with
  | ok _ => rw [hflush]
  | error e => exact absurd hready (herror e rfl).2

theorem Stands.append_of_ready (h : w.Stands folder p vs S) (hready : w.appender.Ready w.disk)
    (hopen : w.appender.closed = false) (hr : r.Fits) (ha : w.Allowed (.append r force)) :
    (w.appender.append w.disk r force).1 = .ok r.sequence := by
  obtain ⟨b, d, -, -, ⟨happend, -, -⟩ | ⟨e, -, -, -, hnot⟩⟩ :=
    h.tracks.append h.whole hopen hr force ha
  · rw [happend]
  · exact absurd hready hnot

end Writing

/-! ## What the log reads as -/

/-- A log that can be read consists of intact volumes. -/
theorem Disk.Holds.intact_of_recordsOf {d : Disk} {folder : String} {vs : List Volume}
    {rs : List Record} (h : d.Holds folder vs) (hread : Log.recordsOf d folder = .ok rs) :
    Intact vs ∧ recordsIn vs = rs := by
  rw [h.recordsOf] at hread
  cases hd : (survey vs).damage with
  | some x =>
    rw [hd] at hread
    cases hread
  | none =>
    have hintact := intact_of_survey hd
    rw [hd, survey_of_intact hintact] at hread
    exact ⟨hintact, Except.ok.inj hread⟩

namespace Writing

/-- At any moment a log that is not cut can be read. It reads as the records that were found, then
those of the granted appends in their order, but for the last of them, which are in the buffer; so
it reads as all of them after a granted flush and after a granted append that is forced or in sync
mode. Where nothing stands in the way of an open appender, these are granted. Meanwhile new segments
and writes may be refused, with nothing left of them (`Allowed`). -/
theorem log_of_appends {d d' : Disk} {vs : List Volume} {found : List Record} {settings : Settings}
    {a : Appender} {es : List Event}
    (h : (d.makeFolders settings.folder).2.Holds settings.folder vs)
    (hfound : Log.recordsOf (d.makeFolders settings.folder).2 settings.folder = .ok found)
    (hstart : Appender.start d settings = (.ok a, d')) (huncut : ∀ e ∈ es, Uncut e)
    (ha : Along Allowed ⟨a, d'⟩ es) :
    let last := run ⟨a, d'⟩ es
    let log := found ++ gains ⟨a, d'⟩ es
    let read := fun w : Writing => Log.recordsOf w.disk settings.folder
    (∃ stored, read last = .ok stored ∧ found <+: stored ∧
      stored ++ Octets.records last.appender.buffer = log) ∧
    (last.appender.buffer = [] → read last = .ok log) ∧
    ((last.appender.flush last.disk).1 = .ok () → read (last.step .flush) = .ok log) ∧
    (∀ r force, last.Allowed (.append r force) → (force || last.appender.sync) = true →
      (last.appender.append last.disk r force).1.isOk →
        read (last.step (.append r force)) = .ok (log ++ [r])) ∧
    (last.appender.closed = false → last.appender.Ready last.disk →
      (last.appender.flush last.disk).1 = .ok () ∧
      ∀ r force, r.Fits → last.Allowed (.append r force) →
        (last.appender.append last.disk r force).1 = .ok r.sequence) := by
  intro last log read
  obtain ⟨hi, rfl⟩ := h.intact_of_recordsOf hfound
  obtain ⟨⟨ws, hopened⟩, -⟩ := stands_start h (Appender.start_makeFolders h hstart)
  obtain ⟨us, S, hlast⟩ := hopened.run ha
  rw [progress_of_uncut huncut, List.nil_append] at hlast
  have hbuffered {w : Writing} {p : Progress} {vs' : List Volume} {S : List Record}
      (hw : w.Stands settings.folder p vs' S) (hp : p.found = vs) (hb : w.appender.buffer = []) :
      read w = .ok (recordsIn vs ++ p.added) := by
    obtain ⟨hread, hrecords⟩ := hw.log (by rw [hp]; exact hi)
    rw [hb, Octets.records_nil, List.append_nil] at hrecords
    rw [← hp, ← hrecords]
    exact hread
  refine ⟨?_, hbuffered hlast rfl, fun hok => ?_, fun r force hr hforce hok => ?_,
    fun hopen hready => ?_⟩
  · obtain ⟨hread, hrecords⟩ := hlast.log hi
    exact ⟨_, hread, List.prefix_append _ _, hrecords⟩
  · obtain ⟨_, _, hnext, -⟩ := hlast.step (e := .flush) trivial
    exact hbuffered hnext rfl (hlast.buffer_of_flush hok)
  · obtain ⟨_, _, hnext, -⟩ := hlast.step hr
    rw [after_of_uncut (show Uncut (.append r force) from trivial)] at hnext
    have hread := hbuffered hnext rfl (hlast.buffer_of_append hr hforce hok)
    have hgained : last.gained (.append r force) = [r] := if_pos hok
    rw [hread]
    simp only [log, ← hgained, List.append_assoc]
    rfl
  · exact ⟨hlast.flush_of_ready hready,
      fun r force hr ha => hlast.append_of_ready hready hopen hr ha⟩

/-! ## A device that comes and goes -/

/-- Settings under which a segment is full after one short record. -/
def brief : Settings := { folder := "wal", segmentLimit := 40, sync := false }

/-- An appender opened where the folder was missing. -/
def inNewFolder : Writing where
  appender := (Appender.blank brief).moveTo (Segment.ofId 1) (.file 0) 0
  disk := (Appender.start {} brief).2

def second : Location := (Location.top.enter "wal").enter "00000000000000000002.wal"

/-- After the first append a full device comes to the place of the second segment. The second record
goes on to it and stays in the buffer; a flush, a further append and a tick are refused. -/
def whileFull : List Event :=
  let append := Event.append (Record.write 1 1 [1] []) false
  [append, .disturb ((inNewFolder.step append).disk.link second .full),
    .append (Record.write 2 1 [2] []) false, .flush, .append (Record.write 3 1 [3] []) true, .tick]

/-- Once the device is gone a last append takes the records in the buffer with it. -/
def onceGone : List Event :=
  whileFull ++ [.disturb ((inNewFolder.run whileFull).disk.unlink second),
    .append (Record.write 4 1 [4] []) true]

theorem holds_newFolder : (({} : Disk).makeFolders "wal").2.Holds "wal" [] := by
  have hsound : (({} : Disk).makeFolders "wal").2.Sound :=
    ⟨by decide +kernel, by decide +kernel, by decide +kernel, by decide +kernel⟩
  have hvolumes : (({} : Disk).makeFolders "wal").2.volumes "wal" = [] := by decide +kernel
  have hnothing : ({} : Disk).Tidy := fun _ => Refusals.tidy_none
  have htidy := hnothing.of_refusals (Disk.refusals_makeFolders {} "wal")
  rw [← hvolumes]
  exact Disk.holds_volumes hsound htidy (by decide) ⟨Location.top.enter "wal", by decide +kernel⟩
    (by decide +kernel)

theorem log_of_appends_onceGone :
    ((({} : Disk).makeFolders brief.folder).2.Holds brief.folder [] ∧
      Log.recordsOf (({} : Disk).makeFolders brief.folder).2 brief.folder = .ok [] ∧
      Appender.start {} brief = (.ok inNewFolder.appender, inNewFolder.disk) ∧
      (∀ e ∈ onceGone, Uncut e) ∧ inNewFolder.Along Allowed onceGone) ∧
    Log.recordsOf (inNewFolder.run onceGone).disk "wal" =
      .ok [Record.write 1 1 [1] [], Record.write 2 1 [2] [], Record.write 4 1 [4] []] := by
  have hholds : (({} : Disk).makeFolders brief.folder).2.Holds brief.folder [] := holds_newFolder
  have hstart : Appender.start {} brief = (.ok inNewFolder.appender, inNewFolder.disk) :=
    Prod.ext (by decide +kernel) rfl
  have hread : Log.recordsOf (({} : Disk).makeFolders brief.folder).2 brief.folder = .ok [] := by
    decide +kernel
  have huncut : ∀ e ∈ onceGone, Uncut e := by simp [onceGone, whileFull, Uncut]
  obtain ⟨⟨ws, hopened⟩, -⟩ := stands_start hholds (Appender.start_makeFolders hholds hstart)
  have hlocated {w : Writing} {p : Progress} {vs : List Volume} {S : List Record}
      (h : w.Stands "wal" p vs S) : w.disk.Sound ∧ ∃ loc, w.disk.locate w.appender.folder = .ok loc :=
    ⟨h.tracks.holds.sound, h.tracks.holds.located⟩
  have hfirst : inNewFolder.Allowed (.append (Record.write 1 1 [1] []) false) := by
    simp only [Allowed]
    decide +kernel
  have hwhile : inNewFolder.Along Allowed whileFull := by
    obtain ⟨_, _, hnext, -⟩ := hopened.step hfirst
    obtain ⟨hsound, loc, hl⟩ := hlocated hnext
    refine ⟨hfirst, Disk.spares_link_full hsound hl (by decide) ?_ (by decide +kernel), ?_,
      trivial, ?_, trivial, trivial⟩
    · decide +kernel
    · simp only [Allowed]
      decide +kernel
    · simp only [Allowed]
      decide +kernel
  have ha : inNewFolder.Along Allowed onceGone := by
    obtain ⟨_, _, hnext⟩ := hopened.run hwhile
    obtain ⟨hsound, loc, hl⟩ := hlocated hnext
    refine along_append.mpr ⟨hwhile, Disk.spares_unlink_full hsound hl (by decide) ?_, ?_, trivial⟩
    · decide +kernel
    · simp only [Allowed]
      decide +kernel
  refine ⟨⟨hholds, hread, hstart, huncut, ha⟩, ?_⟩
  have hlog := (log_of_appends hholds hread hstart huncut ha).2.1 (by decide +kernel)
  have hgains : inNewFolder.gains onceGone =
      [Record.write 1 1 [1] [], Record.write 2 1 [2] [], Record.write 4 1 [4] []] := by
    decide +kernel
  rw [← hgains]
  exact hlog

end Writing

end SegmentLog
