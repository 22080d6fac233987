import SegmentLog.Proofs.Durability
import SegmentLog.Proofs.Refinement

/-!
Repairing a log. What the segments of a folder hold may be any octets. Under the policy that cuts
damage off, a log is opened with the records up to the first place where no whole record starts. The
segment is shortened to that place, the segments behind it go, and nothing else is touched
(`Log.start_repairs`). What is added afterwards follows those records, and every later opening
finds all of them without damage, under every policy (`Session.repairs_tail`).
-/

namespace SegmentLog

/-! ## The place of the damage -/

/-- Damage is in a segment of the folder, behind whole records and before its end. -/
theorem survey_damage {vs : List Volume} {x : Damage} (h : (survey vs).damage = some x) :
    ∃ v ∈ vs, v.segment = x.segment ∧ x.offset < v.octets.length ∧
      Octets.Whole (v.octets.take x.offset) ∧
      Record.decode (v.octets.drop x.offset) = .error x.cause := by
  induction vs with
  | nil => cases h
  | cons v rest ih =>
    rw [survey, Survey.ofOctets] at h
    by_cases hv : v.octets.Whole
    · rw [if_pos hv] at h
      obtain ⟨w, hw, hplace⟩ := ih h
      exact ⟨w, List.mem_cons_of_mem _ hw, hplace⟩
    · rw [if_neg hv, Nat.zero_add] at h
      cases h
      refine ⟨v, List.mem_cons_self, rfl, Octets.wholeLength_lt hv,
        Octets.whole_take_wholeLength v.octets, ?_⟩
      rw [Octets.drop_wholeLength]
      exact Octets.decode_remnant v.octets

def Damage.left (x : Damage) (v : Volume) : Option Volume :=
  if v.segment.id < x.segment.id then some v
  else if v.segment.id = x.segment.id then some ⟨v.segment, v.octets.take x.offset⟩
  else none

def Damage.cut (x : Damage) (vs : List Volume) : List Volume := vs.filterMap x.left

/-- The volumes of a folder after a repair. -/
def repaired (vs : List Volume) : List Volume :=
  match (survey vs).damage with
  | none => Appender.withFirst vs
  | some x => x.cut vs

theorem Damage.cut_eq {front back : List Volume} {v : Volume} {x : Damage}
    (h : ((front ++ v :: back).map (·.segment)).Pairwise (·.id < ·.id)) (hx : x.segment = v.segment) :
    x.cut (front ++ v :: back) = front ++ [⟨v.segment, v.octets.take x.offset⟩] := by
  rw [List.map_append, List.map_cons, List.pairwise_append, List.pairwise_cons] at h
  obtain ⟨-, ⟨hback, -⟩, hfront⟩ := h
  have hbefore : front.filterMap x.left = front := by
    have hsame : ∀ w ∈ front, x.left w = some w := by
      intro w hw
      rw [left, hx, if_pos (hfront _ (List.mem_map_of_mem hw) _ List.mem_cons_self)]
    rw [List.filterMap_congr hsame, List.filterMap_some]
  have hat : x.left v = some ⟨v.segment, v.octets.take x.offset⟩ := by
    rw [left, hx, if_neg (UInt64.lt_irrefl _), if_pos rfl]
  have hbehind : back.filterMap x.left = [] := by
    rw [List.filterMap_eq_nil_iff]
    intro w hw
    have hlt := hback _ (List.mem_map_of_mem hw)
    rw [left, hx, if_neg (UInt64.lt_asymm hlt), if_neg]
    intro he
    rw [he] at hlt
    exact UInt64.lt_irrefl _ hlt
  rw [cut, List.filterMap_append, List.filterMap_cons, hbefore, hat, hbehind]

/-! ## Opening a damaged log -/

namespace Log

variable {d d' : Disk} {settings : Settings} {vs : List Volume} {l : Log}

/-- What an opening that repairs comes to. The log is that of the records before the damage and goes
on where they end. Only the damaged segment and those behind it are touched, in an empty folder only
the first. -/
structure Repairs (l : Log) (d : Disk) (folder : String) (vs : List Volume) (d' : Disk) : Prop where
  report : l.report = { Replay.ofRecords (survey vs).records with
    cutAt := (survey vs).damage.map fun x => (x.segment.id, x.offset) }
  desk : l.desk = Desk.ofRecords (survey vs).records
  stands : l.Stands d' folder (survey vs).records []
  holds : d'.Holds folder (repaired vs)
  ready : d.Willing → l.appender.Ready d'
  place : ∀ x, (survey vs).damage = some x → l.appender.active = x.segment ∧
    l.appender.offset = x.offset ∧ l.appender.buffer = []
  untouched : ∀ loc other, d.locate folder = .ok loc →
    (vs = [] → other ≠ loc.enter (Segment.fileName Segment.firstId)) →
    (∀ x, (survey vs).damage = some x → ∀ v ∈ vs, x.segment.id ≤ v.segment.id →
      other ≠ loc.enter v.segment.name) → d.Untouched d' other

theorem start_undamaged (h : d.Holds settings.folder vs) (hc : d.Clear settings.folder)
    (hv : settings.validate = .ok ()) (hx : (survey vs).damage = none) :
    ∃ l d', Log.start d settings = (.ok l, d') ∧ l.Repairs d settings.folder vs d' := by
  have hi := intact_of_survey hx
  have hrecords : (survey vs).records = recordsIn vs := by rw [survey_of_intact hi]
  have hrepaired : repaired vs = Appender.withFirst vs := by rw [repaired, hx]
  rcases start_of_intact h hi hv with ⟨a, d', ws, hstart, hkeeps, hterms, hopens⟩ |
    ⟨e, -, -, hclear⟩
  · obtain rfl := hopens.first hc
    have hholds := hopens.tracks.holds
    rw [hterms.folder] at hholds
    refine ⟨_, d', hstart, ?_, ?_, ?_, ?_, hopens.ready hc, ?_, ?_⟩
    · rw [hx, hrecords, Option.map_none, ← Replay.cutAt_ofRecords (recordsIn vs)]
      rfl
    · rw [hrecords]
      rfl
    · rw [hrecords]
      exact ⟨rfl, hterms.folder, hterms.closed, hkeeps⟩
    · rw [hrepaired]
      exact hholds
    · intro x hsome
      rw [hx] at hsome
      cases hsome
    · exact fun loc other hl hfirst _ => hopens.untouched loc other hl hfirst
  · exact absurd hc hclear

theorem start_damaged (h : d.Holds settings.folder vs) (hc : d.Clear settings.folder)
    (hv : settings.validate = .ok ()) (hp : settings.policy = .truncateTail) {x : Damage}
    (hx : (survey vs).damage = some x) :
    ∃ l d', Log.start d settings = (.ok l, d') ∧ l.Repairs d settings.folder vs d' := by
  obtain ⟨loc, hl⟩ := h.located
  obtain ⟨front, v, back, rfl, hfront, hxv, hrecords⟩ := survey_of_damage hx
  obtain ⟨body, d', hstart, hholds, hb, hclear, hwilling, huntouched⟩ :=
    start_of_damage h hl hv hp hx hxv
  have hat : x.segment = v.segment ∧ x.offset = v.octets.wholeLength := by
    rw [hxv]
    exact ⟨rfl, rfl⟩
  have hrepaired : repaired (front ++ v :: back) =
      front ++ [⟨v.segment, v.octets.take v.octets.wholeLength⟩] := by
    rw [repaired, hx]
    simp only
    rw [Damage.cut_eq h.ascending hat.1, hat.2]
  refine ⟨_, d', hstart, ?_, rfl, ⟨rfl, rfl, rfl, ?_⟩, ?_, fun hw => ⟨hclear hc, hwilling hw, ?_⟩, ?_,
    ?_⟩
  · rw [hx, Option.map_some, hat.1, hat.2]
    rfl
  · rw [hrecords]
    exact Appender.keeps_cut hholds hb hfront
  · rw [hrepaired]
    exact hholds
  · simp [ofReport, Appender.moveTo]
  · intro y hy
    obtain rfl : x = y := Option.some.inj (hx.symm.trans hy)
    exact ⟨hat.1.symm, hat.2.symm, rfl⟩
  · intro loc' other hl' _ hne
    obtain rfl : loc = loc' := Except.ok.inj (hl.symm.trans hl')
    refine huntouched other fun w hw => hne x hx w (List.mem_append_right _ hw) ?_
    rw [hat.1]
    rcases List.mem_cons.mp hw with rfl | hw
    · exact UInt64.le_refl _
    · have hasc := h.ascending
      rw [List.map_append, List.map_cons, List.pairwise_append, List.pairwise_cons] at hasc
      exact UInt64.le_of_lt (hasc.2.1.1 _ (List.mem_map_of_mem hw))

theorem validate_of_start {d d' : Disk} (hstart : Log.start d settings = (.ok l, d')) :
    settings.validate = .ok () := by
  cases hv : settings.validate with
  | ok _ => rfl
  | error e => simp [Log.start, hv] at hstart

/-- A log that is opened stands for the records before the damage, whatever its segments hold. -/
theorem stands_of_start (h : d.Holds settings.folder vs) {d' : Disk}
    (hstart : Log.start d settings = (.ok l, d')) :
    l.Stands d' settings.folder (survey vs).records [] ∧
      l.desk = Desk.ofRecords (survey vs).records := by
  have hv := validate_of_start hstart
  cases hx : (survey vs).damage with
  | none =>
    have hi := intact_of_survey hx
    rcases start_of_intact h hi hv with ⟨a, d₁, ws, hok, hkeeps, hterms, -⟩ | ⟨e, hrefused, -, -⟩
    · rw [hok] at hstart
      cases hstart
      rw [survey_of_intact hi]
      exact ⟨⟨rfl, hterms.folder, hterms.closed, hkeeps⟩, rfl⟩
    · rw [hrefused] at hstart
      cases hstart
  | some x =>
    cases hp : settings.policy with
    | strict =>
      rw [start_strict h hv hp hx] at hstart
      cases hstart
    | truncateTail =>
      obtain ⟨loc, hl⟩ := h.located
      obtain ⟨front, v, back, rfl, hfront, hxv, hrecords⟩ := survey_of_damage hx
      obtain ⟨body, d₁, hok, hholds, hb, -, -, -⟩ := start_of_damage h hl hv hp hx hxv
      rw [hok] at hstart
      cases hstart
      rw [hrecords]
      exact ⟨⟨rfl, rfl, rfl, Appender.keeps_cut hholds hb hfront⟩, rfl⟩

/-- A log is repaired whatever its segments hold. -/
theorem start_repairs (h : d.Holds settings.folder vs) (hc : d.Clear settings.folder)
    (hv : settings.validate = .ok ()) (hp : settings.policy = .truncateTail) :
    ∃ l d', Log.start d settings = (.ok l, d') ∧ l.Repairs d settings.folder vs d' := by
  cases hx : (survey vs).damage with
  | none => exact start_undamaged h hc hv hx
  | some x => exact start_damaged h hc hv hp hx

end Log

theorem Replay.scanned_ofRecords (records : List Record) :
    (ofRecords records).scanned = records.length := by
  have hfold (report : Report) :
      (records.foldl step report).scanned = report.scanned + records.length := by
    induction records generalizing report with
    | nil => rfl
    | cons r rest ih =>
      rw [List.foldl_cons, ih, List.length_cons, step]
      simp only
      omega
  rw [ofRecords, hfold, Nat.zero_add]

namespace Session

variable {folder : String} {s : Session} {L : Ledger}

def opening (d : Disk) (settings : Settings) : Session := step { disk := d, settings } (.ask .start)

/-- If the log is opened it has the records before the damage, whatever its segments hold. -/
theorem rests_opening {d : Disk} {vs : List Volume} {settings : Settings}
    (h : d.Holds settings.folder vs) (hopen : (opening d settings).log.isSome) :
    (opening d settings).Rests settings.folder (survey vs).records [] ∧
      ∃ l, (opening d settings).log = some l ∧ l.desk = Desk.ofRecords (survey vs).records := by
  rcases hstart : Log.start d settings with ⟨e | l, d'⟩
  · have hnone : (opening d settings).log = none := by
      simp only [opening, step, serve, released, hstart]
    rw [hnone] at hopen
    cases hopen
  · obtain ⟨hstands, hdesk⟩ := Log.stands_of_start h hstart
    have hopened : opening d settings = { disk := d', log := some l, settings } := by
      simp only [opening, step, serve, released, hstart]
    rw [hopened]
    exact ⟨⟨Log.validate_of_start hstart, rfl, .opened rfl hstands⟩, l, rfl, hdesk⟩

theorem Agrees.holds_of_closed (h : Agrees folder s L) {k : Desk} (hk : L.desk = some k)
    (hc : k.closed = true) : ∃ ws, s.disk.Holds folder ws ∧ survey ws = ⟨L.records, none⟩ := by
  obtain ⟨-, -, hdesk, D, B, hstands, hrecords, hshut⟩ := h
  obtain ⟨l, hl, hlk⟩ := Option.map_eq_some_iff.mp (hdesk.symm.trans hk)
  have hlog := hstands.log hl
  have hclosed : l.closed = true := (congrArg Desk.closed hlk).trans hc
  obtain ⟨ws, htracks, hintact, -, hstored, -⟩ := hlog.keeps
  refine ⟨ws, ?_, ?_⟩
  · rw [← hlog.appender]
    exact htracks.holds
  · rw [survey_of_intact hintact, hstored, hrecords, hshut l hl hclosed, List.append_nil]

/-- A log that is used on a clear disk and closed is opened with all that it holds, and that is what
is read. -/
theorem Agrees.reopened (h : Agrees folder s L) (hr : s.Ready folder) (hopen : L.desk.isSome)
    {settings : Settings} (hv : settings.validate = .ok ()) (hf : settings.folder = folder) :
    let closed := s.step (.ask .close)
    let next := closed.step (.configure settings)
    (s.serve .close).1 = .done ∧
    (∃ ws, closed.disk.Holds folder ws ∧ survey ws = ⟨L.records, none⟩) ∧
    (next.serve .start).1 = .opened (Replay.ofRecords L.records) ∧
    ((next.step (.ask .start)).serve .readAll).1 =
      .records (L.records.filter (shown L.records)) := by
  intro closed next
  obtain ⟨k, hk⟩ := Option.isSome_iff_exists.mp hopen
  obtain ⟨hcalm, hready⟩ := h.calm hr (e := .ask .close) (wraps_close s)
  obtain ⟨hanswer, hclosed⟩ := h.ask hcalm
  rw [Ledger.serve_close hk] at hanswer hclosed
  have hnext := hclosed.step (e := .configure settings) ⟨hv, hf⟩ (by simp)
  obtain ⟨hcalm', hready'⟩ := hnext.calm (e := .ask .start) hready rfl
  obtain ⟨hstart, hopened⟩ := hnext.ask hcalm'
  obtain ⟨hcalm'', -⟩ := hopened.calm (e := .ask .readAll) hready' (wraps_readAll _)
  obtain ⟨hread, -⟩ := hopened.ask hcalm''
  refine ⟨hanswer, hclosed.holds_of_closed rfl rfl, hstart, hread.trans ?_⟩
  rw [Ledger.serve_readAll rfl rfl]
  rfl

/-- Every damaged log can be repaired. Whatever octets the segments of a folder hold, an opening that
cuts damage off succeeds and reports the records before the damage and its place. It leaves those
records and nothing behind them, and appends go on at the cut. What is visible of the records is
read, and after any further use and a closing every opening, under whatever policy, finds them with
all that was added, and no damage. -/
theorem repairs_tail {d : Disk} {vs : List Volume} {settings : Settings} (h : d.Holds folder vs)
    (hc : d.Clear folder) (hv : settings.validate = .ok ()) (hf : settings.folder = folder)
    (hp : settings.policy = .truncateTail) :
    let s : Session := { disk := d, settings }
    let opened := s.step (.ask .start)
    let kept := (survey vs).records
    (∀ x, (survey vs).damage = some x → ∃ v ∈ vs, v.segment = x.segment ∧
      x.offset < v.octets.length ∧ Octets.Whole (v.octets.take x.offset) ∧
      Record.decode (v.octets.drop x.offset) = .error x.cause) ∧
    (s.serve .start).1 = .opened { Replay.ofRecords kept with
      scanned := kept.length
      cutAt := (survey vs).damage.map fun x => (x.segment.id, x.offset) } ∧
    (∃ l, opened.log = some l ∧ l.Repairs d folder vs opened.disk) ∧
    (opened.serve .readAll).1 = .records (kept.filter (shown kept)) ∧
    ∀ es settings', d.Willing → opened.Along (Plain folder) es → settings'.validate = .ok () →
      settings'.folder = folder →
      let log := kept ++ opened.gains es
      let closed := (opened.run es).step (.ask .close)
      let next := closed.step (.configure settings')
      ((opened.run es).serve .close).1 = .done ∧
      (∃ ws, closed.disk.Holds folder ws ∧ survey ws = ⟨log, none⟩) ∧
      (next.serve .start).1 = .opened (Replay.ofRecords log) ∧
      (Replay.ofRecords log).cutAt = none ∧
      ((next.step (.ask .start)).serve .readAll).1 = .records (log.filter (shown log)) := by
  intro s opened kept
  subst hf
  obtain ⟨l, d', hstart, hrepairs⟩ := Log.start_repairs h hc hv hp
  have hserve : s.serve .start = (.opened l.report, { s with disk := d', log := some l }) := by
    simp only [serve, s, released, hstart]
  have hopened : opened = { s with disk := d', log := some l } := congrArg Prod.snd hserve
  have hagrees : Agrees settings.folder opened ⟨kept, some (Desk.ofRecords kept)⟩ := by
    rw [hopened]
    refine ⟨hv, rfl, ?_, kept, [], .opened rfl hrepairs.stands, (List.append_nil _).symm,
      fun _ _ _ => rfl⟩
    rw [Option.map_some, hrepairs.desk]
  refine ⟨fun x => survey_damage, ?_, ⟨l, ?_, ?_⟩, ?_, ?_⟩
  · rw [hserve, hrepairs.report]
    simp only [kept, ← Replay.scanned_ofRecords]
  · rw [hopened]
  · rw [hopened]
    exact hrepairs
  · have hclosed : l.closed = false := congrArg Desk.closed hrepairs.desk
    have hread := hrepairs.stands.readAll_of_nil hclosed
    rw [hopened, serve, onLog_eq rfl, hread]
    rfl
  · intro es settings' hw hplain hv' hf' log closed next
    have hready : opened.Ready settings.folder := by
      rw [hopened]
      exact hrepairs.ready hw
    obtain ⟨hcalm, hready'⟩ := hagrees.calm_run hready hplain
    obtain ⟨-, hlast⟩ := hagrees.run hcalm
    have hlog := hagrees.gains hcalm
    have hopen := Ledger.isSome_desk_run (l := ⟨kept, some (Desk.ofRecords kept)⟩) rfl (requests es)
    obtain ⟨hdone, hholds, hnext, hread⟩ := hlast.reopened hready' hopen hv' hf'
    rw [hlog] at hholds hnext hread
    exact ⟨hdone, hholds, hnext, Replay.cutAt_ofRecords log, hread⟩

/-! ## A torn record -/

/-- A folder in which the first of two segments, under a short name, ends inside a header. -/
def tornRecord : Disk where
  nodes := [((Location.top.enter "wal").enter "1.wal", .file 0),
    ((Location.top.enter "wal").enter "00000000000000000002.wal", .file 1),
    ((Location.top.enter "wal").enter "notes.txt", .file 2), (Location.top.enter "wal", .folder)]
  bodies := fun body =>
    if body = 0 then .ofOctets ((Record.write 5 0 [1] [2]).form ++ [9, 9, 9])
    else if body = 1 then .ofOctets (Record.write 6 0 [3] []).form
    else {}
  nextBody := 3

def tornVolumes : List Volume :=
  [⟨⟨1, "1.wal"⟩, (Record.write 5 0 [1] [2]).form ++ [9, 9, 9]⟩,
    ⟨Segment.ofId 2, (Record.write 6 0 [3] []).form⟩]

/-- Settings under which a segment is full after one record, and damage is cut off. -/
def cutting : Settings :=
  { folder := "wal", segmentLimit := 40, sync := false, policy := .truncateTail }

theorem holds_tornRecord : tornRecord.Holds "wal" tornVolumes := by
  have hsound : tornRecord.Sound :=
    ⟨by decide +kernel, by decide +kernel, by decide +kernel, by decide +kernel⟩
  have hvolumes : tornRecord.volumes "wal" = tornVolumes := by decide +kernel
  rw [← hvolumes]
  exact Disk.holds_volumes hsound (fun _ => Refusals.tidy_none) (by decide)
    ⟨Location.top.enter "wal", by decide +kernel⟩ (by decide +kernel)

theorem clear_tornRecord : tornRecord.Clear "wal" := by
  have hlocate : tornRecord.locate "wal" = .ok (Location.top.enter "wal") := by decide +kernel
  exact Disk.clear_of_files hlocate (by decide +kernel) (by decide +kernel)

theorem survey_tornVolumes : survey tornVolumes =
    ⟨[Record.write 5 0 [1] [2]], some ⟨⟨1, "1.wal"⟩, 28, .shortBuffer 3 26⟩⟩ := by
  have hfits : (Record.write 5 0 [1] [2]).Fits := by decide
  have hshort : Record.decode [9, 9, 9] = .error (.shortBuffer 3 26) := rfl
  have hremnant : Octets.remnant ((Record.write 5 0 [1] [2]).form ++ [9, 9, 9]) = [9, 9, 9] := by
    rw [Octets.remnant_form_append hfits, Octets.remnant_of_error hshort]
  have hdamaged : ¬ Octets.Whole ((Record.write 5 0 [1] [2]).form ++ [9, 9, 9]) := by
    rw [Octets.Whole, hremnant]
    simp
  have hrecords : Octets.records ((Record.write 5 0 [1] [2]).form ++ [9, 9, 9]) =
      [Record.write 5 0 [1] [2]] := by
    rw [Octets.records_form_append hfits, Octets.records_of_error hshort]
  have hlength : Octets.wholeLength ((Record.write 5 0 [1] [2]).form ++ [9, 9, 9]) = 28 := by
    rw [Octets.wholeLength, hremnant]
    decide
  have hflaw : Octets.flaw ((Record.write 5 0 [1] [2]).form ++ [9, 9, 9]) = .shortBuffer 3 26 := by
    rw [Octets.flaw_of_ok (Record.decode_form_append hfits _), ← Record.length_form, List.drop_left,
      Octets.flaw_of_error hshort]
  rw [tornVolumes, survey, Survey.ofOctets, if_neg hdamaged, hrecords, hlength, hflaw]

theorem repairs_tail_tornRecord :
    let opened := step { disk := tornRecord, settings := cutting } (.ask .start)
    let used : List Event := [.ask (.write 0 [4] []), .tick, .ask .begin, .ask (.write 1 [5] [])]
    let closed := (opened.run used).step (.ask .close)
    let next := closed.step (.configure { cutting with policy := .strict })
    (tornRecord.Holds "wal" tornVolumes ∧ tornRecord.Clear "wal" ∧ cutting.validate = .ok () ∧
      cutting.folder = "wal" ∧ cutting.policy = .truncateTail ∧
      opened.Along (Plain "wal") used) ∧
    (serve { disk := tornRecord, settings := cutting } .start).1 =
      .opened { scanned := 1, lastSequence := 5, cutAt := some (1, 28) } ∧
    (opened.serve .readAll).1 = .records [Record.write 5 0 [1] [2]] ∧
    ((opened.run used).serve .close).1 = .done ∧
    (next.serve .start).1 =
      .opened { scanned := 3, lastSequence := 7, lastTxn := 1, active := [1] } ∧
    ((next.step (.ask .start)).serve .readAll).1 =
      .records [Record.write 5 0 [1] [2], Record.write 6 0 [4] []] := by
  intro opened used closed next
  have hused : opened.Along (Plain "wal") used := by decide +kernel
  obtain ⟨-, hanswer, -, hread, hlater⟩ :=
    repairs_tail holds_tornRecord clear_tornRecord (show cutting.validate = .ok () from rfl) rfl rfl
  rw [survey_tornVolumes] at hanswer hread hlater
  obtain ⟨hdone, -, hnext, -, hagain⟩ :=
    hlater used { cutting with policy := .strict } (fun _ => rfl) hused rfl rfl
  have hgains : opened.gains used = [Record.write 6 0 [4] [], Record.write 7 1 [5] []] := by
    decide +kernel
  refine ⟨⟨holds_tornRecord, clear_tornRecord, rfl, rfl, rfl, hused⟩, hanswer, ?_, hdone, ?_, ?_⟩
  · rw [hread]
    decide +kernel
  · rw [hnext, hgains]
    decide +kernel
  · rw [hagain, hgains]
    decide +kernel

end Session

end SegmentLog
