import SegmentLog.Proofs.Concluding
import SegmentLog.Proofs.Sequence
import SegmentLog.Proofs.Strictness

/-!
What the report on a clean log says. A replay goes through the records once and keeps a list of
transactions that come in and go out again, maybe more than once. What it leaves is told from the
log as a whole (`Report.Tells`): the greatest numbers, and the transactions that some record begins
or writes to with no marker behind that record. Only one report tells this of a log
(`Tells.unique`), so a log that is closed and opened again, under whatever settings for the same
folder, is reported in the same way (`Log.reports_rows`).
-/

namespace SegmentLog

/-! ## Greatest numbers -/

/-- The greatest of some numbers, 0 where there is none. -/
structure Greatest (n : UInt64) (ns : List UInt64) : Prop where
  bound : ∀ m ∈ ns, m ≤ n
  reached : n ∈ ns ∨ ns = [] ∧ n = 0

namespace Greatest

variable {n m : UInt64} {ns : List UInt64}

theorem nil : Greatest 0 [] := ⟨nofun, .inr ⟨rfl, rfl⟩⟩

/-- The greater of the greatest number and one that comes behind. -/
theorem append (h : Greatest n ns) (m : UInt64) :
    Greatest (if n ≤ m then m else n) (ns ++ [m]) := by
  by_cases hle : n ≤ m
  · rw [if_pos hle]
    constructor
    · intro k hk
      rcases List.mem_append.mp hk with hk | hk
      · exact UInt64.le_trans (h.bound k hk) hle
      · rw [List.mem_singleton.mp hk]
        exact UInt64.le_refl m
    · exact .inl (by simp)
  · rw [if_neg hle]
    have hlt : m < n := UInt64.not_le.mp hle
    constructor
    · intro k hk
      rcases List.mem_append.mp hk with hk | hk
      · exact h.bound k hk
      · rw [List.mem_singleton.mp hk]
        exact UInt64.le_of_lt hlt
    · rcases h.reached with hn | ⟨-, rfl⟩
      · exact .inl (List.mem_append_left _ hn)
      · exact absurd hlt UInt64.not_lt_zero

theorem unique (h : Greatest n ns) (h' : Greatest m ns) : n = m := by
  rcases h.reached with hn | ⟨rfl, rfl⟩
  · rcases h'.reached with hm | ⟨rfl, -⟩
    · exact UInt64.le_antisymm (h'.bound n hn) (h.bound m hm)
    · cases hn
  · rcases h'.reached with hm | ⟨-, rfl⟩
    · cases hm
    · rfl

end Greatest

/-! ## Transactions that a log leaves open -/

/-- Some record of a log begins a transaction or writes to it, and behind that record stands no
marker of its outcome. -/
def LeftOpen (log : List Record) (txn : UInt64) : Prop :=
  ∃ before r after, log = before ++ r :: after ∧ r.opens txn = true ∧
    ∀ m ∈ after, m.decides txn = false

/-- One more record leaves a transaction open if it opens it, or if the log did and the record is
no marker of its outcome. -/
theorem leftOpen_append_iff {log : List Record} {r : Record} {txn : UInt64} :
    LeftOpen (log ++ [r]) txn ↔
      r.opens txn = true ∨ r.decides txn = false ∧ LeftOpen log txn := by
  constructor
  · rintro ⟨before, s, after, hlog, hopens, hafter⟩
    rcases List.eq_nil_or_concat after with rfl | ⟨middle, last, rfl⟩
    · -- the record that opens it is the last one
      obtain ⟨-, hlast⟩ := List.append_inj' hlog rfl
      obtain rfl := List.singleton_inj.mp hlast
      exact .inl hopens
    · rw [List.concat_eq_append] at hlog hafter
      rw [← List.cons_append, ← List.append_assoc] at hlog
      obtain ⟨rfl, hlast⟩ := List.append_inj' hlog rfl
      obtain rfl := List.singleton_inj.mp hlast
      right
      constructor
      · exact hafter r (by simp)
      · exact ⟨before, s, middle, rfl, hopens, fun m hm => hafter m (List.mem_append_left _ hm)⟩
  · rintro (hopens | ⟨hdecides, before, s, after, rfl, hopens, hafter⟩)
    · exact ⟨log, r, [], rfl, hopens, nofun⟩
    · refine ⟨before, s, after ++ [r], by simp, hopens, ?_⟩
      intro m hm
      rcases List.mem_append.mp hm with hm | hm
      · exact hafter m hm
      · rw [List.mem_singleton.mp hm]
        exact hdecides

/-- A replay, which looks at one record after the other, finds what a look at the whole log
finds. -/
theorem unresolved_iff_leftOpen {log : List Record} {txn : UInt64} :
    unresolved log txn = true ↔ LeftOpen log txn := by
  induction log using List.reverseRecOn with
  | nil =>
    constructor
    · intro h
      cases h
    · rintro ⟨before, r, after, hlog, -⟩
      simp at hlog
  | append_singleton log r ih =>
    rw [unresolved_append, leftOpen_append_iff, ← ih]
    by_cases ho : r.opens txn = true
    · simp [ho]
    · by_cases hd : r.decides txn = true
      · simp [ho, hd]
      · simp [ho, hd]

/-! ## Reports -/

/-- What a report on an undamaged log has to say. -/
structure Report.Tells (report : Report) (log : List Record) : Prop where
  scanned : report.scanned = log.length
  sequence : Greatest report.lastSequence (log.map (·.sequence))
  txn : Greatest report.lastTxn (log.map (·.txn))
  ascending : report.active.Pairwise (· < ·)
  active : ∀ txn, txn ∈ report.active ↔ LeftOpen log txn
  uncut : report.cutAt = none

/-- Ascending lists of the same numbers are the same. -/
theorem eq_of_ascending {xs ys : List UInt64} (hx : xs.Pairwise (· < ·)) (hy : ys.Pairwise (· < ·))
    (h : ∀ n, n ∈ xs ↔ n ∈ ys) : xs = ys := by
  have hnodup {ns : List UInt64} (hn : ns.Pairwise (· < ·)) : ns.Nodup :=
    hn.imp fun hlt => UInt64.ne_of_lt hlt
  have hperm : xs.Perm ys := (List.perm_ext_iff_of_nodup (hnodup hx) (hnodup hy)).mpr h
  refine hperm.eq_of_pairwise ?_ hx hy
  intro n m _ _ hnm hmn
  exact absurd hmn (UInt64.lt_asymm hnm)

/-- The records of a log leave no choice to a report. -/
theorem Report.Tells.unique {report report' : Report} {log : List Record} (h : report.Tells log)
    (h' : report'.Tells log) : report = report' := by
  obtain ⟨scanned, sequence, txn, active, cut⟩ := report
  obtain ⟨scanned', sequence', txn', active', cut'⟩ := report'
  obtain rfl : scanned = scanned' := h.scanned.trans h'.scanned.symm
  obtain rfl : sequence = sequence' := h.sequence.unique h'.sequence
  obtain rfl : txn = txn' := h.txn.unique h'.txn
  obtain rfl : cut = cut' := h.uncut.trans h'.uncut.symm
  obtain rfl : active = active' :=
    eq_of_ascending h.ascending h'.ascending fun t => (h.active t).trans (h'.active t).symm
  rfl

namespace Replay

theorem greatest_lastSequence (log : List Record) :
    Greatest (ofRecords log).lastSequence (log.map (·.sequence)) := by
  induction log using List.reverseRecOn with
  | nil => exact .nil
  | append_singleton log r ih =>
    rw [lastSequence_append, List.map_append]
    exact ih.append r.sequence

theorem greatest_lastTxn (log : List Record) :
    Greatest (ofRecords log).lastTxn (log.map (·.txn)) := by
  induction log using List.reverseRecOn with
  | nil => exact .nil
  | append_singleton log r ih =>
    rw [lastTxn_append, List.map_append]
    exact ih.append r.txn

/-- A replay tells what is to be told of its records. -/
theorem tells_ofRecords (log : List Record) : (ofRecords log).Tells log where
  scanned := scanned_ofRecords log
  sequence := greatest_lastSequence log
  txn := greatest_lastTxn log
  ascending := pairwise_active log
  active := fun _ => mem_active.trans unresolved_iff_leftOpen
  uncut := cutAt_ofRecords log

end Replay

/-- A table takes over the active transactions in their order. -/
theorem Transactions.activeIds_ofActive (n : UInt64) (active : List UInt64) :
    (ofActive n active).activeIds = active := by
  unfold activeIds ofActive
  induction active with
  | nil => rfl
  | cons id rest ih =>
    rw [List.map_cons, List.filter_cons_of_pos (by simp), List.map_cons, ih]

/-! ## Clean logs -/

/-- A segment with the records that its file is made of. -/
structure Row where
  segment : Segment
  records : List Record
  deriving DecidableEq, Repr

/-- What the file of a row holds. -/
def Row.volume (row : Row) : Volume := ⟨row.segment, row.records.flatMap Record.form⟩

theorem intact_rows {rows : List Row} (h : ∀ row ∈ rows, ∀ r ∈ row.records, r.Fits) :
    Intact (rows.map Row.volume) := by
  intro v hv
  obtain ⟨row, hrow, rfl⟩ := List.mem_map.mp hv
  exact Octets.whole_row (h row hrow)

theorem recordsIn_rows {rows : List Row} (h : ∀ row ∈ rows, ∀ r ∈ row.records, r.Fits) :
    recordsIn (rows.map Row.volume) = rows.flatMap (·.records) := by
  induction rows with
  | nil => rfl
  | cons row rest ih =>
    have hrow : row.volume.octets.records = row.records :=
      Octets.records_row (h row List.mem_cons_self)
    rw [List.map_cons, recordsIn_cons, hrow, ih fun row' hr => h row' (List.mem_cons_of_mem _ hr),
      List.flatMap_cons]

namespace Appender

variable {d : Disk} {settings : Settings} {vs : List Volume}

/-- An appender starts the same when its folders are made before. -/
theorem start_of_makeFolders {made : Disk} (hmade : d.makeFolders settings.folder = (.ok (), made))
    (h : made.Holds settings.folder vs) :
    Appender.start d settings = Appender.start made settings := by
  obtain ⟨loc, hl⟩ := h.located
  have hagain := Disk.makeFolders_of_locate hl
  unfold Appender.start
  rw [hmade, hagain]

/-- Where there is a segment, or a file can be created for the first one, an appender starts with a
file open and something in its folder. -/
theorem start_of_file (h : d.Holds settings.folder vs)
    (hfirst : vs = [] → ∃ body d',
      d.openWrite ((Segment.ofId Segment.firstId).place settings.folder) = .ok (.file body, d')) :
    ∃ a body d' ws, Appender.start d settings = (.ok a, d') ∧ a.folder = settings.folder ∧
      a.file = some (.file body) ∧ Opens settings d vs a d' ws ∧ ws ≠ [] := by
  by_cases hne : vs = []
  · subst hne
    obtain ⟨body, d', hwrite⟩ := hfirst rfl
    have hopen : openSegment d settings.folder (Segment.ofId Segment.firstId) =
        .ok (.file body, d'.size (.file body), d') := by
      rw [openSegment, hwrite]
    obtain ⟨ws, hopens⟩ := opens_first h hopen
    refine ⟨_, body, d', ws, start_of_openSegment h hopen, rfl, rfl, hopens, ?_⟩
    rintro rfl
    cases hopens.tracks.file_of_nil (n := .file body) rfl
  · obtain ⟨front, v, rfl⟩ := (List.eq_nil_or_concat vs).resolve_left hne
    rw [List.concat_eq_append] at h ⊢
    obtain ⟨n, hopen, hopens⟩ := opens_last h
    obtain ⟨-, body, hb, -⟩ := h.shows v (by simp)
    have hfile : n = .file body := by
      rw [openSegment, Disk.openWrite_of_bodyOf? h.tidy hb] at hopen
      exact (congrArg Prod.fst (Except.ok.inj hopen)).symm
    rw [← lastOf_append front v] at hopen hopens
    exact ⟨_, body, d, _, start_of_openSegment h hopen, rfl, congrArg some hfile, hopens, by simp⟩

/-- Closing is granted where nothing is in the buffer and a file is open. -/
theorem close_of_file {a : Appender} {body : Nat} (hb : a.buffer = [])
    (hf : a.file = some (.file body)) (ht : d.Tidy) : (a.close d).1 = .ok () := by
  unfold Appender.close
  split
  · rfl
  · have hshut : Appender.flush { a with closed := true } d =
        (.ok (), { a with closed := true }, d) := by
      rw [Appender.flush, if_pos hb]
    simp only [hshut]
    exact letGo_of_ne_full (by simp [hf]) ht

end Appender

namespace Log

variable {d made : Disk} {settings : Settings} {rows : List Row}

/-- A clean log is opened under every policy. The report tells of its records; the log goes on
behind the greatest numbers, with the open transactions in its table. Closing is granted, and once
the log is opened again, maybe under other settings, the report is the same. -/
theorem reports_rows (hmade : d.makeFolders settings.folder = (.ok (), made))
    (h : made.Holds settings.folder (rows.map Row.volume))
    (hfits : ∀ row ∈ rows, ∀ r ∈ row.records, r.Fits) (hv : settings.validate = .ok ())
    (hfirst : rows = [] → ∃ body d', made.openWrite
      ((Segment.ofId Segment.firstId).place settings.folder) = .ok (.file body, d')) :
    let log := rows.flatMap (·.records)
    ∃ l d', Log.start d settings = (.ok l, d') ∧ l.report.Tells log ∧
      l.lastSequence = l.report.lastSequence ∧ l.transactions.activeIds = l.report.active ∧
      ((∀ r ∈ log, r.txn.toNat + 1 < 2 ^ 64) →
        l.nextTxn.toNat = l.report.lastTxn.toNat + 1) ∧
      (l.close d').1 = .ok () ∧
      ∀ again : Settings, again.folder = settings.folder → again.validate = .ok () →
        ∃ l' d'', Log.start (l.close d').2.2 again = (.ok l', d'') ∧ l'.report = l.report := by
  intro log
  have hintact := intact_rows hfits
  have hrecords : recordsIn (rows.map Row.volume) = log := recordsIn_rows hfits
  obtain ⟨a, body, d', ws, hstart, hfolder, hfile, hopens, hws⟩ :=
    Appender.start_of_file h fun hnil => hfirst (List.map_eq_nil_iff.mp hnil)
  have hsame : Log.start d settings = Log.start made settings := by
    simp only [Log.start, hv, Appender.start_of_makeFolders hmade h]
  have hopened := start_of_opens hintact hv hstart hfolder hopens
  rw [hrecords] at hopened
  have htells := Replay.tells_ofRecords log
  have hempty := Appender.buffer_of_start hstart
  have hclose : ((ofReport settings a (Replay.ofRecords log)).close d').1 = .ok () ∧
      ((ofReport settings a (Replay.ofRecords log)).close d').2.2 = d' :=
    ⟨Appender.close_of_file hempty hfile hopens.tracks.holds.tidy, Appender.close_of_nil hempty⟩
  refine ⟨_, d', hsame.trans hopened, htells, rfl, ?_, ?_, hclose.1, ?_⟩
  · exact Transactions.activeIds_ofActive _ _
  · intro hroom
    have hlast : (Replay.ofRecords log).lastTxn.toNat + 1 < 2 ^ 64 := by
      rcases htells.txn.reached with hmem | ⟨-, hzero⟩
      · obtain ⟨r, hr, hlast⟩ := List.mem_map.mp hmem
        rw [← hlast]
        exact hroom r hr
      · rw [hzero]
        decide
    exact Desk.nextId_ofRecords hlast
  · intro again hagain hv'
    rw [hclose.2]
    obtain ⟨hws', hfound⟩ := hopens.intact hintact
    have hholds : d'.Holds again.folder ws := by
      rw [hagain, ← hfolder]
      exact hopens.tracks.holds
    obtain ⟨n, length, hstart', hopens'⟩ := Appender.start_of_ne_nil hholds hws
    have hreopened := start_of_opens hws' hv' hstart' rfl hopens'
    rw [hfound, hrecords] at hreopened
    exact ⟨_, d', hreopened, rfl⟩

/-! ## A log with a bit of everything -/

/-- Records of every kind, under numbers in no order. Transaction 2 is written to again behind its
commit marker, 5 is begun, and 7 is rolled back without ever being opened. -/
def mixedRows : List Row :=
  [⟨⟨3, "3.wal"⟩, [Record.write 4 2 [1] [2], Record.marker .txnBegin 9 5,
      Record.marker .txnCommit 1 2, Record.write 0 0 [] [7]]⟩,
    ⟨Segment.ofId 10, [Record.marker .txnRollback 7 7, Record.marker .checkpoint 3 0,
      Record.write 4 2 [3] [], Record.marker .commit 2 11, Record.marker .abort 2 5]⟩]

/-- A folder that holds them. -/
def mixedRecords : Disk where
  nodes := [((Location.top.enter "wal").enter "00000000000000000010.wal", .file 0),
    ((Location.top.enter "wal").enter "3.wal", .file 1), (Location.top.enter "wal", .folder)]
  bodies := fun body =>
    if body = 0 then .ofOctets ((mixedRows.map (·.volume.octets)).getLastD [])
    else if body = 1 then .ofOctets ((mixedRows.map (·.volume.octets)).headD [])
    else {}
  nextBody := 2

theorem holds_mixedRecords : mixedRecords.Holds "wal" (mixedRows.map Row.volume) := by
  have hsound : mixedRecords.Sound :=
    ⟨by decide +kernel, by decide +kernel, by decide +kernel, by decide +kernel⟩
  have hvolumes : mixedRecords.volumes "wal" = mixedRows.map Row.volume := by decide +kernel
  rw [← hvolumes]
  exact Disk.holds_volumes hsound (fun _ => Refusals.tidy_none) (by decide)
    ⟨Location.top.enter "wal", by decide +kernel⟩ (by decide +kernel)

theorem reports_rows_mixedRows :
    let settings := Session.cutting
    (mixedRecords.makeFolders settings.folder = (.ok (), mixedRecords) ∧
      mixedRecords.Holds settings.folder (mixedRows.map Row.volume) ∧
      (∀ row ∈ mixedRows, ∀ r ∈ row.records, r.Fits) ∧ settings.validate = .ok () ∧
      mixedRows ≠ []) ∧
    ∃ l d', Log.start mixedRecords settings = (.ok l, d') ∧
      l.report = { scanned := 9, lastSequence := 9, lastTxn := 11, active := [2, 5] } ∧
      l.nextTxn = 12 ∧ LeftOpen (mixedRows.flatMap (·.records)) 2 ∧
      ¬ LeftOpen (mixedRows.flatMap (·.records)) 7 ∧
      ∃ l' d'', Log.start (l.close d').2.2 { settings with policy := .strict } = (.ok l', d'') ∧
        l'.report = l.report := by
  intro settings
  have hlocate : mixedRecords.locate settings.folder = .ok (Location.top.enter "wal") := by
    decide +kernel
  have hmade := Disk.makeFolders_of_locate hlocate
  have hfits : ∀ row ∈ mixedRows, ∀ r ∈ row.records, r.Fits := by decide
  have hv : settings.validate = .ok () := rfl
  have hne : mixedRows ≠ [] := by simp [mixedRows]
  obtain ⟨l, d', hstart, htells, -, -, hnext, -, hagain⟩ :=
    reports_rows hmade holds_mixedRecords hfits hv fun hnil => absurd hnil hne
  have hreport : l.report = { scanned := 9, lastSequence := 9, lastTxn := 11, active := [2, 5] } :=
    (htells.unique (Replay.tells_ofRecords _)).trans (by decide)
  refine ⟨⟨hmade, holds_mixedRecords, hfits, hv, hne⟩, l, d', hstart, hreport, ?_, ?_, ?_,
    hagain _ rfl rfl⟩
  · rw [hreport] at hnext
    exact UInt64.toNat_inj.mp (hnext (by decide))
  · exact (htells.active 2).mp (by rw [hreport]; decide)
  · intro hopen
    have hmem := (htells.active 7).mpr hopen
    rw [hreport] at hmem
    exact absurd hmem (by decide)

end Log

end SegmentLog
