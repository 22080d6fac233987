import SegmentLog.Proofs.LiveTable
import SegmentLog.Proofs.Tickets
import SegmentLog.Shell

/-!
What a command of the command line does. Between two commands a folder holds the records of its log
and the ticket (`Shell.Stands`). A command opens the log, and while it is open it stays at work
beside the ticket (`Log.Works`); where nothing stands in the way of writing, every operation is the
one at the desk (`Log.Does`). So a command does to the records and to the ticket one of the few
things that `Shell.Does` lists, whatever its settings (`Shell.Stands.runCommand`).
-/

namespace SegmentLog

/-! ## An open log beside a ticket -/

namespace Log

/-- Of the records in the folder of an open log these stand on disk and those in its buffer, nothing
stands in the way of writing, and beside them is a ticket. -/
structure Works (l : Log) (d : Disk) (folder : String) (stored buffered : List Record)
    (t : Ticket) : Prop where
  stands : l.Stands d folder stored buffered
  ready : l.appender.Ready d
  filed : ∃ loc, Ticket.Filed d folder loc t

/-- An operation on a log at work is the one that was entered at its desk, and leaves the ticket and
the paths to it alone. -/
structure Does {α : Type} (l : Log) (d : Disk) (folder : String) (stored buffered : List Record)
    (t : Ticket) (result : Except Error α × Log × Disk) (entry : Desk.Entry α)
    (stored' buffered' : List Record) : Prop where
  answer : result.1 = entry.1
  desk : result.2.1.desk = entry.2.1
  works : result.2.1.Works result.2.2 folder stored' buffered' t
  records : stored' ++ buffered' = stored ++ buffered ++ entry.2.2
  leads : d.Leads result.2.2
  segment : Follows l.currentSegment result.2.1.currentSegment

variable {l : Log} {d d' : Disk} {folder : String} {D B S T : List Record} {t t' : Ticket}

theorem Works.held (h : l.Works d folder D B t) : l.appender.Held d := by
  obtain ⟨vs, htracks, -⟩ := h.stands.keeps
  exact htracks.held

theorem Works.does {α : Type} (h : l.Works d folder D B t) {result : Except Error α × Log × Disk}
    {entry : Desk.Entry α} (hm : l.Mirrors d folder D B result entry S T)
    (hc : l.appender.Confined d result.2.1.appender result.2.2)
    (hs : Follows l.currentSegment result.2.1.currentSegment) :
    l.Does d folder D B t result entry S T := by
  obtain ⟨loc, hfiled⟩ := h.filed
  have hframes := hc.frames
  rw [h.stands.appender] at hframes
  exact ⟨hm.answer, hm.desk, ⟨hm.stands, hm.ready h.ready, loc, hfiled.frames hframes⟩, hm.records,
    hframes.toLeads, hs⟩

/-- Nothing is refused where nothing stands in the way. -/
theorem Works.refusal_eq_none {α : Type} (h : l.Works d folder D B t) {refusal : Option Error}
    {answer : Except Error α} (hr : l.Refuses d refusal answer) : refusal = none := by
  cases refusal with
  | none => rfl
  | some e => exact absurd h.ready (hr e rfl).2.2

section Operations

variable (h : l.Works d folder D B t)
include h

theorem Works.write (hlt : l.currentSegment.toNat + 1 < 2 ^ 64) (txn : UInt64)
    (key value : Octets) :
    ∃ S T, l.Does d folder D B t (l.write d txn key value)
      (l.desk.write none txn key value) S T := by
  have hfollows := l.follows_add d (Record.write l.nextSequence txn key value) (txn == 0)
  obtain ⟨refusal, S, T, hrefuses, hmirrors, -⟩ :=
    h.stands.write txn key value (hfollows.not_lt hlt)
  obtain rfl := h.refusal_eq_none hrefuses
  exact ⟨S, T, h.does hmirrors (confined_add h.held _ _) hfollows⟩

theorem Works.commit (hlt : l.currentSegment.toNat + 1 < 2 ^ 64) (txn : UInt64) :
    ∃ S T, l.Does d folder D B t (l.commit d txn) (l.desk.commit none txn) S T := by
  have hfollows := l.follows_commit d txn
  obtain ⟨refusal, S, T, hrefuses, hmirrors, -⟩ := h.stands.commit txn (hfollows.not_lt hlt)
  obtain rfl := h.refusal_eq_none hrefuses
  exact ⟨S, T, h.does hmirrors (confined_commit h.held _) hfollows⟩

theorem Works.abort (hlt : l.currentSegment.toNat + 1 < 2 ^ 64) (txn : UInt64) :
    ∃ S T, l.Does d folder D B t (l.abort d txn) (l.desk.abort none txn) S T := by
  have hfollows := l.follows_abort d txn
  obtain ⟨refusal, S, T, hrefuses, hmirrors, -⟩ := h.stands.abort txn (hfollows.not_lt hlt)
  obtain rfl := h.refusal_eq_none hrefuses
  exact ⟨S, T, h.does hmirrors (confined_abort h.held _) hfollows⟩

theorem Works.sync : ∃ S T, l.Does d folder D B t (l.sync d) (l.desk.sync none) S T := by
  obtain ⟨refusal, S, T, hrefuses, hmirrors, -⟩ := h.stands.sync
  obtain rfl := h.refusal_eq_none hrefuses
  exact ⟨S, T, h.does hmirrors (confined_sync h.held) (.inl (l.currentSegment_sync d))⟩

theorem Works.readAll :
    ∃ S T, l.Does d folder D B t (l.readAll d) (l.desk.readAll none (D ++ B)) S T := by
  obtain ⟨refusal, S, T, hrefuses, hmirrors, -⟩ := h.stands.readAll
  obtain rfl := h.refusal_eq_none hrefuses
  exact ⟨S, T, h.does hmirrors (confined_readAll h.held) (.inl (l.currentSegment_readAll d))⟩

/-- Another ticket beside the log leaves it at work. -/
theorem Works.refiled (hd : ∀ loc, Ticket.Filed d folder loc t →
      Ticket.Refiled d folder loc t' d') : l.Works d' folder D B t' ∧ d.Leads d' := by
  obtain ⟨loc, hfiled⟩ := h.filed
  have hnew := hd loc hfiled
  refine ⟨⟨h.stands.spares hnew.spares,
    ⟨?_, h.ready.willing.of_refusals hnew.refusals, h.ready.file⟩, loc, hnew.filed⟩, hnew.leads⟩
  rw [h.stands.appender]
  have hclear := h.ready.clear
  rw [h.stands.appender] at hclear
  exact hnew.clear hclear

end Operations

end Log

/-! ## Between two commands -/

/-- The segments of a folder hold these records, undamaged. -/
def Disk.Logs (d : Disk) (folder : String) (log : List Record) : Prop :=
  ∃ vs, d.Holds folder vs ∧ Intact vs ∧ recordsIn vs = log

namespace Disk.Logs

variable {d d' : Disk} {folder : String} {log : List Record} {n : Nat}

theorem sound (h : d.Logs folder log) : d.Sound := by
  obtain ⟨vs, hholds, -⟩ := h
  exact hholds.sound

theorem located (h : d.Logs folder log) : ∃ loc, d.locate folder = .ok loc := by
  obtain ⟨vs, hholds, -⟩ := h
  exact hholds.located

theorem recordsOf (h : d.Logs folder log) : Log.recordsOf d folder = .ok log := by
  obtain ⟨vs, hholds, hintact, rfl⟩ := h
  rw [hholds.recordsOf, survey_of_intact hintact]

theorem skips (h : d.Logs folder log) (hd : d.Skips folder d') : d'.Logs folder log := by
  obtain ⟨vs, hholds, hrest⟩ := h
  exact ⟨vs, hholds.skips hd, hrest⟩

/-- The segments of a folder keep their numbers when others change the disk. -/
theorem within_skips (h : d.Logs folder log) (hd : d.Skips folder d') (hn : d.Within folder n) :
    d'.Within folder n := by
  obtain ⟨vs, hholds, -⟩ := h
  exact (hholds.skips hd).within_iff.mpr (hholds.within_iff.mp hn)

/-- Such a folder is opened as a log with all its records, in its last segment, or it stays as it
is: settings may be refused, and where something stands in the way the first segment. -/
theorem start {settings : Settings} (h : d.Logs folder log) (hf : settings.folder = folder) :
    (∃ l d', Log.start d settings = (.ok l, d') ∧ l.Stands d' folder log [] ∧
      l.desk = Desk.ofRecords log ∧ d.Frames folder d' ∧
      (d.Clear folder → d.Willing → l.appender.Ready d') ∧
      ∀ n, d.Within folder n → 1 ≤ n → l.currentSegment.toNat ≤ n) ∨
    (∃ e, Log.start d settings = (.error e, d) ∧ (∀ txn, e ≠ .notActive txn) ∧
      (settings.validate = .ok () → ¬ d.Clear folder)) := by
  subst hf
  obtain ⟨vs, hholds, hintact, rfl⟩ := h
  cases hv : settings.validate with
  | error e =>
    refine .inr ⟨e, by simp only [Log.start, hv], fun txn he => ?_, fun hok => by cases hok⟩
    subst he
    unfold Settings.validate at hv
    split at hv <;> cases hv
  | ok _ =>
    rcases Log.start_of_intact hholds hintact hv with
      ⟨a, d', ws, hstart, hkeeps, hterms, hopens⟩ | ⟨e, hstart, hio, hnot⟩
    · have happender := Log.start_appender hstart (Replay.cutAt_ofRecords _)
      obtain ⟨hfolder, hframes, -⟩ := Appender.confined_start hholds happender
      refine .inl ⟨_, d', hstart, ⟨rfl, hfolder, hterms.closed, hkeeps⟩, rfl, hframes,
        hopens.ready, fun n hn hpos => ?_⟩
      show a.active.id.toNat ≤ n
      rw [hopens.active]
      rcases List.eq_nil_or_concat vs with rfl | ⟨front, v, rfl⟩
      · exact hpos
      · rw [List.concat_eq_append, Appender.lastOf_append]
        exact hholds.within_iff.mp hn v (by simp)
    · refine .inr ⟨e, hstart, fun txn he => ?_, fun _ => hnot⟩
      rw [he] at hio
      cases hio

end Disk.Logs

/-- An open log stands on a folder that holds its records on disk. -/
theorem Log.Stands.logs {l : Log} {d : Disk} {folder : String} {D B : List Record}
    (h : l.Stands d folder D B) : d.Logs folder D := by
  obtain ⟨vs, htracks, hintact, -, hstored, -⟩ := h.keeps
  refine ⟨vs, ?_, hintact, hstored⟩
  rw [← h.appender]
  exact htracks.holds

namespace Shell

/-- The segments of a folder hold these records, nothing stands in the way of writing, and beside
them is a ticket. -/
structure Stands (d : Disk) (folder : String) (log : List Record) (t : Ticket) : Prop where
  volumes : ∃ vs, d.Holds folder vs ∧ Intact vs ∧ recordsIn vs = log
  clear : d.Clear folder
  willing : d.Willing
  filed : ∃ loc, Ticket.Filed d folder loc t

variable {d : Disk} {folder : String} {log : List Record} {t : Ticket} {settings : Settings}
  {n : Nat}

theorem Stands.logs (h : Stands d folder log t) : d.Logs folder log := h.volumes

theorem Stands.recordsOf (h : Stands d folder log t) : Log.recordsOf d folder = .ok log :=
  h.logs.recordsOf

theorem Stands.load (h : Stands d folder log t) : Ticket.load d folder = .ok t := by
  obtain ⟨loc, hfiled⟩ := h.filed
  exact hfiled.load

/-- The open transaction can be closed between two commands. -/
theorem Stands.finish (h : Stands d folder log t) (hopen : t.isOpen = true) :
    ∃ d', Ticket.finish d folder t.last = (.ok (), d') ∧
      Stands d' folder log { t with isOpen := false } ∧ d.Leads d' ∧
      (d.Within folder n → d'.Within folder n) := by
  obtain ⟨loc, hfiled⟩ := h.filed
  obtain ⟨d', hfinish, hnew⟩ := hfiled.finish h.logs.sound h.willing hopen
  have hskips := hnew.spares.skips
  have hwilling := h.willing.of_refusals hnew.refusals
  exact ⟨d', hfinish, ⟨h.logs.skips hskips, hnew.clear h.clear, hwilling, loc, hnew.filed⟩,
    hnew.leads, h.logs.within_skips hskips⟩

/-! ## Opening and closing -/

/-- A log is opened with all its records, in its last segment. -/
theorem Stands.start (h : Stands d folder log t) (hf : settings.folder = folder)
    (hv : settings.validate = .ok ()) (hn : d.Within folder n) (hpos : 1 ≤ n) :
    ∃ l d', Log.start d settings = (.ok l, d') ∧ l.Works d' folder log [] t ∧
      l.desk = Desk.ofRecords log ∧ d.Leads d' ∧ l.currentSegment.toNat ≤ n := by
  obtain ⟨loc, hfiled⟩ := h.filed
  rcases h.logs.start hf with ⟨l, d', hstart, hstands, hdesk, hframes, hready, hsegment⟩ |
    ⟨e, -, -, hnot⟩
  · have hworks : l.Works d' folder log [] t :=
      ⟨hstands, hready h.clear h.willing, loc, hfiled.frames hframes⟩
    exact ⟨l, d', hstart, hworks, hdesk, hframes.toLeads, hsegment n hn hpos⟩
  · exact absurd h.clear (hnot hv)

end Shell

/-- A log at work can be closed, with all its records on disk. -/
theorem Log.Works.close {l : Log} {d : Disk} {folder : String} {D B : List Record} {t : Ticket}
    (h : l.Works d folder D B t) (hc : l.closed = false) :
    ∃ l' d', l.close d = (.ok (), l', d') ∧ Shell.Stands d' folder (D ++ B) t ∧ d.Leads d' ∧
      d'.Within folder l.currentSegment.toNat := by
  obtain ⟨refusal, S, T, hrefuses, hmirrors, hempty⟩ := h.stands.close
  obtain rfl := h.refusal_eq_none hrefuses
  have hdoes := h.does hmirrors (confined_close h.held) (.inl (l.currentSegment_close d))
  have hok : (l.close d).1 = .ok () := by
    rw [hdoes.answer]
    simp only [Desk.close, Log.desk, hc]
  obtain rfl := hempty (by rw [hok]; rfl) hc
  have hrecords : S = D ++ B := by
    have hadded : (l.desk.close none).2.2 = [] := by simp only [Desk.close, Log.desk, hc]
    simpa [hadded] using hdoes.records
  subst hrecords
  have hstands := hdoes.works.stands
  have hwithin := hstands.within
  rw [l.currentSegment_close d] at hwithin
  refine ⟨(l.close d).2.1, (l.close d).2.2, Prod.ext hok rfl,
    ⟨hstands.logs, ?_, hdoes.works.ready.willing, hdoes.works.filed⟩, hdoes.leads, hwithin⟩
  rw [← hstands.appender]
  exact hdoes.works.ready.clear

/-! ## Outcomes at a fresh desk -/

namespace Desk

/-- What is entered for an outcome after a replay: its marker, if the log leaves the transaction
unresolved. -/
def settled (log : List Record) (kind : Kind) (txn : UInt64) : Entry Unit :=
  if unresolved log txn then
    (.ok (), { ofRecords log with
      lastSequence := (ofRecords log).lastSequence + 1
      transactions := (ofRecords log).transactions.erase txn },
      [Record.marker kind ((ofRecords log).lastSequence + 1) txn])
  else (.error (.notActive txn), ofRecords log, [])

theorem eq_settled {log : List Record} {kind : Kind} {txn : UInt64} {entry : Entry Unit}
    (hs : (ofRecords log).Settles txn entry)
    (hactive : entry.1 = .ok () → entry = (.ok (), { ofRecords log with
      lastSequence := (ofRecords log).lastSequence + 1
      transactions := (ofRecords log).transactions.erase txn },
      [Record.marker kind ((ofRecords log).lastSequence + 1) txn]))
    (hunknown : (ofRecords log).phase? txn ≠ some .active →
      entry = (.error (.notActive txn), ofRecords log, [])) :
    entry = settled log kind txn := by
  have hphase := phase?_ofRecords log txn
  unfold settled
  cases hu : unresolved log txn with
  | true =>
    rw [hu] at hphase
    rcases hs with ⟨-, -, hok, -⟩ | ⟨hnot, -⟩
    · exact hactive hok
    · exact absurd ⟨hphase, rfl⟩ hnot
  | false =>
    rw [hu] at hphase
    apply hunknown
    rw [hphase]
    nofun

theorem commit_ofRecords (log : List Record) (txn : UInt64) :
    (ofRecords log).commit none txn = settled log .txnCommit txn := by
  apply eq_settled ((ofRecords log).settles_commit txn)
  · exact fun hok => (commit_of_ok hok).2
  · intro hnot
    have hstart : (ofRecords log).transactions.startCommit txn = .error (.notActive txn) :=
      if_neg hnot
    simp only [Desk.commit, hstart]

theorem abort_ofRecords (log : List Record) (txn : UInt64) :
    (ofRecords log).abort none txn = settled log .txnRollback txn := by
  apply eq_settled ((ofRecords log).settles_abort txn)
  · exact fun hok => (abort_of_ok hok).2
  · intro hnot
    have htake : (ofRecords log).transactions.takeForAbort txn = .error (.notActive txn) :=
      if_neg hnot
    simp only [Desk.abort, htake]

end Desk

namespace Shell

variable {d d' : Disk} {folder : String} {log log' : List Record} {t t' : Ticket}
  {settings : Settings} {n : Nat} {l : Log}

/-- The marker by which a command ends a transaction. -/
def Command.ending? : Command → Option Kind
  | .commit => some .txnCommit
  | .abort => some .txnRollback
  | _ => none

/-- A command that may add a record. -/
def Command.adds : Command → Bool
  | .write _ _ | .txWrite _ _ | .commit | .abort => true
  | .read | .beginTx | .status => false

/-! ## Actions -/

/-- An action leaves a log open and at work, with these records and this ticket. -/
structure Acts (l : Log) (d : Disk) (folder : String) (after : Log × Disk) (log : List Record)
    (t : Ticket) : Prop where
  works : ∃ D B, after.1.Works after.2 folder D B t ∧ D ++ B = log
  opened : after.1.closed = false
  leads : d.Leads after.2
  segment : Follows l.currentSegment after.1.currentSegment

/-- A log that was just opened: all its records are on disk, and no segment has a number above
`n`. -/
structure Fresh (l : Log) (d : Disk) (folder : String) (n : Nat) (log : List Record) (t : Ticket) :
    Prop where
  works : l.Works d folder log [] t
  desk : l.desk = Desk.ofRecords log
  segment : l.currentSegment.toNat ≤ n

theorem Fresh.opened (h : Fresh l d folder n log t) : l.closed = false :=
  congrArg Desk.closed h.desk

theorem Fresh.room (h : Fresh l d folder n log t) (hlt : n + 1 < 2 ^ 64) :
    l.currentSegment.toNat + 1 < 2 ^ 64 := by
  have hle := h.segment
  omega

/-- What an operation on a fresh log makes of it. -/
theorem acts_of_does {α : Type} {result : Except Error α × Log × Disk} {entry : Desk.Entry α}
    {D B : List Record} (hd : l.Does d folder log [] t result entry D B)
    (hc : entry.2.1.closed = false) : Acts l d folder result.2 (log ++ entry.2.2) t := by
  refine ⟨⟨D, B, hd.works, ?_⟩, ?_, hd.leads, hd.segment⟩
  · rw [hd.records, List.append_nil]
  · rw [← hd.desk] at hc
    exact hc

/-- Nothing is done. -/
theorem Fresh.idle (h : Fresh l d folder n log t) : Acts l d folder (l, d) log t :=
  ⟨⟨log, [], h.works, List.append_nil log⟩, h.opened, Disk.Leads.refl d, .inl rfl⟩

/-- What commands do to the records of a log and to the ticket beside it. A command that is refused
does nothing. -/
inductive Does (log : List Record) (t : Ticket) :
    Command → Outcome → List Record → Ticket → Prop
  | refused (c : Command) (e : Error) (output : String) : Does log t c ⟨.error e, output⟩ log t
  | write (key value : String) (n : UInt64) :
    Does log t (.write key value)
      ⟨.ok (), lines [s!"Wrote record: LSN={n}, key={key}, value={value}"]⟩
      (log ++ [Record.write n 0 (Text.toOctets key) (Text.toOctets value)]) t
  | read : Does log t .read ⟨.ok (), table (log.filter (shown log))⟩ log t
  | begins (hopen : t.isOpen = false) (id : UInt64) (hid : id.toNat = t.last.toNat + 1)
    (hnew : ∀ r ∈ log, r.txn < id) :
    Does log t .beginTx ⟨.ok (), lines [s!"Started new transaction {id}"]⟩ log ⟨true, id⟩
  | txWrite (hopen : t.isOpen = true) (key value : String) (n : UInt64) :
    Does log t (.txWrite key value)
      ⟨.ok (), lines [s!"Wrote record: LSN={n}, TxID={t.last}, key={key}, value={value}"]⟩
      (log ++ [Record.write n t.last (Text.toOctets key) (Text.toOctets value)]) t
  | ends {c : Command} {kind : Kind} (hc : c.ending? = some kind) (hopen : t.isOpen = true)
    (hu : unresolved log t.last = true) (n : UInt64) (output : String) :
    Does log t c ⟨.ok (), output⟩ (log ++ [Record.marker kind n t.last]) { t with isOpen := false }
  | discards {c : Command} {kind : Kind} (hc : c.ending? = some kind) (hopen : t.isOpen = true)
    (hu : unresolved log t.last = false) (output : String) :
    Does log t c ⟨.ok (), output⟩ log { t with isOpen := false }
  | status (output : String) : Does log t .status ⟨.ok (), output⟩ log t

/-- What the action that ends a transaction does to the records: it adds the marker, or it says that
the log does not know the transaction. -/
inductive Settles (log : List Record) (t : Ticket) (kind : Kind) :
    Outcome → List Record → Ticket → Prop
  | marked (hu : unresolved log t.last = true) (n : UInt64) (output : String) :
    Settles log t kind ⟨.ok (), output⟩ (log ++ [Record.marker kind n t.last]) t
  | unknown (hu : unresolved log t.last = false) (output : String) :
    Settles log t kind ⟨.error (.notActive t.last), output⟩ log t

/-- An action on a fresh log leaves it at work, and its outcome, the records and the ticket are
related. -/
def Performs (folder : String) (n : Nat) (log : List Record) (t : Ticket)
    (action : Log → Disk → Outcome × Log × Disk)
    (P : Outcome → List Record → Ticket → Prop) : Prop :=
  ∀ l d, Fresh l d folder n log t →
    ∃ log' t', Acts l d folder (action l d).2 log' t' ∧ P (action l d).1 log' t'

/-- A write to a fresh log is granted and adds its record, or it adds nothing. -/
theorem Fresh.write (h : Fresh l d folder n log t) (hlt : n + 1 < 2 ^ 64) (txn : UInt64)
    (key value : Octets) :
    (∃ e l' d', l.write d txn key value = (.error e, l', d') ∧ Acts l d folder (l', d') log t) ∨
    (∃ n l' d', l.write d txn key value = (.ok n, l', d') ∧
      Acts l d folder (l', d') (log ++ [Record.write n txn key value]) t) := by
  obtain ⟨D, B, hdoes⟩ := h.works.write (h.room hlt) txn key value
  rcases hw : l.write d txn key value with ⟨answer, l', d'⟩
  rw [hw, h.desk, Desk.write] at hdoes
  rcases (Desk.ofRecords log).add_eq none
    (Record.write ((Desk.ofRecords log).lastSequence + 1) txn key value) with ⟨e, hadd⟩ | hadd
  · rw [hadd] at hdoes
    obtain rfl : answer = .error e := hdoes.answer
    have hacts := acts_of_does hdoes rfl
    rw [List.append_nil] at hacts
    exact .inl ⟨e, l', d', rfl, hacts⟩
  · rw [hadd] at hdoes
    obtain rfl := hdoes.answer
    exact .inr ⟨_, l', d', rfl, acts_of_does hdoes rfl⟩

/-- A flush behind it adds nothing. -/
theorem Acts.sync {l' : Log} (h : Acts l d folder (l', d') log t) :
    ∃ l'' d'', l'.sync d' = (.ok (), l'', d'') ∧ Acts l d folder (l'', d'') log t := by
  obtain ⟨D, B, hworks, rfl⟩ := h.works
  have hopened : l'.closed = false := h.opened
  obtain ⟨D', B', hsync⟩ := hworks.sync
  have hsame := l'.currentSegment_sync d'
  have hentry : l'.desk.sync none = (.ok (), l'.desk, []) := by
    simp only [Desk.sync, Log.desk, hopened]
  rcases hs : l'.sync d' with ⟨answer, l'', d''⟩
  rw [hs, hentry] at hsync
  rw [hs] at hsame
  obtain rfl : answer = .ok () := hsync.answer
  refine ⟨l'', d'', rfl, ⟨D', B', hsync.works, ?_⟩, ?_, h.leads.trans hsync.leads, ?_⟩
  · simpa using hsync.records
  · exact (congrArg Desk.closed hsync.desk).trans hopened
  · rw [hsame]
    exact h.segment

theorem performs_write (hlt : n + 1 < 2 ^ 64) (key value : String) :
    Performs folder n log t (writeAction key value) (Does log t (.write key value)) := by
  intro l d h
  unfold writeAction
  rcases h.write hlt 0 (Text.toOctets key) (Text.toOctets value) with
    ⟨e, l', d', hw, hacts⟩ | ⟨m, l', d', hw, hacts⟩
  · rw [hw]
    exact ⟨log, t, hacts, .refused _ e _⟩
  · rw [hw]
    exact ⟨_, t, hacts, .write key value m⟩

theorem performs_txWrite (hlt : n + 1 < 2 ^ 64) (hopen : t.isOpen = true) (key value : String) :
    Performs folder n log t (txWriteAction t.last key value)
      (Does log t (.txWrite key value)) := by
  intro l d h
  unfold txWriteAction
  rcases h.write hlt t.last (Text.toOctets key) (Text.toOctets value) with
    ⟨e, l', d', hw, hacts⟩ | ⟨m, l', d', hw, hacts⟩
  · rw [hw]
    exact ⟨log, t, hacts, .refused _ e _⟩
  · obtain ⟨l'', d'', hs, hacts'⟩ := hacts.sync
    rw [hw]
    dsimp only
    rw [hs]
    exact ⟨_, t, hacts', .txWrite hopen key value m⟩

theorem performs_read : Performs folder n log t readAction (Does log t .read) := by
  intro l d h
  obtain ⟨D, B, hdoes⟩ := h.works.readAll
  unfold readAction
  rcases hr : l.readAll d with ⟨answer, l', d'⟩
  have hentry : (Desk.ofRecords log).readAll none (log ++ []) =
      (.ok (log.filter (shown log)), Desk.ofRecords log, []) := by
    rw [List.append_nil]
    rfl
  rw [hr, h.desk, hentry] at hdoes
  obtain rfl : answer = .ok (log.filter (shown log)) := hdoes.answer
  have hacts := acts_of_does hdoes rfl
  rw [List.append_nil] at hacts
  exact ⟨log, t, hacts, .read⟩

theorem performs_status : Performs folder n log t (statusAction folder) (Does log t .status) := by
  intro l d h
  obtain ⟨loc, hfiled⟩ := h.works.filed
  unfold statusAction
  rw [hfiled.current]
  exact ⟨log, t, h.idle, .status _⟩

/-- The number after all transactions of a log is not above the one after those that were begun. -/
theorem max_nextId (hlog : ∀ r ∈ log, r.txn ≤ t.last) (hlt : t.last.toNat + 1 < 2 ^ 64) :
    max (t.last + 1) (Desk.ofRecords log).transactions.nextId = t.last + 1 := by
  have hle : (Replay.ofRecords log).lastTxn.toNat ≤ t.last.toNat :=
    Replay.lastTxn_le fun r hr => UInt64.le_iff_toNat_le.mp (hlog r hr)
  have hnext : (Desk.ofRecords log).transactions.nextId.toNat =
      (Replay.ofRecords log).lastTxn.toNat + 1 := Desk.nextId_ofRecords (by omega)
  have hsucc := toNat_succ hlt
  show (if t.last + 1 ≤ (Desk.ofRecords log).transactions.nextId then _ else t.last + 1) = _
  split
  · rename_i hge
    rw [UInt64.le_iff_toNat_le] at hge
    exact UInt64.toNat_inj.mp (by omega)
  · rfl

theorem performs_begin (hlog : ∀ r ∈ log, r.txn ≤ t.last)
    (hlast : t.isOpen = false → t.last.toNat + 1 < 2 ^ 64) :
    Performs folder n log t (beginAction folder) (Does log t .beginTx) := by
  intro l d h
  obtain ⟨loc, hfiled⟩ := h.works.filed
  have hsound := h.works.held.sound
  unfold beginAction
  cases hopen : t.isOpen with
  | true =>
    rw [hfiled.begin_of_open hopen]
    exact ⟨log, t, h.idle, .refused _ _ _⟩
  | false =>
    obtain ⟨d', hbegin, hnew⟩ := hfiled.begin_of_closed hsound h.works.ready.willing hopen l.nextTxn
    have hnext : l.nextTxn = (Desk.ofRecords log).transactions.nextId :=
      congrArg (·.transactions.nextId) h.desk
    have hsucc := toNat_succ (hlast hopen)
    rw [hnext, max_nextId hlog (hlast hopen)] at hbegin hnew
    rw [hnext, hbegin]
    obtain ⟨hworks, hleads⟩ := h.works.refiled fun loc' hfiled' => by
      obtain rfl : loc = loc' := Except.ok.inj (hfiled.located.symm.trans hfiled'.located)
      exact hnew
    refine ⟨log, _, ⟨⟨log, [], hworks, List.append_nil log⟩, h.opened, hleads, .inl rfl⟩,
      .begins hopen _ hsucc fun r hr => ?_⟩
    have hle := UInt64.le_iff_toNat_le.mp (hlog r hr)
    rw [UInt64.lt_iff_toNat_lt]
    omega

/-- An outcome is entered for the open transaction. -/
theorem settles_of_does {kind : Kind} {result : Except Error Unit × Log × Disk}
    {D B : List Record}
    (hdoes : l.Does d folder log [] t result (Desk.settled log kind t.last) D B) :
    ∃ log' t', Acts l d folder result.2 log' t' ∧ Settles log t kind ⟨result.1, ""⟩ log' t' := by
  obtain ⟨answer, l', d'⟩ := result
  unfold Desk.settled at hdoes
  cases hu : unresolved log t.last with
  | true =>
    rw [hu, if_pos rfl] at hdoes
    obtain rfl : answer = .ok () := hdoes.answer
    exact ⟨_, t, acts_of_does hdoes rfl, .marked hu _ _⟩
  | false =>
    rw [hu, if_neg Bool.false_ne_true] at hdoes
    obtain rfl : answer = .error (.notActive t.last) := hdoes.answer
    have hacts := acts_of_does hdoes rfl
    rw [List.append_nil] at hacts
    exact ⟨log, t, hacts, .unknown hu _⟩

theorem performs_commit (hlt : n + 1 < 2 ^ 64) :
    Performs folder n log t (commitAction t.last) (Settles log t .txnCommit) := by
  intro l d h
  obtain ⟨D, B, hdoes⟩ := h.works.commit (h.room hlt) t.last
  rw [h.desk, Desk.commit_ofRecords] at hdoes
  exact settles_of_does hdoes

theorem performs_abort (hlt : n + 1 < 2 ^ 64) :
    Performs folder n log t (abortAction t.last) (Settles log t .txnRollback) := by
  intro l d h
  obtain ⟨D, B, hdoes⟩ := h.works.abort (h.room hlt) t.last
  rw [h.desk, Desk.abort_ofRecords] at hdoes
  exact settles_of_does hdoes

/-! ## Commands -/

/-- A command ends with these records and this ticket in the folder; it begins one segment at most
and leaves the paths to it alone. -/
structure Reaches (d : Disk) (folder : String) (n : Nat) (log : List Record) (t : Ticket)
    (d' : Disk) : Prop where
  stands : Stands d' folder log t
  leads : d.Leads d'
  within : d'.Within folder (n + 1)

theorem Stands.reaches (h : Stands d folder log t) (hn : d.Within folder n) :
    Reaches d folder n log t d :=
  ⟨h, Disk.Leads.refl d, hn.mono (Nat.le_succ n)⟩

theorem withLog_of_invalid {e : Error} (hv : settings.validate = .error e)
    (action : Log → Disk → Outcome × Log × Disk) :
    withLog d settings action = ({ answer := .error e }, d) := by
  simp only [withLog, Log.start, hv]

section Command

variable (h : Stands d folder log t) (hf : settings.folder = folder) (hn : d.Within folder n)
  (hpos : 1 ≤ n)
include h hf hn hpos

/-- An action on the log of a folder: the log is opened before it and closed behind it, with all its
records each time. -/
theorem Stands.withLog (hv : settings.validate = .ok ())
    {action : Log → Disk → Outcome × Log × Disk} {P : Outcome → List Record → Ticket → Prop}
    (ha : Performs folder n log t action P) :
    ∃ outcome d' log' t', Shell.withLog d settings action = (outcome, d') ∧ P outcome log' t' ∧
      Reaches d folder n log' t' d' := by
  obtain ⟨l, d₁, hstart, hworks, hdesk, hleads, hsegment⟩ := h.start hf hv hn hpos
  obtain ⟨log', t', hacts, hp⟩ := ha l d₁ ⟨hworks, hdesk, hsegment⟩
  rcases haction : action l d₁ with ⟨outcome, l', d₂⟩
  rw [haction] at hacts hp
  obtain ⟨D, B, hworks', rfl⟩ := hacts.works
  obtain ⟨l'', d', hclose, hstands, hleads', hwithin⟩ := hworks'.close hacts.opened
  have hnext := hacts.segment.toNat_le
  refine ⟨outcome, d', D ++ B, t', ?_, hp, hstands, (hleads.trans hacts.leads).trans hleads',
    hwithin.mono (hnext.trans (by omega))⟩
  obtain ⟨answer, output⟩ := outcome
  simp only [Shell.withLog, hstart, haction, hclose]
  cases answer <;> rfl

/-- The open transaction is ended by a step on the log and then in the ticket. -/
theorem Stands.finishTxn (hv : settings.validate = .ok ()) (hopen : t.isOpen = true) {c : Command}
    {kind : Kind} (hc : c.ending? = some kind) {action : Log → Disk → Outcome × Log × Disk}
    (ha : Performs folder n log t action (Settles log t kind)) (ended unknown : String) :
    ∃ outcome d' log' t',
      Shell.finishTxn folder t.last ended unknown (Shell.withLog d settings action) =
        (outcome, d') ∧
      Does log t c outcome log' t' ∧ Reaches d folder n log' t' d' := by
  obtain ⟨outcome, d₁, log', t', hwith, hsettles, hreaches⟩ :=
    h.withLog hf hn hpos hv ha
  rw [hwith]
  cases hsettles with
  | marked hu m output =>
    obtain ⟨d', hfinish, hstands, hleads, hwithin⟩ := hreaches.stands.finish hopen
    refine ⟨_, d', _, _, ?_, .ends hc hopen hu m (lines [ended]), hstands,
      hreaches.leads.trans hleads, hwithin hreaches.within⟩
    simp only [Shell.finishTxn, hfinish]
  | unknown hu output =>
    obtain ⟨d', hfinish, hstands, hleads, hwithin⟩ := hreaches.stands.finish hopen
    refine ⟨_, d', _, _, ?_, .discards hc hopen hu (lines [unknown]), hstands,
      hreaches.leads.trans hleads, hwithin hreaches.within⟩
    simp only [Shell.finishTxn, hfinish]

end Command

theorem openTxn_of_open (ht : Ticket.load d folder = .ok t) (hopen : t.isOpen = true)
    (advice : String) : openTxn d folder advice = .ok t.last := by
  have hcurrent : Ticket.current d folder = .ok (some t.last) := by
    rw [Ticket.current, ht]
    simp only [hopen, if_true]
  unfold openTxn
  rw [hcurrent]

theorem openTxn_of_closed (hclosed : ∀ t, Ticket.load d folder = .ok t → t.isOpen = false)
    (advice : String) : ∃ e, openTxn d folder advice = .error e := by
  unfold openTxn Ticket.current
  cases ht : Ticket.load d folder with
  | error e => exact ⟨e, rfl⟩
  | ok t =>
    simp only [hclosed t ht, Bool.false_eq_true, if_false]
    exact ⟨_, rfl⟩

/-- A command that needs an open transaction is refused without one. -/
theorem runCommand_of_closed (hclosed : ∀ t, Ticket.load d folder = .ok t → t.isOpen = false)
    {c : Command} (hc : c.ending?.isSome ∨ ∃ key value, c = .txWrite key value) :
    ∃ e, runCommand d folder settings c = (⟨.error e, ""⟩, d) := by
  have hnone (advice : String) := openTxn_of_closed hclosed advice
  cases c with
  | txWrite key value =>
    obtain ⟨e, he⟩ := hnone "use 'begin-tx' first"
    exact ⟨e, by unfold runCommand; dsimp only; rw [he]⟩
  | commit =>
    obtain ⟨e, he⟩ := hnone "nothing to commit"
    exact ⟨e, by unfold runCommand; dsimp only; rw [he]⟩
  | abort =>
    obtain ⟨e, he⟩ := hnone "nothing to abort"
    exact ⟨e, by unfold runCommand; dsimp only; rw [he]⟩
  | _ => simp [Command.ending?] at hc

theorem Stands.runCommand_of_closed (h : Stands d folder log t) (hopen : t.isOpen = false)
    {c : Command} (hc : c.ending?.isSome ∨ ∃ key value, c = .txWrite key value) :
    ∃ e, Shell.runCommand d folder settings c = ({ answer := .error e }, d) := by
  refine Shell.runCommand_of_closed (fun t' ht => ?_) hc
  obtain rfl := Except.ok.inj (h.load.symm.trans ht)
  exact hopen

section Open

variable (ht : Ticket.load d folder = .ok t) (hopen : t.isOpen = true)
include ht hopen

theorem txWrite_of_open (key value : String) :
    runCommand d folder settings (.txWrite key value) =
      withLog d settings (txWriteAction t.last key value) := by
  unfold runCommand
  dsimp only
  rw [openTxn_of_open ht hopen]

theorem commit_of_open :
    runCommand d folder settings .commit =
      finishTxn folder t.last s!"Committed transaction {t.last}"
        s!"Transaction {t.last} has no logged writes; nothing to commit"
        (withLog d settings (commitAction t.last)) := by
  unfold runCommand
  dsimp only
  rw [openTxn_of_open ht hopen]

theorem abort_of_open :
    runCommand d folder settings .abort =
      finishTxn folder t.last s!"Aborted transaction {t.last}"
        s!"Transaction {t.last} has no logged writes; discarded"
        (withLog d settings (abortAction t.last)) := by
  unfold runCommand
  dsimp only
  rw [openTxn_of_open ht hopen]

end Open

/-- With settings that are refused a command does nothing. -/
theorem Stands.runCommand_of_invalid (h : Stands d folder log t) {flaw : SettingsFlaw}
    (hv : settings.validate = .error (.settings flaw)) (c : Command) :
    ∃ e, Shell.runCommand d folder settings c = ({ answer := .error e }, d) := by
  have hwith := withLog_of_invalid (d := d) hv
  by_cases hneeds : t.isOpen = false ∧
      (c.ending?.isSome ∨ ∃ key value, c = .txWrite key value)
  · exact h.runCommand_of_closed hneeds.1 hneeds.2
  · cases c with
    | write key value => exact ⟨_, hwith _⟩
    | read => exact ⟨_, hwith _⟩
    | status => exact ⟨_, hwith _⟩
    | beginTx => exact ⟨_, by unfold Shell.runCommand; dsimp only; rw [hwith]⟩
    | txWrite key value =>
      have hopen : t.isOpen = true := by simpa using hneeds
      exact ⟨_, (txWrite_of_open h.load hopen key value).trans (hwith _)⟩
    | commit =>
      have hopen : t.isOpen = true := by simpa [Command.ending?] using hneeds
      exact ⟨_, by rw [commit_of_open h.load hopen, hwith]; rfl⟩
    | abort =>
      have hopen : t.isOpen = true := by simpa [Command.ending?] using hneeds
      exact ⟨_, by rw [abort_of_open h.load hopen, hwith]; rfl⟩

/-- A command does one of the things that commands do, whatever its settings are. -/
theorem Stands.runCommand (h : Stands d folder log t) (hf : settings.folder = folder)
    (hn : d.Within folder n) (hpos : 1 ≤ n) (hlog : ∀ r ∈ log, r.txn ≤ t.last) {c : Command}
    (hlt : c.adds = true → n + 1 < 2 ^ 64)
    (hlast : c = .beginTx → t.isOpen = false → t.last.toNat + 1 < 2 ^ 64) :
    ∃ outcome d' log' t', Shell.runCommand d folder settings c = (outcome, d') ∧
      Does log t c outcome log' t' ∧ Reaches d folder n log' t' d' := by
  have hrefused (hrun : ∃ e, Shell.runCommand d folder settings c = ({ answer := .error e }, d)) :
      ∃ outcome d' log' t', Shell.runCommand d folder settings c = (outcome, d') ∧
        Does log t c outcome log' t' ∧ Reaches d folder n log' t' d' := by
    obtain ⟨e, hrun⟩ := hrun
    exact ⟨_, d, log, t, hrun, .refused c e _, h.reaches hn⟩
  cases hv : settings.validate with
  | error e =>
    have hflaw : ∃ flaw, e = .settings flaw := by
      unfold Settings.validate at hv
      split at hv
      · exact ⟨_, (Except.error.inj hv).symm⟩
      · cases hv
    obtain ⟨flaw, rfl⟩ := hflaw
    exact hrefused (h.runCommand_of_invalid hv c)
  | ok _ =>
    cases c with
    | write key value => exact h.withLog hf hn hpos hv (performs_write (hlt rfl) key value)
    | read => exact h.withLog hf hn hpos hv performs_read
    | status => exact h.withLog hf hn hpos hv performs_status
    | beginTx =>
      obtain ⟨⟨answer, output⟩, d', log', t', hwith, hdoes, hreaches⟩ :=
        h.withLog hf hn hpos hv (performs_begin hlog (hlast rfl))
      cases answer with
      | error e =>
        cases hdoes with
        | refused =>
          refine ⟨{ answer := .error e }, d', log, t, ?_, .refused _ e _, hreaches⟩
          unfold Shell.runCommand
          dsimp only
          rw [hwith]
      | ok _ =>
        refine ⟨⟨.ok (), output⟩, d', log', t', ?_, hdoes, hreaches⟩
        unfold Shell.runCommand
        dsimp only
        rw [hwith]
    | txWrite key value =>
      cases hopen : t.isOpen with
      | false => exact hrefused (h.runCommand_of_closed hopen (.inr ⟨key, value, rfl⟩))
      | true =>
        rw [txWrite_of_open h.load hopen]
        exact h.withLog hf hn hpos hv (performs_txWrite (hlt rfl) hopen key value)
    | commit =>
      cases hopen : t.isOpen with
      | false => exact hrefused (h.runCommand_of_closed hopen (.inl rfl))
      | true =>
        rw [commit_of_open h.load hopen]
        exact h.finishTxn hf hn hpos hv hopen rfl (performs_commit (hlt rfl)) _ _
    | abort =>
      cases hopen : t.isOpen with
      | false => exact hrefused (h.runCommand_of_closed hopen (.inl rfl))
      | true =>
        rw [abort_of_open h.load hopen]
        exact h.finishTxn hf hn hpos hv hopen rfl (performs_abort (hlt rfl)) _ _

end Shell

end SegmentLog
