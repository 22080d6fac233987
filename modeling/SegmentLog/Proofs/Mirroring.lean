import SegmentLog.Proofs.Ledger
import SegmentLog.Proofs.Opening

/-!
An open log does what the desk of its ledger does. Its records stand on disk and in its buffer in
the order of the ledger (`Log.Stands`), and every operation gives the answer of the desk, keeps its
memory as the desk does, and adds the records that the desk adds (`Log.Mirrors`). What the disk
refuses is refused at the desk.
-/

namespace SegmentLog.Log

/-- What a log keeps in memory of its records. -/
def desk (l : Log) : Desk := ⟨l.lastSequence, l.transactions, l.closed⟩

/-- Of the records in the folder of an open log these stand on disk, and those in its buffer. -/
structure Stands (l : Log) (d : Disk) (folder : String) (stored buffered : List Record) :
    Prop where
  settings : l.settings.folder = folder
  appender : l.appender.folder = folder
  closed : l.appender.closed = l.closed
  keeps : l.appender.Keeps d stored buffered

/-- A refusal is one of the disk, it is the answer, and it comes only where something stands in
the way of writing. -/
def Refuses {α : Type} (l : Log) (d : Disk) (refusal : Option Error) (answer : Except Error α) :
    Prop :=
  ∀ e, refusal = some e → answer = .error e ∧ e.isIo = true ∧ ¬ l.appender.Ready d

/-- The result of an operation on a log is what was entered at its desk. -/
structure Mirrors {α : Type} (l : Log) (d : Disk) (folder : String) (stored buffered : List Record)
    (result : Except Error α × Log × Disk) (entry : Desk.Entry α) (stored' buffered' : List Record) :
    Prop where
  answer : result.1 = entry.1
  desk : result.2.1.desk = entry.2.1
  stands : result.2.1.Stands result.2.2 folder stored' buffered'
  records : stored' ++ buffered' = stored ++ buffered ++ entry.2.2
  stored : stored <+: stored'
  sync : result.2.1.appender.sync = l.appender.sync
  ready : l.appender.Ready d → result.2.1.appender.Ready result.2.2

variable {l : Log} {d : Disk} {folder : String} {D B : List Record}

/-- Nothing is done and nothing added. -/
theorem Stands.unchanged {α : Type} (h : l.Stands d folder D B) (answer : Except Error α) :
    l.Mirrors d folder D B (answer, l, d) (answer, l.desk, []) D B :=
  ⟨rfl, rfl, h, by simp, List.prefix_refl D, rfl, id⟩

/-- What the appender did, seen from the log. -/
theorem Stands.advances {α : Type} (h : l.Stands d folder D B) {a : Appender} {d' : Disk}
    {S T rs : List Record} (ha : l.appender.Advances d D B rs a d' S T) (answer : Except Error α)
    (last : UInt64) :
    l.Mirrors d folder D B (answer, { l with appender := a, lastSequence := last }, d')
      (answer, { l.desk with lastSequence := last }, rs) S T :=
  ⟨rfl, rfl, ⟨h.settings, ha.terms.folder.trans h.appender, ha.terms.closed.trans h.closed, ha.keeps⟩,
    ha.records, ha.stored, ha.terms.sync, ha.ready⟩

theorem refuses_none {α : Type} (l : Log) (d : Disk) (answer : Except Error α) :
    l.Refuses d none answer := fun _ he => by cases he

/-! ## Appending -/

theorem add_of_closed (hc : l.closed = true) (d : Disk) (r : Record) (force : Bool) :
    l.add d r force = (.error .closed, l, d) := by
  rw [Log.add, if_pos hc]

section Open

variable (hc : l.closed = false) {a : Appender} {d' : Disk} {r : Record} {force : Bool}
include hc

theorem add_of_error {e : Error} (ha : l.appender.append d r force = (.error e, a, d')) :
    l.add d r force = (.error e, { l with appender := a }, d') := by
  rw [Log.add, if_neg (by simp [hc]), ha]

theorem add_of_ok {n : UInt64} (ha : l.appender.append d r force = (.ok n, a, d')) :
    l.add d r force = (.ok n, { l with appender := a, lastSequence := n }, d') := by
  rw [Log.add, if_neg (by simp [hc]), ha]

end Open

/-- A record is added at the end, or refused; a forced one leaves nothing in the buffer. -/
theorem Stands.add (h : l.Stands d folder D B) (r : Record) (force : Bool)
    (hw : ¬ (l.add d r force).2.1.currentSegment < l.currentSegment) :
    ∃ refusal S T, l.Refuses d refusal (l.add d r force).1 ∧
      l.Mirrors d folder D B (l.add d r force) (l.desk.add refusal r) S T ∧
      ((l.add d r force).1.isOk = true → (force || l.appender.sync) = true → T = []) := by
  cases hc : l.closed with
  | true =>
    rw [add_of_closed hc]
    refine ⟨none, D, B, refuses_none l d _, ?_, fun hok => by cases hok⟩
    rw [Desk.add_of_closed hc]
    exact h.unchanged _
  | false =>
    cases he : r.encode with
    | error e =>
      have happend : l.appender.append d r force = (.error e, l.appender, d) := by
        simp only [Appender.append, he]
      rw [add_of_error hc happend]
      refine ⟨none, D, B, refuses_none l d _, ?_, fun hok => by cases hok⟩
      rw [Desk.add_of_encode hc he]
      exact h.unchanged _
    | ok bs =>
      have hfits := (Record.encode_eq_ok_iff.mp he).1
      have hopen : l.appender.closed = false := h.closed.trans hc
      have hwa : ¬ (l.appender.append d r force).2.1.active.id < l.appender.active.id := by
        intro hlt
        apply hw
        rcases ha : l.appender.append d r force with ⟨answer, a, d'⟩
        rw [ha] at hlt
        cases answer with
        | error e =>
          rw [add_of_error hc ha]
          exact hlt
        | ok n =>
          rw [add_of_ok hc ha]
          exact hlt
      obtain ⟨a, d', S, T, ⟨happend, hadv, hforce⟩ | ⟨e, happend, hadv, hio, hready⟩⟩ :=
        h.keeps.append hopen hfits force hwa
      · rw [add_of_ok hc happend]
        refine ⟨none, S, T, refuses_none l d _, ?_, fun _ => hforce⟩
        rw [Desk.add_of_grant hc he]
        exact h.advances hadv _ _
      · rw [add_of_error hc happend]
        refine ⟨some e, S, T, ?_, ?_, fun hok => by cases hok⟩
        · rintro _ ⟨⟩
          exact ⟨rfl, hio, hready⟩
        · rw [Desk.add_of_refusal hc he]
          exact h.advances hadv _ l.lastSequence

theorem Stands.write (h : l.Stands d folder D B) (txn : UInt64) (key value : Octets)
    (hw : ¬ (l.write d txn key value).2.1.currentSegment < l.currentSegment) :
    ∃ refusal S T, l.Refuses d refusal (l.write d txn key value).1 ∧
      l.Mirrors d folder D B (l.write d txn key value) (l.desk.write refusal txn key value) S T ∧
      ((l.write d txn key value).1.isOk = true → (txn == 0 || l.appender.sync) = true → T = []) :=
  h.add (Record.write l.nextSequence txn key value) (txn == 0) hw

theorem Stands.checkpoint (h : l.Stands d folder D B)
    (hw : ¬ (l.checkpoint d).2.1.currentSegment < l.currentSegment) :
    ∃ refusal S T, l.Refuses d refusal (l.checkpoint d).1 ∧
      l.Mirrors d folder D B (l.checkpoint d) (l.desk.checkpoint refusal) S T ∧
      ((l.checkpoint d).1.isOk = true → T = []) := by
  obtain ⟨refusal, S, T, hrefuses, hmirror, hforce⟩ :=
    h.add (Record.marker .checkpoint l.nextSequence 0) true hw
  exact ⟨refusal, S, T, hrefuses, hmirror, fun hok => hforce hok rfl⟩

/-! ## Outcomes of transactions -/

/-- Adds the marker of an outcome. The table is another one meanwhile, and changes once more when
the marker is refused or granted. -/
def addOutcome (l : Log) (d : Disk) (ts : Transactions)
    (refused granted : Transactions → Transactions) (r : Record) (force : Bool) :
    Except Error Unit × Log × Disk :=
  match { l with transactions := ts }.add d r force with
  | (.error e, l, d) => (.error e, { l with transactions := refused l.transactions }, d)
  | (.ok _, l, d) => (.ok (), { l with transactions := granted l.transactions }, d)

theorem commit_eq {txn : UInt64} {ts : Transactions} (h : l.transactions.startCommit txn = .ok ts) :
    l.commit d txn = l.addOutcome d ts (·.revertCommit txn) (·.finishCommit txn)
      (Record.marker .txnCommit l.nextSequence txn) true := by
  simp only [Log.commit, h]
  rfl

theorem abort_eq {txn : UInt64} {t : Transaction} {ts : Transactions}
    (h : l.transactions.takeForAbort txn = .ok (t, ts)) :
    l.abort d txn = l.addOutcome d ts (·.restore t) (fun ts => ts)
      (Record.marker .txnRollback l.nextSequence txn) false := by
  simp only [Log.abort, h]
  rfl

theorem Stands.withTransactions (h : l.Stands d folder D B) (ts : Transactions) :
    Stands { l with transactions := ts } d folder D B :=
  ⟨h.settings, h.appender, h.closed, h.keeps⟩

theorem Stands.addOutcome (h : l.Stands d folder D B) (ts : Transactions)
    (refused granted : Transactions → Transactions) (r : Record) (force : Bool)
    (hw : ¬ (l.addOutcome d ts refused granted r force).2.1.currentSegment < l.currentSegment) :
    ∃ refusal S T, l.Refuses d refusal (l.addOutcome d ts refused granted r force).1 ∧
      l.Mirrors d folder D B (l.addOutcome d ts refused granted r force)
        (l.desk.addOutcome refusal ts refused granted r) S T ∧
      ((l.addOutcome d ts refused granted r force).1.isOk = true →
        (force || l.appender.sync) = true → T = []) := by
  cases ha : { l with transactions := ts }.add d r force with
  | mk answer after =>
    obtain ⟨l', d'⟩ := after
    have hwa : ¬ ({ l with transactions := ts }.add d r force).2.1.currentSegment <
        l.currentSegment := by
      simp only [Log.addOutcome, ha] at hw
      rw [ha]
      cases answer <;> exact hw
    obtain ⟨refusal, S, T, hrefuses, hmirror, hforce⟩ := (h.withTransactions ts).add r force hwa
    have hrefuses' : l.Refuses d refusal (l.addOutcome d ts refused granted r force).1 := by
      intro e he
      obtain ⟨hanswer, hio, hready⟩ := hrefuses e he
      rw [ha] at hanswer
      obtain rfl : answer = .error e := hanswer
      refine ⟨?_, hio, fun hr => hready ⟨hr.clear, hr.willing, hr.file⟩⟩
      simp only [Log.addOutcome, ha]
    refine ⟨refusal, S, T, hrefuses', ?_⟩
    cases hk : { l.desk with transactions := ts }.add refusal r with
    | mk answer' entered =>
      obtain ⟨k, rs⟩ := entered
      have hdesk : desk { l with transactions := ts } = { l.desk with transactions := ts } := rfl
      rw [hdesk, ha, hk] at hmirror
      rw [ha] at hforce
      obtain ⟨hanswer, rfl, hstands, hrecords, hstored, hsync, hready⟩ := hmirror
      obtain rfl : answer = answer' := hanswer
      simp only [Log.addOutcome, Desk.addOutcome, ha, hk]
      cases answer with
      | error e =>
        exact ⟨⟨rfl, rfl, hstands.withTransactions _, hrecords, hstored, hsync, hready⟩,
          fun hok => by cases hok⟩
      | ok n =>
        exact ⟨⟨rfl, rfl, hstands.withTransactions _, hrecords, hstored, hsync, hready⟩,
          fun _ hf => hforce rfl hf⟩

theorem Stands.commit (h : l.Stands d folder D B) (txn : UInt64)
    (hw : ¬ (l.commit d txn).2.1.currentSegment < l.currentSegment) :
    ∃ refusal S T, l.Refuses d refusal (l.commit d txn).1 ∧
      l.Mirrors d folder D B (l.commit d txn) (l.desk.commit refusal txn) S T ∧
      ((l.commit d txn).1.isOk = true → T = []) := by
  cases hs : l.transactions.startCommit txn with
  | error e =>
    have hcommit : l.commit d txn = (.error e, l, d) := by
      simp only [Log.commit, hs]
    rw [hcommit]
    refine ⟨none, D, B, refuses_none l d _, ?_, fun hok => by cases hok⟩
    have hdesk : l.desk.commit none txn = (.error e, l.desk, []) := by
      simp only [Desk.commit, desk, hs]
    rw [hdesk]
    exact h.unchanged _
  | ok ts =>
    rw [commit_eq hs] at hw ⊢
    obtain ⟨refusal, S, T, hrefuses, hmirror, hforce⟩ := h.addOutcome _ _ _ _ _ hw
    refine ⟨refusal, S, T, hrefuses, ?_, fun hok => hforce hok rfl⟩
    have hdesk : l.desk.commit refusal txn = l.desk.addOutcome refusal ts (·.revertCommit txn)
        (·.finishCommit txn) (Record.marker .txnCommit l.nextSequence txn) := by
      simp only [Desk.commit, desk, hs]
      rfl
    rw [hdesk]
    exact hmirror

theorem Stands.abort (h : l.Stands d folder D B) (txn : UInt64)
    (hw : ¬ (l.abort d txn).2.1.currentSegment < l.currentSegment) :
    ∃ refusal S T, l.Refuses d refusal (l.abort d txn).1 ∧
      l.Mirrors d folder D B (l.abort d txn) (l.desk.abort refusal txn) S T ∧
      ((l.abort d txn).1.isOk = true → l.appender.sync = true → T = []) := by
  cases hs : l.transactions.takeForAbort txn with
  | error e =>
    have habort : l.abort d txn = (.error e, l, d) := by
      simp only [Log.abort, hs]
    rw [habort]
    refine ⟨none, D, B, refuses_none l d _, ?_, fun hok => by cases hok⟩
    have hdesk : l.desk.abort none txn = (.error e, l.desk, []) := by
      simp only [Desk.abort, desk, hs]
    rw [hdesk]
    exact h.unchanged _
  | ok taken =>
    obtain ⟨t, ts⟩ := taken
    rw [abort_eq hs] at hw ⊢
    obtain ⟨refusal, S, T, hrefuses, hmirror, hforce⟩ := h.addOutcome _ _ _ _ _ hw
    refine ⟨refusal, S, T, hrefuses, ?_, hforce⟩
    have hdesk : l.desk.abort refusal txn = l.desk.addOutcome refusal ts (·.restore t)
        (fun ts => ts) (Record.marker .txnRollback l.nextSequence txn) := by
      simp only [Desk.abort, desk, hs]
      rfl
    rw [hdesk]
    exact hmirror

/-! ## Flushing and reading -/

theorem Stands.begin (h : l.Stands d folder D B) :
    l.Mirrors d folder D B (l.begin.1, l.begin.2, d) l.desk.begin D B := by
  cases hc : l.closed with
  | true =>
    have hlog : l.begin = (.error .closed, l) := by rw [Log.begin, if_pos hc]
    have hdesk : l.desk.begin = (.error .closed, l.desk, []) := by
      unfold Desk.begin
      exact if_pos hc
    rw [hlog, hdesk]
    exact h.unchanged _
  | false =>
    have hlog : l.begin = (.ok l.transactions.start.1,
        { l with transactions := l.transactions.start.2 }) := by
      rw [Log.begin, if_neg (by simp [hc])]
    have hdesk : l.desk.begin = (.ok l.transactions.start.1,
        { l.desk with transactions := l.transactions.start.2 }, []) := by
      unfold Desk.begin
      exact if_neg (by simp [desk, hc])
    rw [hlog, hdesk]
    exact ⟨rfl, rfl, h.withTransactions _, by simp, List.prefix_refl D, rfl, id⟩

/-- A flush of the appender, seen from the log. -/
theorem Stands.flush (h : l.Stands d folder D B) :
    ∃ answer a d' S T, l.appender.flush d = (answer, a, d') ∧
      l.Mirrors d folder D B (answer, { l with appender := a }, d') (answer, l.desk, []) S T ∧
      (answer = .ok () → T = []) ∧
      ∀ e, answer = .error e → e.isIo = true ∧ ¬ l.appender.Ready d := by
  obtain ⟨answer, a, d', S, T, hflush, hadv, hempty, herror⟩ := h.keeps.flush_advances
  exact ⟨answer, a, d', S, T, hflush, h.advances hadv answer l.lastSequence, hempty, herror⟩

theorem Stands.sync (h : l.Stands d folder D B) :
    ∃ refusal S T, l.Refuses d refusal (l.sync d).1 ∧
      l.Mirrors d folder D B (l.sync d) (l.desk.sync refusal) S T ∧
      ((l.sync d).1.isOk = true → T = []) := by
  cases hc : l.closed with
  | true =>
    have hlog : l.sync d = (.error .closed, l, d) := by rw [Log.sync, if_pos hc]
    rw [hlog]
    refine ⟨none, D, B, refuses_none l d _, ?_, fun hok => by cases hok⟩
    have hdesk : l.desk.sync none = (.error .closed, l.desk, []) := by
      simp only [Desk.sync, desk, hc]
    rw [hdesk]
    exact h.unchanged _
  | false =>
    obtain ⟨answer, a, d', S, T, hflush, hmirror, hempty, herror⟩ := h.flush
    have hlog : l.sync d = (answer, { l with appender := a }, d') := by
      rw [Log.sync, if_neg (by simp [hc]), hflush]
    rw [hlog]
    cases answer with
    | error e =>
      refine ⟨some e, S, T, ?_, ?_, fun hok => by cases hok⟩
      · rintro _ ⟨⟩
        exact ⟨rfl, herror e rfl⟩
      · simp only [Desk.sync]
        have hdesk : l.desk.closed = false := hc
        rw [hdesk]
        exact hmirror
    | ok _ =>
      refine ⟨none, S, T, refuses_none l d _, ?_, fun _ => hempty rfl⟩
      simp only [Desk.sync]
      have hdesk : l.desk.closed = false := hc
      rw [hdesk]
      exact hmirror

theorem recordsOf_of_keeps {a : Appender} (h : a.Keeps d D B) :
    Log.recordsOf d a.folder = .ok D := by
  obtain ⟨vs, htracks, hintact, -, rfl, -⟩ := h
  rw [htracks.holds.recordsOf, survey_of_intact hintact]

theorem Stands.readAll (h : l.Stands d folder D B) :
    ∃ refusal S T, l.Refuses d refusal (l.readAll d).1 ∧
      l.Mirrors d folder D B (l.readAll d) (l.desk.readAll refusal (D ++ B)) S T ∧
      ((l.readAll d).1.isOk = true → T = []) := by
  cases hc : l.closed with
  | true =>
    have hlog : l.readAll d = (.error .closed, l, d) := by rw [Log.readAll, if_pos hc]
    rw [hlog]
    refine ⟨none, D, B, refuses_none l d _, ?_, fun hok => by cases hok⟩
    have hdesk : l.desk.readAll none (D ++ B) = (.error .closed, l.desk, []) := by
      simp only [Desk.readAll, desk, hc]
    rw [hdesk]
    exact h.unchanged _
  | false =>
    have hdesk : l.desk.closed = false := hc
    obtain ⟨answer, a, d', S, T, hflush, hmirror, hempty, herror⟩ := h.flush
    cases answer with
    | error e =>
      have hlog : l.readAll d = (.error e, { l with appender := a }, d') := by
        rw [Log.readAll, if_neg (by simp [hc]), hflush]
      rw [hlog]
      refine ⟨some e, S, T, ?_, ?_, fun hok => by cases hok⟩
      · rintro _ ⟨⟩
        exact ⟨rfl, herror e rfl⟩
      · simp only [Desk.readAll]
        rw [hdesk]
        exact ⟨rfl, hmirror.desk, hmirror.stands, hmirror.records, hmirror.stored, hmirror.sync,
          hmirror.ready⟩
    | ok _ =>
      obtain rfl := hempty rfl
      -- nothing is buffered any more, so what is read from the folder is the whole list
      have hlist : S = D ++ B := by simpa using hmirror.records
      have hread : Log.recordsOf d' l.settings.folder = .ok (D ++ B) := by
        have hfolder : a.folder = l.settings.folder :=
          hmirror.stands.appender.trans h.settings.symm
        rw [← hfolder, ← hlist]
        exact recordsOf_of_keeps hmirror.stands.keeps
      have hlog : l.readAll d =
          (.ok (Visible.records (D ++ B)), { l with appender := a }, d') := by
        rw [Log.readAll, if_neg (by simp [hc]), hflush]
        simp only [hread]
      rw [hlog]
      refine ⟨none, S, [], refuses_none l d _, ?_, fun _ => rfl⟩
      simp only [Desk.readAll]
      rw [hdesk, Visible.records_eq]
      exact ⟨rfl, hmirror.desk, hmirror.stands, hmirror.records, hmirror.stored, hmirror.sync,
        hmirror.ready⟩

/-- Reading when nothing is buffered needs no file to write to. -/
theorem Stands.readAll_of_nil {l : Log} (h : l.Stands d folder D []) (hc : l.closed = false) :
    (l.readAll d).1 = .ok (D.filter (shown D)) := by
  have hbuffer : l.appender.buffer = [] := by
    obtain ⟨vs, -, -, hwhole, -, hbuffered⟩ := h.keeps
    rw [hwhole.eq_row, hbuffered]
    rfl
  have hflush : l.appender.flush d = (.ok (), l.appender, d) := by
    rw [Appender.flush, if_pos hbuffer]
  have hread : Log.recordsOf d l.settings.folder = .ok D := by
    rw [h.settings, ← h.appender]
    exact recordsOf_of_keeps h.keeps
  rw [Log.readAll, if_neg (by simp [hc]), hflush]
  simp only [hread, Visible.records_eq]

theorem Stands.tick (h : l.Stands d folder D B) :
    ∃ S T, l.Mirrors d folder D B ((.ok () : Except Error Unit), l.tick d) (.ok (), l.desk, []) S T := by
  obtain ⟨a, d', S, T, htick, hadv⟩ := h.keeps.tick
  refine ⟨S, T, ?_⟩
  have hlog : l.tick d = ({ l with appender := a }, d') := by
    rw [Log.tick, htick]
  rw [hlog]
  exact h.advances hadv _ l.lastSequence

/-! ## Closing and opening -/

theorem Stands.close (h : l.Stands d folder D B) :
    ∃ refusal S T, l.Refuses d refusal (l.close d).1 ∧
      l.Mirrors d folder D B (l.close d) (l.desk.close refusal) S T ∧
      ((l.close d).1.isOk = true → l.closed = false → T = []) := by
  cases hc : l.closed with
  | true =>
    have hlog : l.close d = (.ok (), l, d) := by rw [Log.close, if_pos hc]
    rw [hlog]
    refine ⟨none, D, B, refuses_none l d _, ?_, fun _ hf => by cases hf⟩
    have hdesk : l.desk.close none = (.ok (), l.desk, []) := by
      simp only [Desk.close, desk, hc]
    rw [hdesk]
    exact h.unchanged _
  | false =>
    have hdesk : l.desk.closed = false := hc
    obtain ⟨answer, a, d', S, T, hclose, hadv, hempty, herror⟩ := h.keeps.close (h.closed.trans hc)
    have hlog : l.close d = (answer, { l with appender := a, closed := true }, d') := by
      rw [Log.close, if_neg (by simp [hc]), hclose]
    have hmirror : l.Mirrors d folder D B (answer, { l with appender := a, closed := true }, d')
        (answer, { l.desk with closed := true }, []) S T :=
      ⟨rfl, rfl, ⟨h.settings, hadv.terms.folder.trans h.appender, hadv.terms.closed, hadv.keeps⟩,
        hadv.records, hadv.stored, hadv.terms.sync, fun hr => hadv.ready ⟨hr.clear, hr.willing, hr.file⟩⟩
    rw [hlog]
    cases answer with
    | error e =>
      refine ⟨some e, S, T, ?_, ?_, fun hok => by cases hok⟩
      · rintro _ ⟨⟩
        exact ⟨rfl, herror e rfl⟩
      · simp only [Desk.close]
        rw [hdesk]
        exact hmirror
    | ok _ =>
      refine ⟨none, S, T, refuses_none l d _, ?_, fun _ _ => hempty rfl⟩
      simp only [Desk.close]
      rw [hdesk]
      exact hmirror

/-- Letting a log go leaves a folder that holds the records on disk, with those of the buffer if
that is written out. -/
theorem Stands.drop (h : l.Stands d folder D B) :
    ∃ vs, (l.drop d).Holds folder vs ∧ Intact vs ∧ D <+: recordsIn vs ∧ recordsIn vs <+: D ++ B ∧
      ((l.appender.close d).1.isOk = true → l.closed = false → recordsIn vs = D ++ B) ∧
      (l.closed = true → recordsIn vs = D) ∧
      (l.appender.Ready d → (l.drop d).Clear folder ∧ (l.drop d).Willing ∧
        (l.appender.close d).1.isOk = true) := by
  have hfolder := h.appender
  cases hc : l.closed with
  | true =>
    have hclose : l.appender.close d = (.ok (), l.appender, d) := by
      rw [Appender.close, if_pos (h.closed.trans hc)]
    obtain ⟨vs, htracks, hintact, -, hstored, -⟩ := h.keeps
    have hholds := htracks.holds
    rw [hfolder] at hholds
    refine ⟨vs, ?_, hintact, ?_, ?_, fun _ hf => (by cases hf), fun _ => hstored, fun hr => ?_⟩
    · rw [Log.drop, hclose]
      exact hholds
    · rw [hstored]
    · rw [hstored]
      exact List.prefix_append D B
    · rw [Log.drop, hclose, ← hfolder]
      exact ⟨hr.clear, hr.willing, rfl⟩
  | false =>
    obtain ⟨answer, a, d', S, T, hclose, hadv, hempty, herror⟩ := h.keeps.close (h.closed.trans hc)
    have hrecords := hadv.records
    rw [List.append_nil] at hrecords
    obtain ⟨vs, htracks, hintact, -, hstored, -⟩ := hadv.keeps
    have hholds := htracks.holds
    have haf : a.folder = folder := hadv.terms.folder.trans hfolder
    rw [haf] at hholds
    rw [Log.drop, hclose]
    refine ⟨vs, hholds, hintact, ?_, ?_, ?_, fun hf => (by cases hf), fun hr => ?_⟩
    · rw [hstored]
      exact hadv.stored
    · rw [hstored, ← hrecords]
      exact List.prefix_append S T
    · intro hok _
      cases answer with
      | error e => cases hok
      | ok _ =>
        rw [hstored, ← hrecords, hempty rfl, List.append_nil]
    · have hready := hadv.ready ⟨hr.clear, hr.willing, hr.file⟩
      refine ⟨haf ▸ hready.clear, hready.willing, ?_⟩
      cases answer with
      | error e => exact absurd hr (herror e rfl).2
      | ok _ => rfl

end SegmentLog.Log
