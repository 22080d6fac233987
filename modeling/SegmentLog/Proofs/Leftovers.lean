import SegmentLog.Proofs.Confinement
import SegmentLog.Proofs.Sequence

/-!
What refused syncs and writes leave behind. A record is written to its segment before the segment is
synced, so when only the sync is refused the disk is as if the request had been granted, while the log
and the answer are as if it had never been made (`Session.left_behind`). The record has left the
buffer, and a flush of an empty buffer does not open the segment again to cut it back. Nor does the
record that begins another segment; so of a write that got through in part the log stays damaged in
front of what is granted later (`Session.acknowledged_lost`).
-/

namespace SegmentLog

namespace Disk

variable {d d' : Disk} {f : Fault} {n : Node} {bs : Octets}

/-- The disk when no file of it can be synced. -/
def withoutSync (d : Disk) (f : Fault) : Disk :=
  { d with refusals := fun _ => { syncing := some f } }

/-- What is granted otherwise is granted as before. -/
theorem openWrite_withoutSync {p : Place} (h : d.openWrite p = .ok (n, d')) :
    (d.withoutSync f).openWrite p = .ok (n, d'.withoutSync f) := by
  have hopening : ((d.withoutSync f).refusalsOf n).opening = none := by cases n <;> rfl
  unfold openWrite at h ⊢
  rw [look_of_same (d := d) (e := d.withoutSync f) rfl rfl]
  split at h
  · cases h
  · cases h
    rfl
  · cases h
  · split at h
    · cases h
    · cases h
      simp only [hopening]

theorem resize_withoutSync {length : Nat} (h : d.resize n length = .ok d') :
    (d.withoutSync f).resize n length = .ok (d'.withoutSync f) := by
  cases n with
  | file body =>
    unfold resize at h ⊢
    dsimp only [withoutSync] at h ⊢
    split at h
    · cases h
    · split at h
      · rename_i hle
        cases h
        exact if_pos hle
      · rename_i hle
        refine (if_neg hle).trans ?_
        split at h
        · cases h
        · rename_i hsize
          refine (if_neg hsize).trans ?_
          split at h
          · cases h
          · rename_i hfile
            cases h
            exact if_neg hfile
  | _ =>
    simp only [resize] at h
    split at h <;> cases h

theorem append_withoutSync (h : d.append n bs = (.ok (), d')) :
    (d.withoutSync f).append n bs = (.ok (), d'.withoutSync f) := by
  cases n with
  | file body =>
    rcases append_file d body bs with hadded | ⟨count, g, -, -, hstopped⟩
    · rw [hadded] at h
      cases h
      rfl
    · rw [hstopped] at h
      cases h
  | folder => cases h
  | full =>
    simp only [append] at h ⊢
    split at h
    · cases h
      simp only [*, if_true]
    · cases h

end Disk

namespace Appender

variable {a b : Appender} {d d' : Disk} {f : Fault} {n : Node}

theorem openSegment_withoutSync {folder : String} {s : Segment} {length : Nat}
    (h : openSegment d folder s = .ok (n, length, d')) :
    openSegment (d.withoutSync f) folder s = .ok (n, length, d'.withoutSync f) := by
  unfold openSegment at h ⊢
  split at h
  · cases h
  · rename_i hopen
    cases h
    rw [Disk.openWrite_withoutSync hopen]
    cases n <;> rfl

theorem reopen_withoutSync (h : a.reopen d = (.ok n, d')) :
    a.reopen (d.withoutSync f) = (.ok n, d'.withoutSync f) := by
  unfold Appender.reopen at h ⊢
  split at h
  · cases h
  · rename_i hopen
    rw [openSegment_withoutSync hopen]
    split at h
    · cases h
    · rename_i hresize
      cases h
      simp only [Disk.resize_withoutSync hresize]

section InSync

variable (hs : a.sync = true)
include hs

/-- The octets are written; then the sync is refused. -/
theorem writeOut_withoutSync (hne : a.buffer ≠ []) (h : a.writeOut d n = (.ok (), b, d')) :
    a.writeOut (d.withoutSync f) n =
      (.error (.io .syncSegment a.path f), { a with file := none }, d'.withoutSync f) := by
  cases n with
  | file body =>
    rw [writeOut_of_ok (by rw [h])] at h
    cases h
    have happend : (d.withoutSync f).append (.file body) a.buffer =
        (.ok (), (d.setBody body ((d.bodies body).append a.buffer)).withoutSync f) := rfl
    simp only [Appender.writeOut, happend, hs, if_true]
    rfl
  | full =>
    rw [writeOut_full hne] at h
    cases h
  | folder => cases h

theorem flush_withoutSync (hne : a.buffer ≠ []) (h : a.flush d = (.ok (), b, d')) :
    a.flush (d.withoutSync f) =
      (.error (.io .syncSegment a.path f), { a with file := none }, d'.withoutSync f) := by
  unfold Appender.flush at h ⊢
  rw [if_neg hne] at h ⊢
  cases hf : a.file with
  | some n =>
    simp only [hf] at h
    exact writeOut_withoutSync hs hne h
  | none =>
    simp only [hf] at h
    rcases hr : a.reopen d with ⟨answer, d₁⟩
    rw [hr] at h
    cases answer with
    | error e => cases h
    | ok n =>
      simp only [reopen_withoutSync hr]
      exact writeOut_withoutSync hs hne h

theorem enqueue_withoutSync {bs : Octets} {force : Bool} (hne : bs ≠ [])
    (h : a.enqueue d bs force = (.ok (), b, d')) :
    a.enqueue (d.withoutSync f) bs force =
      (.error (.io .syncSegment a.path f), { a with file := none }, d'.withoutSync f) := by
  have hflushes : (a.holding bs).Flushes force := by simp [Flushes, holding, hs]
  have hbuffer : (a.holding bs).buffer ≠ [] := by simp [holding, hne]
  rcases (a.holding bs).flush_spec d with ⟨g, d₁, hflush⟩ | ⟨e, d₁, hflush⟩
  · rw [enqueue_of_flush hflushes hflush] at h
    cases h
    exact enqueue_of_refused hflushes (flush_withoutSync hs hbuffer hflush)
  · rw [enqueue_of_refused hflushes hflush] at h
    cases h

section Empty

variable (hb : a.buffer = [])
include hb

/-- A new segment is begun as before: nothing is written for it, and so nothing is synced. -/
theorem makeRoom_withoutSync {length : Nat} (h : a.makeRoom d length = (.ok (), b, d')) :
    a.makeRoom (d.withoutSync f) length = (.ok (), b, d'.withoutSync f) ∧ b.buffer = [] ∧
      b.sync = true := by
  have hflush (d : Disk) : a.flush d = (.ok (), a, d) := if_pos hb
  unfold Appender.makeRoom Appender.rotate at h ⊢
  simp only [hflush] at h ⊢
  split at h
  · rename_i hover
    rw [if_pos hover]
    split at h
    · cases h
    · rename_i hopen
      cases h
      simp only [openSegment_withoutSync hopen, hb, hs, and_self]
  · rename_i hover
    cases h
    rw [if_neg hover]
    exact ⟨rfl, hb, hs⟩

theorem append_withoutSync {r : Record} {force : Bool} {m : UInt64}
    (h : a.append d r force = (.ok m, b, d')) :
    ∃ c, a.append (d.withoutSync f) r force =
      (.error (.io .syncSegment c.path f), c, d'.withoutSync f) ∧ c.buffer = [] := by
  unfold Appender.append at h ⊢
  cases he : r.encode with
  | error e => simp [he] at h
  | ok bs =>
    have hne : bs ≠ [] := Record.ne_nil_of_encode he
    simp only [he] at h ⊢
    split at h
    · cases h
    · rename_i hclosed
      rw [if_neg hclosed]
      rcases hm : a.makeRoom d bs.length with ⟨answer, a₁, d₁⟩
      rw [hm] at h
      cases answer with
      | error e => cases h
      | ok _ =>
        obtain ⟨hroom, hempty, hsync⟩ := makeRoom_withoutSync (f := f) hs hb hm
        simp only [hroom]
        rcases hq : a₁.enqueue d₁ bs force with ⟨answer, a₂, d₂⟩
        simp only [hq] at h
        cases answer with
        | error e => cases h
        | ok _ =>
          cases h
          have hrefused := enqueue_withoutSync (f := f) hsync hne hq
          exact ⟨{ a₁ with file := none }, by simp only [hrefused]; rfl, hempty⟩

end Empty

end InSync

end Appender

namespace Log

variable {l l' : Log} {d d' : Disk} {f : Fault} {r : Record} {force : Bool}

section InSync

variable (hs : l.appender.sync = true) (hb : l.appender.buffer = [])
include hs hb

theorem add_withoutSync {m : UInt64} (h : l.add d r force = (.ok m, l', d')) :
    ∃ c, l.add (d.withoutSync f) r force =
      (.error (.io .syncSegment c.path f), { l with appender := c }, d'.withoutSync f) ∧
      c.buffer = [] := by
  unfold Log.add at h ⊢
  split at h
  · cases h
  · rename_i hclosed
    rw [if_neg hclosed]
    rcases ha : l.appender.append d r force with ⟨answer, a, d₁⟩
    rw [ha] at h
    cases answer with
    | error e => cases h
    | ok n =>
      cases h
      obtain ⟨c, happend, hempty⟩ := Appender.append_withoutSync (f := f) hs hb ha
      exact ⟨c, by simp only [happend], hempty⟩

theorem addOutcome_withoutSync {ts : Transactions}
    {refused granted : Transactions → Transactions}
    (h : l.addOutcome d ts refused granted r force = (.ok (), l', d')) :
    ∃ c, l.addOutcome (d.withoutSync f) ts refused granted r force =
      (.error (.io .syncSegment c.path f), { l with appender := c, transactions := refused ts },
        d'.withoutSync f) ∧ c.buffer = [] := by
  unfold Log.addOutcome at h ⊢
  rcases ha : { l with transactions := ts }.add d r force with ⟨answer, l₁, d₁⟩
  rw [ha] at h
  cases answer with
  | error e => cases h
  | ok n =>
    cases h
    obtain ⟨c, hadd, hempty⟩ :=
      add_withoutSync (l := { l with transactions := ts }) (f := f) hs hb ha
    exact ⟨c, by simp only [hadd], hempty⟩

/-- A commit that was granted is refused, and the transaction is active again. -/
theorem commit_withoutSync (hts : l.transactions.Sorted) {txn : UInt64}
    (h : l.commit d txn = (.ok (), l', d')) :
    ∃ c, l.commit (d.withoutSync f) txn =
      (.error (.io .syncSegment c.path f), { l with appender := c }, d'.withoutSync f) ∧
      c.buffer = [] := by
  cases hstart : l.transactions.startCommit txn with
  | error e =>
    simp only [Log.commit, hstart] at h
    cases h
  | ok ts =>
    rw [commit_eq hstart] at h ⊢
    obtain ⟨c, hrefused, hempty⟩ := addOutcome_withoutSync (f := f) hs hb h
    rw [hts.revertCommit_startCommit hstart] at hrefused
    exact ⟨c, hrefused, hempty⟩

theorem abort_withoutSync (hts : l.transactions.Sorted) {txn : UInt64}
    (h : l.abort d txn = (.ok (), l', d')) :
    ∃ c, l.abort (d.withoutSync f) txn =
      (.error (.io .syncSegment c.path f), { l with appender := c }, d'.withoutSync f) ∧
      c.buffer = [] := by
  cases htake : l.transactions.takeForAbort txn with
  | error e =>
    simp only [Log.abort, htake] at h
    cases h
  | ok taken =>
    rw [abort_eq htake] at h ⊢
    obtain ⟨c, hrefused, hempty⟩ := addOutcome_withoutSync (f := f) hs hb h
    rw [hts.restore_takeForAbort htake] at hrefused
    exact ⟨c, hrefused, hempty⟩

end InSync

end Log

namespace Session

variable {folder : String} {s : Session} {l : Log} {f : Fault} {q : Request} {r : Record}

theorem onLog_withoutSync {α : Type} {reply : α → Answer}
    {op : Log → Disk → Except Error α × Log × Disk} (hl : s.log = some l)
    (hgranted : (s.onLog reply op).1.isFailure = false)
    (hop : ∀ x l' d', op l s.disk = (.ok x, l', d') → ∃ c, op l (s.disk.withoutSync f) =
      (.error (.io .syncSegment c.path f), { l with appender := c }, d'.withoutSync f) ∧
      c.buffer = []) :
    ∃ c, ({ s with disk := s.disk.withoutSync f } : Session).onLog reply op =
      (.failed (.io .syncSegment c.path f), { s with
        disk := (s.onLog reply op).2.disk.withoutSync f, log := some { l with appender := c } }) ∧
      c.buffer = [] := by
  rcases hgrant : op l s.disk with ⟨answer, l', d'⟩
  simp only [onLog, hl, hgrant] at hgranted ⊢
  cases answer with
  | error e => cases hgranted
  | ok x =>
    obtain ⟨c, hrefused, hempty⟩ := hop x l' d' hgrant
    exact ⟨c, by simp only [hrefused]; rfl, hempty⟩

/-- A request that would be granted is refused. The disk is as if it had been granted, the log as if
it had never been made. -/
theorem serve_withoutSync (hl : s.log = some l) (hts : l.transactions.Sorted)
    (hs : l.appender.sync = true) (hb : l.appender.buffer = [])
    (hr : q.record? l.nextSequence = some r) (hgranted : (s.serve q).1.isFailure = false) :
    ∃ c, ({ s with disk := s.disk.withoutSync f } : Session).serve q =
      (.failed (.io .syncSegment c.path f),
        { s with disk := (s.step (.ask q)).disk.withoutSync f, log := some { l with appender := c } }) ∧
      c.buffer = [] := by
  cases q with
  | write txn key value =>
    exact onLog_withoutSync hl hgranted fun _ _ _ h => Log.add_withoutSync hs hb h
  | checkpoint => exact onLog_withoutSync hl hgranted fun _ _ _ h => Log.add_withoutSync hs hb h
  | commit txn =>
    exact onLog_withoutSync hl hgranted fun _ _ _ h => Log.commit_withoutSync hs hb hts h
  | abort txn => exact onLog_withoutSync hl hgranted fun _ _ _ h => Log.abort_withoutSync hs hb hts h
  | _ => cases hr

theorem refusals_serve (hl : s.log = some l) (hh : l.appender.Held s.disk)
    (hr : q.record? l.nextSequence = some r) : (s.step (.ask q)).disk.refusals = s.disk.refusals := by
  have hdisk {α : Type} {reply : α → Answer} {op : Log → Disk → Except Error α × Log × Disk} :
      (s.onLog reply op).2.disk = (op l s.disk).2.2 := by simp only [onLog, hl]
  cases q with
  | write txn key value => exact hdisk ▸ (Log.confined_add hh _ _).frames.refusals
  | checkpoint => exact hdisk ▸ (Log.confined_add hh _ _).frames.refusals
  | commit txn => exact hdisk ▸ (Log.confined_commit hh txn).frames.refusals
  | abort txn => exact hdisk ▸ (Log.confined_abort hh txn).frames.refusals
  | _ => cases hr

theorem flushes_of_record? {n : UInt64} (hr : q.record? n = some r) : q.flushes true = true := by
  cases q <;> simp_all [Request.flushes, Request.record?]

/-- After any run a log in sync mode has nothing in its buffer and would be granted a request to add a
record, but no file can be synced. Then the request is refused and the log is as before. Once files
can be synced again the record is found behind the others. -/
theorem left_behind {d : Disk} {settings : Settings} {es : List Event} (h : d.Holds folder [])
    (hv : settings.validate = .ok ()) (hf : settings.folder = folder)
    (ha : Along (Allowed folder) { disk := d, settings } (es ++ [.ask q]))
    (hl : (run { disk := d, settings } es).log = some l) (hs : l.appender.sync = true)
    (hb : l.appender.buffer = []) (hr : q.record? l.nextSequence = some r)
    (hgranted : ((run { disk := d, settings } es).serve q).1.isFailure = false) (f : Fault) :
    let s := run { disk := d, settings } es
    let refused := (s.step (.disturb (s.disk.withoutSync f))).serve q
    (∃ path, refused.1 = .failed (.io .syncSegment path f)) ∧
    (∃ l', refused.2.log = some l' ∧ l'.desk = l.desk ∧ l'.appender.buffer = []) ∧
    Log.recordsOf { refused.2.disk with refusals := s.disk.refusals } folder =
      .ok (s.contents folder ++ [r]) := by
  intro s refused
  have hopen : s.log = some l := hl
  have hserved : (s.serve q).1.isFailure = false := hgranted
  obtain ⟨hbefore, hask, -⟩ := along_append.mp ha
  have hempty : Rests folder { disk := d, settings } (recordsIn []) [] :=
    ⟨hv, hf, .shut rfl h intact_nil⟩
  obtain ⟨D, B, hrests⟩ := hempty.run hbefore
  have hsorted := hempty.sorted_run (by rw [ledger_of_none rfl]; nofun) hbefore
  have hts : l.transactions.Sorted := hsorted l.desk (by rw [ledger_of_some hl])
  have hq : q ≠ .start := by
    rintro rfl
    cases hr
  -- the disk that a granted request leaves
  obtain ⟨S, T, hnext, hrecords, -, hack⟩ := hrests.ask hq hask
  have hgained : s.gained (.ask q) = [r] := by
    simp only [gained, added, hopen, hserved, hr]
    rfl
  have hacked : s.acknowledges (.ask q) = true := by
    simp only [acknowledges, hopen, hserved, hs, flushes_of_record? hr]
    rfl
  rw [hack hacked, List.append_nil, show Session.gained _ (.ask q) = [r] from hgained,
    ← hrests.stands.contents] at hrecords
  obtain ⟨c, hserve, hbuffer⟩ := serve_withoutSync (f := f) hopen hts hs hb hr hserved
  have hrefused : refused = _ := hserve
  rw [hrefused]
  refine ⟨⟨c.path, rfl⟩, ⟨_, rfl, rfl, hbuffer⟩, ?_⟩
  obtain ⟨vs, htracks, -⟩ := (hrests.stands.log hl).keeps
  have hsame := refusals_serve hopen htracks.held hr
  have hdisk : { ((s.step (.ask q)).disk.withoutSync f) with refusals := s.disk.refusals } =
      (s.step (.ask q)).disk := by
    rw [← hsame]
    rfl
  show Log.recordsOf { ((s.step (.ask q)).disk.withoutSync f) with refusals := s.disk.refusals } folder
    = _
  rw [hdisk, ← hrecords]
  exact hnext.stands.recordsOf

/-! ## Records that nobody was promised -/

/-- The medium of a disk fails. -/
def mediumError : Fault := .other "Input/output error (os error 5)"

/-- A disk whose files cannot be synced any more. -/
def failing (s : Session) : Event := .disturb (s.disk.withoutSync mediumError)

/-- The log is opened, a write is refused, and the process is killed. The next opening finds the
record. -/
theorem found_after_refusal :
    let opened := step { disk := emptyFolder, settings := .ofFolder "wal" } (.ask .start)
    let since := [opened.failing, .ask (.write 0 [107] [118])]
    let left := (opened.run since).step .crash
    let found := (left.step (.ask .start)).contents "wal"
    opened.contents "wal" = [] ∧
    opened.answers since =
      [.failed (.io .syncSegment "wal/00000000000000000001.wal" mediumError)] ∧
    (opened.history ⟨[], []⟩ since).logged = [] ∧
    (left.serve .start).1 = .opened (Replay.ofRecords found) ∧
    found = [Record.write 1 0 [107] [118]] ∧ ¬ found <+: (opened.history ⟨[], []⟩ since).logged := by
  decide +kernel

/-- A commit is refused. The marker is in the log and its transaction is active, and its write is
read. -/
theorem active_with_marker :
    let s := run { disk := emptyFolder, settings := .ofFolder "wal" } wrote
    let after := (s.step s.failing).step (.ask (.commit 1))
    ((s.step s.failing).serve (.commit 1)).1.isRefused = true ∧
    after.contents "wal" = [Record.write 1 1 [107] [118], Record.marker .txnCommit 2 1] ∧
    after.log.map (·.transactions.activeIds) = some [1] ∧
    (after.serve .readAll).1 = .records [Record.write 1 1 [107] [118]] := by
  decide +kernel

/-- Settings under which two short records fill a segment. -/
def twoShort : Settings := { folder := "wal", segmentLimit := 60 }

/-- Of two writes the second is refused. The third begins another segment, so that nothing cuts the
second off, and its number is given out again. -/
theorem number_given_twice :
    let s := run { disk := emptyFolder, settings := twoShort } [.ask .start, .ask (.write 0 [1] [2])]
    let refused := (s.step s.failing).step (.ask (.write 0 [3] [4]))
    let next : Event := .ask (.write 0 [5] [6, 7, 8, 9, 10, 11, 12, 13, 14, 15])
    let last := (refused.step (.disturb { refused.disk with refusals := s.disk.refusals })).step next
    (refused.contents "wal").map (·.sequence) = [1, 2] ∧
    refused.log.map (·.lastSequence) = some 1 ∧
    (last.contents "wal").map (·.sequence) = [1, 2, 2] ∧ last.log.map (·.lastSequence) = some 2 := by
  decide +kernel

/-- Of the second write some octets get through. The third begins another segment and is granted. The
next opening cuts the log behind the first, and the third is lost. -/
theorem acknowledged_lost :
    let s := run { disk := emptyFolder, settings := { twoShort with policy := .truncateTail } }
      [.ask .start, .ask (.write 0 [1] [2])]
    let torn := s.step
      (.disturb { s.disk with refusals := fun _ => { writing := some (5, mediumError) } })
    let refused := torn.step (.ask (.write 0 [3] [4]))
    let free := refused.step (.disturb { refused.disk with refusals := s.disk.refusals })
    let next : Request := .write 0 [5] [6, 7, 8, 9, 10, 11, 12, 13, 14, 15]
    let again := ((free.step (.ask next)).step .crash).step (.ask .start)
    (torn.serve (.write 0 [3] [4])).1.isRefused = true ∧ (free.serve next).1 = .number 2 ∧
    free.acknowledges (.ask next) = true ∧
    again.log.map (·.report.cutAt) = some (some (1, 28)) ∧
    again.contents "wal" = [Record.write 1 0 [1] [2]] := by
  decide +kernel

end Session

end SegmentLog
