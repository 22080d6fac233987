import SegmentLog.Proofs.Discipline
import SegmentLog.Proofs.Exposure

/-!
A closed log does nothing any more. Its appender was closed with it, whether that was granted or not
(`Log.Orderly`), so what is left in the buffer stays there: neither the clock nor letting go of the log
writes it out. A request is refused where it would add a record, after the transaction was looked up and
its phase perhaps changed, and because the table is in order this is taken back exactly. So every request
leaves the log and the disk as they were (`Session.serve_of_orderly`), and so does any run
(`Session.closed_inert`).
-/

namespace SegmentLog

theorem Transactions.Steps.sorted {ts ts' : Transactions} {q : Request} {answer : Answer}
    (h : ts.Steps q answer ts') (hs : ts.Sorted) : ts'.Sorted := by
  cases h with
  | begins => exact hs.start
  | granted hq ha => exact hs.erase _
  | refused hq ha he => exact hs
  | inactive hq ha => exact hs
  | same hq hb => exact hs

namespace Log

variable {l : Log} {d : Disk}

/-! ## Logs in order -/

/-- The table of a log is in order, and the log is closed if and only if its appender is. -/
structure Orderly (l : Log) : Prop where
  sorted : l.transactions.Sorted
  closed : l.appender.closed = l.closed

theorem closed_add (h : l.appender.closed = l.closed) (d : Disk) (r : Record) (force : Bool) :
    (l.add d r force).2.1.appender.closed = (l.add d r force).2.1.closed := by
  have hkept := (l.appender.preserves_append d r force).terms.closed
  unfold Log.add
  split
  · exact h
  · rcases ha : l.appender.append d r force with ⟨answer, a, d'⟩
    rw [ha] at hkept
    cases answer with
    | error e => exact hkept.trans h
    | ok n => exact hkept.trans h

theorem closed_addOutcome (h : l.appender.closed = l.closed) (d : Disk) (ts : Transactions)
    (refused granted : Transactions → Transactions) (r : Record) (force : Bool) :
    (l.addOutcome d ts refused granted r force).2.1.appender.closed =
      (l.addOutcome d ts refused granted r force).2.1.closed := by
  have hkept := closed_add (l := { l with transactions := ts }) h d r force
  unfold Log.addOutcome
  rcases ha : Log.add { l with transactions := ts } d r force with ⟨answer, l', d'⟩
  rw [ha] at hkept
  cases answer with
  | error e => exact hkept
  | ok n => exact hkept

theorem closed_commit (h : l.appender.closed = l.closed) (d : Disk) (txn : UInt64) :
    (l.commit d txn).2.1.appender.closed = (l.commit d txn).2.1.closed := by
  cases hs : l.transactions.startCommit txn with
  | error e =>
    simp only [Log.commit, hs]
    exact h
  | ok ts =>
    rw [commit_eq hs]
    exact closed_addOutcome h d _ _ _ _ _

theorem closed_abort (h : l.appender.closed = l.closed) (d : Disk) (txn : UInt64) :
    (l.abort d txn).2.1.appender.closed = (l.abort d txn).2.1.closed := by
  cases hs : l.transactions.takeForAbort txn with
  | error e =>
    simp only [Log.abort, hs]
    exact h
  | ok taken =>
    rw [abort_eq hs]
    exact closed_addOutcome h d _ _ _ _ _

theorem closed_begin (h : l.appender.closed = l.closed) :
    l.begin.2.appender.closed = l.begin.2.closed := by
  unfold Log.begin
  split
  · exact h
  · exact h

theorem closed_sync (h : l.appender.closed = l.closed) (d : Disk) :
    (l.sync d).2.1.appender.closed = (l.sync d).2.1.closed := by
  unfold Log.sync
  split
  · exact h
  · exact ((l.appender.preserves_flush d).terms.closed).trans h

theorem closed_readAll (h : l.appender.closed = l.closed) (d : Disk) :
    (l.readAll d).2.1.appender.closed = (l.readAll d).2.1.closed := by
  have hkept := (l.appender.preserves_flush d).terms.closed
  unfold Log.readAll
  split
  · exact h
  · rcases hf : l.appender.flush d with ⟨answer, a, d'⟩
    rw [hf] at hkept
    cases answer with
    | error e => exact hkept.trans h
    | ok _ =>
      dsimp only
      split
      · exact hkept.trans h
      · exact hkept.trans h

/-- A closing closes the appender, whatever comes of it. -/
theorem closed_close (h : l.appender.closed = l.closed) (d : Disk) :
    (l.close d).2.1.appender.closed = (l.close d).2.1.closed ∧ (l.close d).2.1.closed = true := by
  unfold Log.close
  split
  · rename_i hc
    exact ⟨h, hc⟩
  · exact ⟨l.appender.closed_close d, rfl⟩

theorem Orderly.tick (h : l.Orderly) (d : Disk) : (l.tick d).1.Orderly :=
  ⟨h.sorted, ((l.appender.preserves_tick d).terms.closed).trans h.closed⟩

theorem lastSequence_close (l : Log) (d : Disk) :
    (l.close d).2.1.lastSequence = l.lastSequence := by
  unfold Log.close
  split <;> rfl

/-- A log that was just opened is not closed, and neither is its appender. -/
theorem open_of_start {settings : Settings} {d' : Disk}
    (h : Log.start d settings = (.ok l, d')) : l.closed = false ∧ l.appender.closed = false := by
  have hopened {a : Appender} {d' : Disk} (ha : Appender.start d settings = (.ok a, d')) :
      a.closed = false := by
    obtain ⟨s, n, rfl⟩ := Appender.eq_moveTo_of_start ha
    rfl
  unfold Log.start at h
  split at h
  · cases h
  split at h
  · cases h
  rename_i a d₁ ha
  split at h
  · cases h
  split at h
  · cases h
  split at h
  · cases h
    exact ⟨rfl, hopened ha⟩
  · rename_i id offset _
    have hkept := (a.preserves_cut d₁ id offset).terms.closed
    split at h
    · cases h
    · rename_i hcut
      cases h
      rw [hcut] at hkept
      exact ⟨rfl, hkept.trans (hopened ha)⟩

theorem orderly_of_start {settings : Settings} {d' : Disk}
    (h : Log.start d settings = (.ok l, d')) : l.Orderly := by
  constructor
  · obtain ⟨rs, htable, -⟩ := Session.table_of_start h
    rw [htable]
    exact Desk.sorted_ofRecords rs
  · obtain ⟨hlog, happender⟩ := open_of_start h
    rw [hlog, happender]

/-! ## Closed logs -/

/-- What a closed log answers with: an outcome is denied as usual where the transaction is not active,
a closing is granted again, and everything else is refused. -/
def closedAnswer (ts : Transactions) : Request → Answer
  | .commit txn | .abort txn =>
    .failed (if txn ∈ ts.activeIds then .closed else .notActive txn)
  | .close => .done
  | .start | .begin | .write _ _ _ | .checkpoint | .sync | .readAll => .failed .closed

namespace Orderly

variable (h : l.Orderly) (hc : l.closed = true)
include h hc

/-- The phase of a transaction is changed before the log is found closed, and changed back. -/
theorem commit_of_closed (d : Disk) (txn : UInt64) : l.commit d txn =
    (.error (if txn ∈ l.transactions.activeIds then .closed else .notActive txn), l, d) := by
  by_cases ha : l.transactions.phase? txn = some .active
  · have hstart : l.transactions.startCommit txn = .ok (l.transactions.setPhase txn .committing) :=
      if_pos ha
    have hadd := add_of_closed (l := { l with
      transactions := l.transactions.setPhase txn .committing }) hc d
    rw [if_pos (h.sorted.mem_activeIds.mpr ha), commit_eq hstart]
    simp only [Log.addOutcome, hadd, h.sorted.revertCommit_startCommit hstart]
  · have hstart : l.transactions.startCommit txn = .error (.notActive txn) := if_neg ha
    rw [if_neg (mt h.sorted.mem_activeIds.mp ha)]
    simp only [Log.commit, hstart]

/-- A transaction is taken off the table before the log is found closed, and put back. -/
theorem abort_of_closed (d : Disk) (txn : UInt64) : l.abort d txn =
    (.error (if txn ∈ l.transactions.activeIds then .closed else .notActive txn), l, d) := by
  by_cases ha : l.transactions.phase? txn = some .active
  · have htake : l.transactions.takeForAbort txn =
        .ok ({ id := txn, phase := .aborted }, l.transactions.erase txn) := if_pos ha
    have hadd := add_of_closed (l := { l with transactions := l.transactions.erase txn }) hc d
    rw [if_pos (h.sorted.mem_activeIds.mpr ha), abort_eq htake]
    simp only [Log.addOutcome, hadd, h.sorted.restore_takeForAbort htake]
  · have htake : l.transactions.takeForAbort txn = .error (.notActive txn) := if_neg ha
    rw [if_neg (mt h.sorted.mem_activeIds.mp ha)]
    simp only [Log.abort, htake]

end Orderly

end Log

namespace Session

variable {s : Session} {l : Log}

/-! ## Sessions in order -/

/-- The log that is open, if there is one, is in order. -/
def Orderly (s : Session) : Prop := ∀ l, s.log = some l → l.Orderly

/-- Whether it is granted or not, a request leaves a closed log where the appender is closed. -/
theorem closed_serve (hl : s.log = some l) (h : l.appender.closed = l.closed) {q : Request}
    (hq : q ≠ .start) :
    ∃ l', (s.serve q).2.log = some l' ∧ l'.appender.closed = l'.closed := by
  cases q with
  | start => exact absurd rfl hq
  | begin =>
    rw [serve, onLog_eq hl]
    exact ⟨_, rfl, Log.closed_begin h⟩
  | write txn key value =>
    rw [serve, onLog_eq hl]
    exact ⟨_, rfl, Log.closed_add h s.disk _ _⟩
  | commit txn =>
    rw [serve, onLog_eq hl]
    exact ⟨_, rfl, Log.closed_commit h s.disk txn⟩
  | abort txn =>
    rw [serve, onLog_eq hl]
    exact ⟨_, rfl, Log.closed_abort h s.disk txn⟩
  | checkpoint =>
    rw [serve, onLog_eq hl]
    exact ⟨_, rfl, Log.closed_add h s.disk _ _⟩
  | sync =>
    rw [serve, onLog_eq hl]
    exact ⟨_, rfl, Log.closed_sync h s.disk⟩
  | readAll =>
    rw [serve, onLog_eq hl]
    exact ⟨_, rfl, Log.closed_readAll h s.disk⟩
  | close =>
    rw [serve, onLog_eq hl]
    exact ⟨_, rfl, (Log.closed_close h s.disk).1⟩

theorem Orderly.serve (h : s.Orderly) (q : Request) : (s.serve q).2.Orderly := by
  by_cases hq : q = .start
  · subst hq
    intro l hl
    unfold Session.serve at hl
    dsimp only at hl
    split at hl
    · rename_i hstart
      cases hl
      exact Log.orderly_of_start hstart
    · cases hl
  · cases hl : s.log with
    | none =>
      rw [serve_of_none hl hq]
      exact h
    | some l =>
      obtain ⟨l₁, hl₁, hsteps⟩ := steps_serve hl (h l hl).sorted hq
      obtain ⟨l₂, hl₂, hclosed⟩ := closed_serve hl (h l hl).closed hq
      obtain rfl : l₁ = l₂ := Option.some.inj (hl₁.symm.trans hl₂)
      intro l' hl'
      obtain rfl : l₁ = l' := Option.some.inj (hl₁.symm.trans hl')
      exact ⟨hsteps.sorted (h l hl).sorted, hclosed⟩

theorem Orderly.step (h : s.Orderly) (e : Event) : (s.step e).Orderly := by
  cases e with
  | ask q => exact h.serve q
  | configure settings => exact h
  | tick =>
    cases hl : s.log with
    | none =>
      intro l' hl'
      simp only [Session.step, hl] at hl'
      cases hl'
    | some l =>
      intro l' hl'
      simp only [Session.step, hl] at hl'
      obtain rfl : (l.tick s.disk).1 = l' := Option.some.inj hl'
      exact (h l hl).tick s.disk
  | disturb d => exact h
  | crash =>
    intro l' hl'
    cases hl'

theorem Orderly.run (h : s.Orderly) (es : List Event) : (s.run es).Orderly := by
  induction es generalizing s with
  | nil => exact h
  | cons e es ih => exact ih (h.step e)

/-! ## Closed sessions -/

theorem onLog_of_same {α : Type} (hl : s.log = some l) (reply : α → Answer)
    (op : Log → Disk → Except Error α × Log × Disk) {answer : Except Error α}
    (hop : op l s.disk = (answer, l, s.disk)) : s.onLog reply op = (.of reply answer, s) := by
  rw [onLog_eq hl, hop, ← hl]

/-- A request to a closed log changes nothing at all. -/
theorem serve_of_orderly (hl : s.log = some l) (h : l.Orderly) (hc : l.closed = true) {q : Request}
    (hq : q ≠ .start) : s.serve q = (Log.closedAnswer l.transactions q, s) := by
  cases q with
  | start => exact absurd rfl hq
  | begin =>
    have hbegin : l.begin = (.error .closed, l) := if_pos hc
    exact onLog_of_same hl .number (fun l d => (l.begin.1, l.begin.2, d)) (by rw [hbegin])
  | write txn key value =>
    exact onLog_of_same hl .number (fun l d => l.write d txn key value)
      (Log.add_of_closed hc s.disk _ _)
  | commit txn =>
    exact onLog_of_same hl (fun _ => .done) (fun l d => l.commit d txn)
      (h.commit_of_closed hc s.disk txn)
  | abort txn =>
    exact onLog_of_same hl (fun _ => .done) (fun l d => l.abort d txn)
      (h.abort_of_closed hc s.disk txn)
  | checkpoint =>
    exact onLog_of_same hl .number (fun l d => l.checkpoint d) (Log.add_of_closed hc s.disk _ _)
  | sync => exact onLog_of_same hl (fun _ => .done) (fun l d => l.sync d) (if_pos hc)
  | readAll => exact onLog_of_same hl .records (fun l d => l.readAll d) (if_pos hc)
  | close => exact onLog_of_same hl (fun _ => .done) (fun l d => l.close d) (if_pos hc)

/-- The disk that others leave, where nobody else changes it. -/
def leftBy (d : Disk) : List Event → Disk
  | [] => d
  | .disturb d' :: rest => leftBy d' rest
  | _ :: rest => leftBy d rest

/-- A closed log sleeps through any run. -/
theorem run_of_orderly (hl : s.log = some l) (h : l.Orderly) (hc : l.closed = true)
    {es : List Event} (hes : ∀ e ∈ es, e ≠ .ask .start ∧ e ≠ .crash) :
    (s.run es).log = some l ∧ (s.run es).disk = leftBy s.disk es ∧
      s.answers es = (requests es).map (Log.closedAnswer l.transactions) := by
  induction es generalizing s with
  | nil => exact ⟨hl, rfl, rfl⟩
  | cons e rest ih =>
    have hrest : ∀ e ∈ rest, e ≠ .ask .start ∧ e ≠ .crash :=
      fun e he => hes e (List.mem_cons_of_mem _ he)
    cases e with
    | ask q =>
      have hq : q ≠ .start := fun h => (hes _ List.mem_cons_self).1 (congrArg Event.ask h)
      have hserve := serve_of_orderly hl h hc hq
      have hstep : s.step (.ask q) = s := congrArg Prod.snd hserve
      obtain ⟨hlog, hdisk, hanswers⟩ := ih hl hrest
      rw [run_cons, hstep, answers, hstep, hserve, hanswers]
      exact ⟨hlog, hdisk, rfl⟩
    | configure settings => exact ih (s := s.step (.configure settings)) hl hrest
    | tick =>
      have htick : l.tick s.disk = (l, s.disk) := by
        rw [Log.tick, Appender.tick, if_pos (h.closed.trans hc)]
      have hstep : s.step .tick = s := by
        simp only [Session.step, hl, htick]
        rw [← hl]
      obtain ⟨hlog, hdisk, hanswers⟩ := ih hl hrest
      rw [run_cons, hstep]
      refine ⟨hlog, hdisk, ?_⟩
      show (s.step .tick).answers rest = _
      rw [hstep]
      exact hanswers
    | disturb d => exact ih (s := s.step (.disturb d)) hl hrest
    | crash => exact absurd rfl (hes _ List.mem_cons_self).2

/-- A closed log is inert. Whatever has come of a log on any disk, and whether its closing is
granted or not, from then on the log stays as the closing left it, its buffer included, and so does
the disk, unless others change it, also when the log is let go. An outcome is denied as ever where
the transaction is not active, another closing is granted, and every other request is refused. -/
theorem closed_inert {d : Disk} {settings : Settings} {es fs : List Event} {l : Log}
    (hl : (Session.run { disk := d, settings } es).log = some l)
    (hfs : ∀ e ∈ fs, e ≠ .ask .start ∧ e ≠ .crash) :
    let shut := (Session.run { disk := d, settings } es).step (.ask .close)
    ∃ l', shut.log = some l' ∧
      l'.lastSequence = l.lastSequence ∧ l'.transactions = l.transactions ∧
      (shut.run fs).log = some l' ∧
      (shut.run fs).disk = leftBy shut.disk fs ∧
      (shut.run fs).released = leftBy shut.disk fs ∧
      shut.answers fs = (requests fs).map (Log.closedAnswer l'.transactions) := by
  intro shut
  have hnone : Orderly { disk := d, settings } := by
    intro l' hl'
    cases hl'
  have horderly := hnone.run es
  have hshut := horderly.step (.ask .close)
  have hlog : shut.log = some (l.close (Session.run { disk := d, settings } es).disk).2.1 := by
    show ((Session.run { disk := d, settings } es).serve .close).2.log = _
    rw [serve, onLog_eq hl]
  have h := hshut _ hlog
  have hc := (Log.closed_close (horderly l hl).closed
    (Session.run { disk := d, settings } es).disk).2
  obtain ⟨hrun, hdisk, hanswers⟩ := run_of_orderly hlog h hc hfs
  refine ⟨_, hlog, l.lastSequence_close _, l.transactions_close _, hrun, hdisk, ?_, hanswers⟩
  rw [released, hrun, ← hdisk]
  simp only [Log.drop, Appender.close_of_closed (h.closed.trans hc)]

/-- A transaction has written, and the closing is refused by a full device. -/
def heldBack : List Event := [.ask .start, .ask .begin, .ask (.write 1 [107] [118])]

/-- A value too long for a record. -/
def tooLong : Octets := List.replicate 65536 0

/-- The device goes away, and everything is asked for once. -/
def allAsked : List Event :=
  [.disturb emptyFolder, .tick, .ask .sync, .ask .begin, .ask (.write 1 [107] tooLong),
    .ask (.commit 1), .ask (.abort 1), .ask (.commit 2), .ask .checkpoint, .ask .readAll,
    .ask .close]

/-- Nothing is written out, although nothing stands in the way any more. -/
theorem closed_inert_heldBack :
    let before := Session.run { disk := fullFirst, settings := unsynced } heldBack
    let shut := before.step (.ask .close)
    ((∃ l, before.log = some l) ∧ ∀ e ∈ allAsked, e ≠ .ask .start ∧ e ≠ .crash) ∧
    (before.serve .close).1.isRefused = true ∧
    (∃ l, (shut.run allAsked).log = some l ∧ l.appender.buffer ≠ [] ∧
      l.transactions.activeIds = [1]) ∧
    (shut.run allAsked).released = emptyFolder ∧
    shut.answers allAsked = [.failed .closed, .failed .closed, .failed .closed, .failed .closed,
      .failed .closed, .failed (.notActive 2), .failed .closed, .failed .closed, .done] := by
  intro before shut
  have hopen : before.log.isSome = true := by decide +kernel
  obtain ⟨l, hl⟩ := Option.isSome_iff_exists.mp hopen
  have hfs : ∀ e ∈ allAsked, e ≠ .ask .start ∧ e ≠ .crash := by simp [allAsked]
  obtain ⟨l', hl', -, -, hlog, -, hreleased, hanswers⟩ := closed_inert hl hfs
  have hbuffer : shut.log.any (fun l => l.appender.buffer ≠ []) = true := by decide +kernel
  have hactive : shut.log.map (·.transactions.activeIds) = some [1] := by decide +kernel
  have hl'' : shut.log = some l' := hl'
  rw [hl''] at hbuffer hactive
  have hone : l'.transactions.activeIds = [1] := Option.some.inj hactive
  refine ⟨⟨⟨l, hl⟩, hfs⟩, by decide +kernel, ⟨l', hlog, by simpa using hbuffer, hone⟩, hreleased, ?_⟩
  refine hanswers.trans ?_
  simp [allAsked, requests, Log.closedAnswer, hone]

end Session

end SegmentLog
