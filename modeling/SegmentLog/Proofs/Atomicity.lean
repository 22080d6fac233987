import SegmentLog.Proofs.Durability
import SegmentLog.Proofs.Tables

/-!
What fails leaves no trace. Seen from outside a session is a ledger (`Session.ledger`): the records
it stands for and what the open log keeps in memory of them. Every event moves this ledger as a
request or a loss would (`Rests.ledger_ask`, `Rests.ledger_start`, `Rests.ledger_quiet`,
`Rests.ledger_crash`), also where the disk refuses writes, if it leaves nothing of them. A request
that fails leaves it as it was (`Session.failure_changes_nothing`): a commit or an abort has changed
the table by the time its marker is refused, and changes it back, which gives the same table because
the table is sorted.
-/

namespace SegmentLog

/-! ## Desks -/

namespace Desk

variable {α : Type} {k : Desk} {refusal : Option Error} {ts : Transactions}
  {refused granted : Transactions → Transactions} {r : Record}

/-- If the request failed, the desk is as before and nothing was added. -/
def Undone (k : Desk) (entry : Entry α) : Prop := ∀ e, entry.1 = .error e → entry.2 = (k, [])

/-- A request that is granted leaves nothing to undo. -/
theorem undone_of_ok {x : α} {entered : Desk × List Record} :
    k.Undone ((.ok x : Except Error α), entered) := fun _ he => by cases he

theorem undone_of_error {e : Error} : k.Undone ((.error e : Except Error α), k, []) :=
  fun _ _ => rfl

theorem undone_add (k : Desk) (refusal : Option Error) (r : Record) :
    k.Undone (k.add refusal r) := by
  rcases k.add_eq refusal r with ⟨e, h⟩ | h
  · rw [h]
    exact undone_of_error
  · rw [h]
    exact undone_of_ok

/-- A refused marker is undone if the table is changed back to what it was. -/
theorem undone_addOutcome (hback : refused ts = k.transactions) :
    k.Undone (k.addOutcome refusal ts refused granted r) := by
  rcases Desk.add_eq { k with transactions := ts } refusal r with ⟨e, h⟩ | h
  · simp only [addOutcome, h]
    rw [hback]
    exact undone_of_error
  · simp only [addOutcome, h]
    exact undone_of_ok

theorem undone_begin (k : Desk) : k.Undone k.begin := by
  unfold Desk.begin
  split
  · exact undone_of_error
  · exact undone_of_ok

theorem undone_commit (h : k.transactions.Sorted) (refusal : Option Error) (txn : UInt64) :
    k.Undone (k.commit refusal txn) := by
  cases hs : k.transactions.startCommit txn with
  | error e =>
    simp only [Desk.commit, hs]
    exact undone_of_error
  | ok ts =>
    simp only [Desk.commit, hs]
    exact undone_addOutcome (h.revertCommit_startCommit hs)

theorem undone_abort (h : k.transactions.Sorted) (refusal : Option Error) (txn : UInt64) :
    k.Undone (k.abort refusal txn) := by
  cases hs : k.transactions.takeForAbort txn with
  | error e =>
    simp only [Desk.abort, hs]
    exact undone_of_error
  | ok taken =>
    obtain ⟨t, ts⟩ := taken
    simp only [Desk.abort, hs]
    exact undone_addOutcome (h.restore_takeForAbort hs)

theorem undone_sync (k : Desk) (refusal : Option Error) : k.Undone (k.sync refusal) := by
  unfold Desk.sync
  split
  · exact undone_of_error
  · exact undone_of_error
  · exact undone_of_ok

theorem undone_readAll (k : Desk) (refusal : Option Error) (log : List Record) :
    k.Undone (k.readAll refusal log) := by
  unfold Desk.readAll
  split
  · exact undone_of_error
  · exact undone_of_error
  · exact undone_of_ok

/-! ## Order of the table -/

theorem transactions_add (k : Desk) (refusal : Option Error) (r : Record) :
    (k.add refusal r).2.1.transactions = k.transactions := by
  rcases k.add_eq refusal r with ⟨e, h⟩ | h
  · rw [h]
  · rw [h]

theorem transactions_sync (k : Desk) (refusal : Option Error) :
    (k.sync refusal).2.1.transactions = k.transactions := by
  unfold Desk.sync
  split <;> rfl

theorem transactions_readAll (k : Desk) (refusal : Option Error) (log : List Record) :
    (k.readAll refusal log).2.1.transactions = k.transactions := by
  unfold Desk.readAll
  split <;> rfl

theorem transactions_close (k : Desk) (refusal : Option Error) :
    (k.close refusal).2.1.transactions = k.transactions := by
  unfold Desk.close
  split <;> rfl

theorem sorted_addOutcome (hrefused : (refused ts).Sorted) (hgranted : (granted ts).Sorted) :
    (k.addOutcome refusal ts refused granted r).2.1.transactions.Sorted := by
  rcases Desk.add_eq { k with transactions := ts } refusal r with ⟨e, h⟩ | h
  · simpa only [addOutcome, h] using hrefused
  · simpa only [addOutcome, h] using hgranted

theorem sorted_begin (h : k.transactions.Sorted) : k.begin.2.1.transactions.Sorted := by
  unfold Desk.begin
  split
  · exact h
  · exact h.start

theorem sorted_commit (h : k.transactions.Sorted) (refusal : Option Error) (txn : UInt64) :
    (k.commit refusal txn).2.1.transactions.Sorted := by
  unfold Desk.commit Transactions.startCommit
  split
  · exact h
  · rename_i ts hs
    split at hs
    · cases hs
      have hstarted := h.setPhase txn .committing
      exact sorted_addOutcome (hstarted.setPhase txn .active) (hstarted.erase txn)
    · cases hs

theorem sorted_abort (h : k.transactions.Sorted) (refusal : Option Error) (txn : UInt64) :
    (k.abort refusal txn).2.1.transactions.Sorted := by
  unfold Desk.abort Transactions.takeForAbort
  split
  · exact h
  · rename_i t ts hs
    split at hs
    · cases hs
      have htaken := h.erase txn
      exact sorted_addOutcome (htaken.restore _) htaken
    · cases hs

theorem sorted_ofRecords (log : List Record) : (ofRecords log).transactions.Sorted :=
  Transactions.sorted_ofActive (Replay.pairwise_active log) _

end Desk

/-! ## Ledgers -/

namespace Ledger

variable {α : Type} {l : Ledger} {refusal : Option Error} {q : Request}

/-- The table at the open desk is sorted. -/
def Sorted (l : Ledger) : Prop := ∀ k, l.desk = some k → k.transactions.Sorted

theorem onDesk_of_failure {reply : α → Answer} {op : Desk → Desk.Entry α}
    (hreply : ∀ x, (reply x).isFailure = false)
    (hop : ∀ k, l.desk = some k → k.Undone (op k))
    (hf : (l.onDesk reply op).1.isFailure = true) : (l.onDesk reply op).2 = l := by
  obtain ⟨records, desk⟩ := l
  cases desk with
  | none => rfl
  | some k =>
    have hundone := hop k rfl
    rcases h : op k with ⟨answer, entered⟩
    rw [h] at hundone
    cases answer with
    | ok x =>
      simp only [onDesk, h, Answer.of, hreply x] at hf
      cases hf
    | error e =>
      have hsame : entered = (k, []) := hundone e rfl
      simp only [onDesk, h, hsame, List.append_nil]

/-- A request that fails leaves the ledger as it was, whether the disk refused it or the desk. Only a
failed closing closes the desk. -/
theorem serveRefused_of_failure (hl : l.Sorted) (hq : q ≠ .close)
    (hf : (l.serveRefused refusal q).1.isFailure = true) : (l.serveRefused refusal q).2 = l := by
  cases q with
  | start => cases hf
  | close => exact absurd rfl hq
  | begin => exact onDesk_of_failure (fun _ => rfl) (fun k _ => k.undone_begin) hf
  | write txn key value =>
    exact onDesk_of_failure (fun _ => rfl) (fun k _ => k.undone_add refusal _) hf
  | commit txn =>
    exact onDesk_of_failure (fun _ => rfl) (fun k hk => Desk.undone_commit (hl k hk) refusal txn) hf
  | abort txn =>
    exact onDesk_of_failure (fun _ => rfl) (fun k hk => Desk.undone_abort (hl k hk) refusal txn) hf
  | checkpoint => exact onDesk_of_failure (fun _ => rfl) (fun k _ => k.undone_add refusal _) hf
  | sync => exact onDesk_of_failure (fun _ => rfl) (fun k _ => k.undone_sync refusal) hf
  | readAll => exact onDesk_of_failure (fun _ => rfl) (fun k _ => k.undone_readAll refusal _) hf

theorem sorted_onDesk {reply : α → Answer} {op : Desk → Desk.Entry α}
    (hop : ∀ k, l.desk = some k → (op k).2.1.transactions.Sorted) :
    (l.onDesk reply op).2.Sorted := by
  intro k' hk'
  obtain ⟨records, desk⟩ := l
  cases desk with
  | none => cases hk'
  | some k =>
    cases hk'
    exact hop k rfl

theorem sorted_serveRefused (hl : l.Sorted) (refusal : Option Error) (q : Request) :
    (l.serveRefused refusal q).2.Sorted := by
  have hadd (r : Desk → Record) :
      ∀ k, l.desk = some k → (k.add refusal (r k)).2.1.transactions.Sorted := by
    intro k hk
    rw [Desk.transactions_add]
    exact hl k hk
  cases q with
  | start =>
    rintro k ⟨⟩
    exact Desk.sorted_ofRecords l.records
  | begin => exact sorted_onDesk fun k hk => Desk.sorted_begin (hl k hk)
  | write txn key value =>
    exact sorted_onDesk (hadd fun k => Record.write (k.lastSequence + 1) txn key value)
  | commit txn => exact sorted_onDesk fun k hk => Desk.sorted_commit (hl k hk) refusal txn
  | abort txn => exact sorted_onDesk fun k hk => Desk.sorted_abort (hl k hk) refusal txn
  | checkpoint =>
    exact sorted_onDesk (hadd fun k => Record.marker .checkpoint (k.lastSequence + 1) 0)
  | sync => exact sorted_onDesk fun k hk => (k.transactions_sync refusal).symm ▸ hl k hk
  | readAll => exact sorted_onDesk fun k hk => (k.transactions_readAll refusal _).symm ▸ hl k hk
  | close => exact sorted_onDesk fun k hk => (k.transactions_close refusal).symm ▸ hl k hk

end Ledger

namespace Session

variable {folder : String} {s : Session} {D B : List Record}

/-! ## The ledger of a session -/

theorem Stands.recordsOf (h : s.Stands folder D B) : Log.recordsOf s.disk folder = .ok D := by
  cases h with
  | shut hl h hi => rw [h.recordsOf, survey_of_intact hi]
  | @opened l _ _ hl h =>
    have hread := Log.recordsOf_of_keeps h.keeps
    rwa [h.appender] at hread

/-- What a session is seen from outside: the records it stands for, and what the open log keeps in
memory of them. -/
def ledger (folder : String) (s : Session) : Ledger := ⟨s.contents folder, s.log.map Log.desk⟩

theorem ledger_of_some {l : Log} (hl : s.log = some l) :
    s.ledger folder = ⟨s.contents folder, some l.desk⟩ := by
  rw [ledger, hl]
  rfl

theorem ledger_of_none (hl : s.log = none) : s.ledger folder = ⟨s.contents folder, none⟩ := by
  rw [ledger, hl]
  rfl

/-- A request is served as by the ledger, with what the disk refuses as an input. -/
theorem Rests.ledger_ask (h : s.Rests folder D B) {q : Request} (hq : q ≠ .start)
    (ha : Allowed folder s (.ask q)) :
    ∃ refusal, (s.serve q).1 = ((s.ledger folder).serveRefused refusal q).1 ∧
      (s.step (.ask q)).ledger folder = ((s.ledger folder).serveRefused refusal q).2 ∧
      (refusal ≠ none → (s.serve q).1.isRefused = true) := by
  cases hl : s.log with
  | none =>
    have hserve := serve_of_none hl hq
    have hentered := Ledger.serve_of_none (l := s.ledger folder) (by rw [ledger_of_none hl]) hq
    refine ⟨none, ?_, ?_, fun hne => absurd rfl hne⟩
    · exact (congrArg Prod.fst hserve).trans (congrArg Prod.fst hentered).symm
    · rw [Session.step, hserve]
      exact (congrArg Prod.snd hentered).symm
  | some l =>
    obtain ⟨refusal, S, T, hrefusal, hserves, -, -⟩ := serve_spec hl (h.stands.log hl) hq ha.2
    obtain ⟨hanswer, -, ⟨l', hl', hstands', hdesk, -, -⟩, hrecords, -⟩ := hserves
    have hbefore : s.ledger folder = ⟨D ++ B, some l.desk⟩ := by
      rw [ledger_of_some hl, h.stands.contents]
    have hafter : (s.step (.ask q)).ledger folder = ⟨S ++ T, some l'.desk⟩ := by
      rw [Session.step, ledger_of_some hl', Stands.contents (.opened hl' hstands')]
    refine ⟨refusal, ?_, ?_, ?_⟩
    · rw [hbefore]
      exact hanswer
    · rw [hbefore, hafter, hrecords, ← hdesk]
    · intro hne
      obtain ⟨e, he⟩ := Option.ne_none_iff_exists'.mp hne
      obtain ⟨hfailed, hio, -⟩ := hrefusal e he
      rw [hfailed]
      exact hio

/-- A refused opening leaves nothing open. -/
theorem log_of_isRefused (h : (s.serve .start).1.isRefused = true) :
    (s.serve .start).2.log = none := by
  simp only [serve] at h ⊢
  cases hstart : Log.start s.released s.settings with
  | mk opened d =>
    rw [hstart] at h
    cases opened with
    | error e => rfl
    | ok l => cases h

/-- An opening finds a prefix of the records and what a replay makes of it, or it is refused. -/
theorem Rests.ledger_start (h : s.Rests folder D B) :
    ∃ S, S <+: (s.ledger folder).records ∧
      ((s.step (.ask .start)).ledger folder = ⟨S, some (Desk.ofRecords S)⟩ ∨
        (s.step (.ask .start)).ledger folder = ⟨S, none⟩) := by
  obtain ⟨S, hnext, -, hall, hcase⟩ := h.start
  have hcontents := hnext.stands.contents
  rw [List.append_nil] at hcontents
  refine ⟨S, ?_, ?_⟩
  · rw [ledger, h.stands.contents]
    exact hall
  · cases hl : (s.step (.ask .start)).log with
    | none =>
      right
      rw [ledger_of_none hl, hcontents]
    | some l =>
      left
      rcases hcase with ⟨l', -, hl', hdesk⟩ | ⟨hrefused, -⟩
      · rw [ledger_of_some hl', hcontents, hdesk]
      · have hnone := log_of_isRefused hrefused
        rw [Session.step, hnone] at hl
        cases hl

/-- What is neither a request nor a crash does not show in the ledger. -/
theorem Rests.ledger_quiet (h : s.Rests folder D B) {e : Event} (ha : Shared folder s e)
    (hask : ∀ q, e ≠ .ask q) (hcrash : e ≠ .crash) :
    (s.step e).ledger folder = s.ledger folder := by
  obtain ⟨S, T, hnext, hsame, -⟩ := h.quiet ha hask hcrash
  have hcontents : (s.step e).contents folder = s.contents folder := by
    rw [hnext.stands.contents, hsame, h.stands.contents]
  have hdesk : (s.step e).log.map Log.desk = s.log.map Log.desk := by
    cases e with
    | ask q => exact absurd rfl (hask q)
    | crash => exact absurd rfl hcrash
    | configure settings => rfl
    | disturb d => rfl
    | tick =>
      cases hl : s.log with
      | none => simp only [Session.step, hl]
      | some l =>
        obtain ⟨l', -, -, hl', -, hkept, -⟩ := tick_spec hl (h.stands.log hl)
        rw [hl', Option.map_some, hkept, Option.map_some]
  rw [ledger, hcontents, hdesk]
  rfl

/-- A crash loses the desk and some of the last records. -/
theorem Rests.ledger_crash (h : s.Rests folder D B) :
    ∃ S, S <+: (s.ledger folder).records ∧ (s.step .crash).ledger folder = ⟨S, none⟩ := by
  have hcontents := h.crash.stands.contents
  rw [List.append_nil] at hcontents
  refine ⟨D, ?_, ?_⟩
  · rw [ledger, h.stands.contents]
    exact List.prefix_append D B
  · rw [ledger_of_none rfl, hcontents]

/-- What an event makes of the ledger: what a request makes of it, a prefix that an opening found or a
crash left, or the same as before. -/
theorem Rests.ledger_step (h : s.Rests folder D B) {e : Event} (he : Allowed folder s e)
    {P : Ledger → Prop}
    (hserve : ∀ q refusal, e = .ask q → q ≠ .start → P ((s.ledger folder).serveRefused refusal q).2)
    (hopened : ∀ S, S <+: (s.ledger folder).records → P ⟨S, some (Desk.ofRecords S)⟩)
    (hlost : ∀ S, S <+: (s.ledger folder).records → P ⟨S, none⟩) (hsame : P (s.ledger folder)) :
    P ((s.step e).ledger folder) := by
  by_cases hask : ∃ q, e = .ask q
  · obtain ⟨q, rfl⟩ := hask
    by_cases hq : q = .start
    · subst hq
      obtain ⟨S, hp, hafter | hafter⟩ := h.ledger_start
      · exact hafter ▸ hopened S hp
      · exact hafter ▸ hlost S hp
    · obtain ⟨refusal, -, hafter, -⟩ := h.ledger_ask hq he
      exact hafter ▸ hserve q refusal rfl hq
  · by_cases hcrash : e = .crash
    · subst hcrash
      obtain ⟨S, hp, hafter⟩ := h.ledger_crash
      exact hafter ▸ hlost S hp
    · rw [h.ledger_quiet he.1 (fun q hq => hask ⟨q, hq⟩) hcrash]
      exact hsame

/-- What requests keep, and what holds of every prefix that is opened or left, holds of the ledger
along a run. -/
theorem Rests.ledger_run {P : Ledger → Prop} {A : Session → Event → Prop}
    (hserve : ∀ s q refusal, A s (.ask q) → q ≠ .start → P (s.ledger folder) →
      P ((s.ledger folder).serveRefused refusal q).2)
    (hopened : ∀ (L : Ledger) S, P L → S <+: L.records → P ⟨S, some (Desk.ofRecords S)⟩)
    (hlost : ∀ (L : Ledger) S, P L → S <+: L.records → P ⟨S, none⟩)
    (h : s.Rests folder D B) (hs : P (s.ledger folder)) {es : List Event}
    (ha : s.Along (fun s e => Allowed folder s e ∧ A s e) es) :
    P ((s.run es).ledger folder) := by
  induction es generalizing s D B with
  | nil => exact hs
  | cons e es ih =>
    obtain ⟨⟨he, hown⟩, hrest⟩ := ha
    obtain ⟨Y, T, hnext, -⟩ := h.step he
    refine ih hnext ?_ hrest
    refine h.ledger_step he ?_ (fun S => hopened _ S hs) (fun S => hlost _ S hs) hs
    rintro q refusal rfl hq
    exact hserve s q refusal hown hq hs

/-! ## Failures -/

/-- Whatever happens, the table of the open log stays sorted. -/
theorem Rests.sorted_run (h : s.Rests folder D B) (hs : (s.ledger folder).Sorted)
    {es : List Event} (ha : s.Along (Allowed folder) es) :
    ((s.run es).ledger folder).Sorted := by
  refine h.ledger_run (A := fun _ _ => True) ?_ ?_ ?_ hs (ha.mono fun s e he => ⟨he, trivial⟩)
  · intro s q refusal _ _ hsorted
    exact Ledger.sorted_serveRefused hsorted refusal q
  · rintro L S _ _ k ⟨⟩
    exact Desk.sorted_ofRecords S
  · intro L S _ _
    nofun

/-- A request that fails does not show in the ledger. -/
theorem Rests.ledger_of_failure (h : s.Rests folder D B) (hs : (s.ledger folder).Sorted)
    {q : Request} (hq : q ≠ .start) (hc : q ≠ .close) (ha : Allowed folder s (.ask q))
    (hf : (s.serve q).1.isFailure = true) :
    (s.step (.ask q)).ledger folder = s.ledger folder := by
  obtain ⟨refusal, hanswer, hafter, -⟩ := h.ledger_ask hq ha
  rw [hanswer] at hf
  rw [hafter]
  exact Ledger.serveRefused_of_failure hs hc hf

/-- A request that fails changes nothing: not the records, on disk with those in the buffer, not the
last sequence number, not the table of live transactions, and not whether the log is closed. Before
it new segments and writes may be refused, with nothing left of them, and others may change what is
no segment of the log (`Allowed`). Segment numbers would have to start over, which takes at least `2
^ 64 - 1` events (`allowed_of_length`). -/
theorem failure_changes_nothing {d : Disk} {vs : List Volume} {settings : Settings}
    {es : List Event} {q : Request} (h : d.Holds folder vs) (hi : Intact vs)
    (hv : settings.validate = .ok ()) (hf : settings.folder = folder)
    (ha : Along (Allowed folder) { disk := d, settings } (es ++ [.ask q]))
    (hq : q ≠ .start) (hc : q ≠ .close)
    (hfail : ((run { disk := d, settings } es).serve q).1.isFailure = true) :
    let s := run { disk := d, settings } es
    let after := s.step (.ask q)
    (∃ stored stored', Log.recordsOf s.disk folder = .ok stored ∧
      Log.recordsOf after.disk folder = .ok stored' ∧ stored <+: stored') ∧
    after.contents folder = s.contents folder ∧
    ∀ l, s.log = some l → ∃ l', after.log = some l' ∧
      l'.lastSequence = l.lastSequence ∧ l'.nextTxn = l.nextTxn ∧
      l'.transactions.activeIds = l.transactions.activeIds ∧
      (∀ txn, l'.transactions.phase? txn = l.transactions.phase? txn) ∧
      l'.transactions = l.transactions ∧ l'.closed = l.closed := by
  intro s after
  obtain ⟨hbefore, hlast, -⟩ := along_append.mp ha
  have hfirst : Rests folder { disk := d, settings } (recordsIn vs) [] :=
    ⟨hv, hf, .shut rfl h hi⟩
  obtain ⟨D, B, hrests⟩ := hfirst.run hbefore
  have hsorted := hfirst.sorted_run (by rw [ledger_of_none rfl]; nofun) hbefore
  have hledger : after.ledger folder = s.ledger folder :=
    hrests.ledger_of_failure hsorted hq hc hlast hfail
  obtain ⟨S, T, hafter, -, hstored, -⟩ := hrests.ask hq hlast
  refine ⟨⟨D, S, hrests.stands.recordsOf, hafter.stands.recordsOf, hstored⟩,
    congrArg Ledger.records hledger, ?_⟩
  intro l hl
  have hdesk : after.log.map Log.desk = some l.desk := by
    rw [show after.log.map Log.desk = s.log.map Log.desk from congrArg Ledger.desk hledger, hl]
    rfl
  obtain ⟨l', hl', hsame⟩ := Option.map_eq_some_iff.mp hdesk
  have htable : l'.transactions = l.transactions := congrArg Desk.transactions hsame
  refine ⟨l', hl', congrArg Desk.lastSequence hsame, ?_, ?_, ?_, htable, congrArg Desk.closed hsame⟩
  · rw [Log.nextTxn, htable]
    rfl
  · rw [htable]
  · intro txn
    rw [htable]

/-- Two transactions write to the first segment, which has no room for a marker behind them. -/
def twoWriters : List Event :=
  [.ask .start, .ask .begin, .ask (.write 1 [3] [4]), .ask .begin, .ask (.write 2 [5] [6])]

/-- A commit flushes the first segment, begins the second one on a full device and is refused there.
Both writes and both transactions are still there. -/
theorem failure_changes_nothing_fullSecond :
    let s := run { disk := fullSecond, settings := shortSegments } twoWriters
    let after := s.step (.ask (.commit 2))
    (fullSecond.Holds "wal" [] ∧ Intact [] ∧ shortSegments.validate = .ok () ∧
      shortSegments.folder = "wal" ∧
      Along (Allowed "wal") { disk := fullSecond, settings := shortSegments }
        (twoWriters ++ [.ask (.commit 2)]) ∧
      (s.serve (.commit 2)).1.isFailure = true) ∧
    s.segment? = some 1 ∧ after.segment? = some 2 ∧
    s.contents "wal" = [Record.write 1 1 [3] [4], Record.write 2 2 [5] [6]] ∧
    after.contents "wal" = s.contents "wal" ∧
    ∀ l, s.log = some l → ∃ l', after.log = some l' ∧ l'.lastSequence = l.lastSequence ∧
      l'.transactions.activeIds = l.transactions.activeIds := by
  intro s after
  have ha : Along (Allowed "wal") { disk := fullSecond, settings := shortSegments }
      (twoWriters ++ [.ask (.commit 2)]) := by
    refine ⟨⟨trivial, ?_⟩, ⟨trivial, ?_⟩, ⟨trivial, ?_⟩, ⟨trivial, ?_⟩, ⟨trivial, ?_⟩,
      ⟨trivial, ?_⟩, trivial⟩ <;>
      decide +kernel
  have hfail : (s.serve (.commit 2)).1.isFailure = true := by decide +kernel
  obtain ⟨-, hcontents, hlog⟩ := failure_changes_nothing holds_fullSecond intact_nil rfl rfl ha
    (by simp) (by simp) hfail
  refine ⟨⟨holds_fullSecond, intact_nil, rfl, rfl, ha, hfail⟩, by decide +kernel, by decide +kernel,
    by decide +kernel, hcontents, ?_⟩
  intro l hl
  obtain ⟨l', hl', hlast, -, hactive, -⟩ := hlog l hl
  exact ⟨l', hl', hlast, hactive⟩

end Session

end SegmentLog
