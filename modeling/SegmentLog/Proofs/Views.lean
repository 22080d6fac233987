import SegmentLog.Proofs.LiveTable

/-!
What a request does to the view of a log, the list of records that readers are shown. A record that
is not the marker of an outcome leaves the records before it as they are (`view_append`). A marker at
the end of the log reaches back over all of it: a commit shows every write of its transaction where it
stands in the log, a rollback hides all of them, and the records of others stay
(`view_append_marker`).

The main statement is about a session: between two readings, with one request in between, the view
changes as `viewAfter` says and in no other way (`Session.view_of_request`), whatever the log holds
and however the writes of the transactions are interleaved.
-/

namespace SegmentLog

/-- The records of a log that readers are shown, in the order of the log. -/
def view (log : List Record) : List Record := log.filter (shown log)

/-- The view of a log after one more request, as it was answered. -/
def viewAfter (log : List Record) : Request → Answer → List Record
  | .write txn key value, .number n =>
    if txn = 0 ∨ outcome? log txn = some .txnCommit then view log ++ [Record.write n txn key value]
    else view log
  | .checkpoint, .number n => view log ++ [Record.marker .checkpoint n 0]
  | .commit txn, .done =>
    if txn = 0 then view log
    else log.filter fun r => if r.txn = txn then r.kind = .write else shown log r
  | .abort txn, .done => if txn = 0 then view log else (view log).filter (·.txn ≠ txn)
  | _, _ => view log

/-- What a request is answered with at an open desk, where the disk refuses nothing. -/
def Desk.dueAnswer (k : Desk) (log : List Record) : Request → Answer
  | .start => .opened (Replay.ofRecords log)
  | .begin => .number k.transactions.nextId
  | .write txn key value =>
    .of (fun _ => .number (k.lastSequence + 1))
      (Record.write (k.lastSequence + 1) txn key value).encode
  | .checkpoint => .number (k.lastSequence + 1)
  | .commit txn | .abort txn =>
    if txn ∈ k.transactions.activeIds then .done else .failed (.notActive txn)
  | .sync | .close => .done
  | .readAll => .records (view log)

/-! ## One more record -/

section Append

variable {log : List Record} {m : Record}

theorem view_append (hc : m.kind ≠ .txnCommit) (hr : m.kind ≠ .txnRollback) :
    view (log ++ [m]) = if shown log m then view log ++ [m] else view log := by
  unfold view
  rw [shown_append_of_undecided hc hr, List.filter_append]
  cases hm : shown log m with
  | true => rw [List.filter_cons_of_pos hm, if_pos rfl, List.filter_nil]
  | false => rw [List.filter_cons_of_neg (by simp [hm]), List.filter_nil, List.append_nil]; rfl

theorem view_append_write (n txn : UInt64) (key value : Octets) :
    view (log ++ [Record.write n txn key value]) =
      if txn = 0 ∨ outcome? log txn = some .txnCommit then
        view log ++ [Record.write n txn key value]
      else view log := by
  have hshown : shown log (Record.write n txn key value) = true ↔
      txn = 0 ∨ outcome? log txn = some .txnCommit := decide_eq_true_iff
  rw [view_append (by simp [Record.write]) (by simp [Record.write])]
  exact if_congr hshown rfl rfl

theorem view_append_checkpoint (n : UInt64) :
    view (log ++ [Record.marker .checkpoint n 0]) = view log ++ [Record.marker .checkpoint n 0] := by
  rw [view_append (by simp [Record.marker]) (by simp [Record.marker])]
  exact if_pos rfl

/-- A record of a transaction is shown when it is a write and the transaction is committed. -/
theorem shown_of_ne_zero {r : Record} (ht : r.txn ≠ 0) :
    shown log r = decide (r.kind = .write ∧ outcome? log r.txn = some .txnCommit) := by
  unfold shown
  cases r.kind <;> simp [ht]

/-- The marker of an outcome decides about every record of its transaction, wherever it stands, and
about no other. -/
theorem view_append_marker {kind : Kind} (hk : kind = .txnCommit ∨ kind = .txnRollback)
    (n txn : UInt64) :
    view (log ++ [Record.marker kind n txn]) =
      if txn = 0 then view log
      else log.filter fun r =>
        if r.txn = txn then decide (r.kind = .write ∧ kind = .txnCommit) else shown log r := by
  have hlast : (Record.marker kind n txn).kind = kind := rfl
  have htxn : (Record.marker kind n txn).txn = txn := rfl
  have hhidden (other : List Record) : shown other (Record.marker kind n txn) = false := by
    rcases hk with rfl | rfl <;> rfl
  have hdecides (id : UInt64) : (Record.marker kind n txn).decides id = decide (txn = id) := by
    simp [Record.decides, hlast, htxn, hk]
  -- the records of others, and those outside transactions, do not look at the marker
  have hother (r : Record) (hr : r.txn ≠ txn) :
      shown (log ++ [Record.marker kind n txn]) r = shown log r := by
    apply shown_append_of_not_decides
    rw [hdecides]
    exact decide_eq_false (Ne.symm hr)
  unfold view
  rw [List.filter_append, List.filter_cons_of_neg (by simp [hhidden]), List.filter_nil,
    List.append_nil]
  split
  · rename_i hzero
    subst hzero
    apply List.filter_congr
    intro r _
    by_cases hr : r.txn = 0
    · unfold shown
      cases r.kind <;> simp [hr]
    · exact hother r hr
  · rename_i hzero
    apply List.filter_congr
    intro r _
    by_cases hr : r.txn = txn
    · rw [if_pos hr, shown_of_ne_zero (hr ▸ hzero), outcome?_append, outcome?_singleton, hdecides, hr]
      simp [hlast]
    · rw [if_neg hr]
      exact hother r hr

theorem viewAfter_others {q : Request} {txn : UInt64} {kind : Kind}
    (hq : q.outcomeOf txn = some kind) (log : List Record) (answer : Answer) :
    (viewAfter log q answer).filter (·.txn ≠ txn) = (view log).filter (·.txn ≠ txn) := by
  cases q with
  | commit other =>
    obtain ⟨rfl, -⟩ := Request.outcomeOf_commit_eq_some.mp hq
    cases answer with
    | done =>
      simp only [viewAfter, view]
      split
      · rfl
      · rw [List.filter_filter, List.filter_filter]
        apply List.filter_congr
        intro r _
        by_cases hr : r.txn = other <;> simp [hr]
    | _ => rfl
  | abort other =>
    obtain ⟨rfl, -⟩ := Request.outcomeOf_abort_eq_some.mp hq
    cases answer with
    | done =>
      simp only [viewAfter]
      split
      · rfl
      · simp only [List.filter_filter, Bool.and_self]
    | _ => rfl
  | _ => cases hq

end Append

/-! ## Requests -/

namespace Ledger

variable {l : Ledger} {k : Desk} {refusal : Option Error}

theorem viewAfter_of_failure {log : List Record} {q : Request} {answer : Answer}
    (h : answer.isFailure = true) : viewAfter log q answer = view log := by
  cases answer with
  | failed e => cases q <;> rfl
  | absent => cases q <;> rfl
  | opened report => cases h
  | number n => cases h
  | done => cases h
  | records rs => cases h

/-- At a desk the view follows from the record that is added when the request is granted. -/
theorem view_onDesk {α : Type} {q : Request} (hk : l.desk = some k) (reply : α → Answer)
    (op : Desk → Desk.Entry α) (hundone : k.Undone (op k))
    (hok : ∀ x k' rs, op k = (.ok x, k', rs) →
      view (l.records ++ rs) = viewAfter l.records q (reply x)) :
    view (l.onDesk reply op).2.records = viewAfter l.records q (l.onDesk reply op).1 := by
  rw [Fate.onDesk_eq hk]
  rcases h : op k with ⟨answer, k', rs⟩
  rw [h] at hundone
  cases answer with
  | ok x => exact hok x k' rs h
  | error e =>
    cases hundone e rfl
    rw [viewAfter_of_failure rfl]
    exact congrArg view (List.append_nil _)

/-- A request at an open desk turns the view into the one that `viewAfter` tells. -/
theorem view_serveRefused (hk : l.desk = some k) (hs : k.transactions.Sorted) {q : Request}
    (hq : q ≠ .start) (hc : q ≠ .close) :
    view (l.serveRefused refusal q).2.records =
      viewAfter l.records q (l.serveRefused refusal q).1 := by
  have hsame : view (l.records ++ []) = view l.records := congrArg view (List.append_nil _)
  cases q with
  | start => exact absurd rfl hq
  | close => exact absurd rfl hc
  | begin =>
    apply view_onDesk hk .number (fun k => k.begin) k.undone_begin
    intro x k' rs h
    rw [Desk.begin_of_ok (congrArg Prod.fst h)] at h
    cases h
    exact hsame
  | write txn key value =>
    apply view_onDesk hk .number (fun k => k.write refusal txn key value) (k.undone_add refusal _)
    intro x k' rs h
    rw [Desk.write, Desk.add_of_ok (congrArg Prod.fst h)] at h
    cases h
    exact view_append_write _ txn key value
  | checkpoint =>
    apply view_onDesk hk .number (fun k => k.checkpoint refusal) (k.undone_add refusal _)
    intro x k' rs h
    rw [Desk.checkpoint, Desk.add_of_ok (congrArg Prod.fst h)] at h
    cases h
    exact view_append_checkpoint _
  | commit txn =>
    apply view_onDesk hk (fun _ => .done) (fun k => k.commit refusal txn)
      (Desk.undone_commit hs refusal txn)
    intro x k' rs h
    rw [(Desk.commit_of_ok (congrArg Prod.fst h)).2] at h
    cases h
    rw [view_append_marker (.inl rfl)]
    simp only [viewAfter, and_true]
  | abort txn =>
    apply view_onDesk hk (fun _ => .done) (fun k => k.abort refusal txn)
      (Desk.undone_abort hs refusal txn)
    intro x k' rs h
    rw [(Desk.abort_of_ok (congrArg Prod.fst h)).2] at h
    cases h
    rw [view_append_marker (.inr rfl), viewAfter, view, List.filter_filter]
    split
    · rfl
    · apply List.filter_congr
      intro r _
      by_cases hr : r.txn = txn <;> simp [hr]
  | sync =>
    apply view_onDesk hk (fun _ => .done) (fun k => k.sync refusal) (k.undone_sync refusal)
    intro x k' rs h
    rw [Desk.sync_of_ok (congrArg Prod.fst h)] at h
    cases h
    exact hsame
  | readAll =>
    apply view_onDesk hk .records (fun k => k.readAll refusal l.records)
      (k.undone_readAll refusal l.records)
    intro rs' k' rs h
    rw [Desk.readAll_of_ok (congrArg Prod.fst h)] at h
    cases h
    exact hsame

end Ledger

/-! ## Due answers -/

namespace Desk

variable {k : Desk}

theorem add_marker (hc : k.closed = false) (kind : Kind) (n txn : UInt64) :
    k.add none (Record.marker kind n txn) =
      (.ok n, { k with lastSequence := n }, [Record.marker kind n txn]) :=
  add_of_grant hc (Record.encode_of_fits ⟨Nat.zero_le _, Nat.zero_le _⟩)

theorem answer_commit (hc : k.closed = false) (hs : k.transactions.Sorted) (txn : UInt64) :
    (k.commit none txn).1 =
      if txn ∈ k.transactions.activeIds then .ok () else .error (.notActive txn) := by
  by_cases ha : k.transactions.phase? txn = some .active
  · have hstart : k.transactions.startCommit txn = .ok (k.transactions.setPhase txn .committing) :=
      if_pos ha
    have hadd := add_marker (k := { k with transactions := k.transactions.setPhase txn .committing }) hc
      .txnCommit (k.lastSequence + 1) txn
    rw [if_pos (hs.mem_activeIds.mpr ha)]
    simp only [Desk.commit, hstart, addOutcome, hadd]
  · have hstart : k.transactions.startCommit txn = .error (.notActive txn) := if_neg ha
    rw [if_neg (mt hs.mem_activeIds.mp ha)]
    simp only [Desk.commit, hstart]

theorem answer_abort (hc : k.closed = false) (hs : k.transactions.Sorted) (txn : UInt64) :
    (k.abort none txn).1 =
      if txn ∈ k.transactions.activeIds then .ok () else .error (.notActive txn) := by
  by_cases ha : k.transactions.phase? txn = some .active
  · have htake : k.transactions.takeForAbort txn =
        .ok (⟨txn, .aborted⟩, k.transactions.erase txn) := if_pos ha
    have hadd := add_marker (k := { k with transactions := k.transactions.erase txn }) hc
      .txnRollback (k.lastSequence + 1) txn
    rw [if_pos (hs.mem_activeIds.mpr ha)]
    simp only [Desk.abort, htake, addOutcome, hadd]
  · have htake : k.transactions.takeForAbort txn = .error (.notActive txn) := if_neg ha
    rw [if_neg (mt hs.mem_activeIds.mp ha)]
    simp only [Desk.abort, htake]

end Desk

theorem Ledger.answer_serve {l : Ledger} {k : Desk} (hk : l.desk = some k) (hc : k.closed = false)
    (hs : k.transactions.Sorted) {q : Request} (hq : q ≠ .start) :
    (l.serve q).1 = k.dueAnswer l.records q := by
  have honDesk {α : Type} {reply : α → Answer} (op : Desk → Desk.Entry α) {x : Except Error α}
      (h : (op k).1 = x) : (l.onDesk reply op).1 = .of reply x := by
    rw [Fate.onDesk_eq hk, ← h]
  cases q with
  | start => exact absurd rfl hq
  | begin =>
    refine honDesk (x := .ok k.transactions.nextId) (fun k => k.begin) ?_
    rw [Desk.begin, if_neg (by simp [hc])]
    rfl
  | write txn key value =>
    refine (honDesk (fun k => k.write none txn key value) rfl).trans ?_
    simp only [Desk.write, Desk.dueAnswer]
    cases he : (Record.write (k.lastSequence + 1) txn key value).encode with
    | error e =>
      rw [Desk.add_of_encode hc he]
      rfl
    | ok bs =>
      rw [Desk.add_of_grant hc he]
      rfl
  | checkpoint =>
    exact honDesk (fun k => k.checkpoint none) (by rw [Desk.checkpoint, Desk.add_marker hc])
  | commit txn =>
    refine (honDesk (fun k => k.commit none txn) (Desk.answer_commit hc hs txn)).trans ?_
    simp only [Desk.dueAnswer]
    split <;> rfl
  | abort txn =>
    refine (honDesk (fun k => k.abort none txn) (Desk.answer_abort hc hs txn)).trans ?_
    simp only [Desk.dueAnswer]
    split <;> rfl
  | sync =>
    refine honDesk (x := .ok ()) (fun k => k.sync none) ?_
    simp only [Desk.sync, hc]
  | readAll => exact congrArg Prod.fst (serve_readAll hk hc)
  | close =>
    refine honDesk (x := .ok ()) (fun k => k.close none) ?_
    simp only [Desk.close, hc]

/-! ## Sessions -/

namespace Session

variable {folder : String} {s : Session} {D B : List Record} {l : Log}

/-- An open log answers what is due, unless the disk refuses. -/
theorem Rests.answer (h : s.Rests folder D B) (hs : (s.ledger folder).Sorted)
    (hl : s.log = some l) (hopen : l.closed = false) {q : Request} (hq : q ≠ .start)
    (ha : Allowed folder s (.ask q)) (hr : (s.serve q).1.isRefused = false) :
    (s.serve q).1 = l.desk.dueAnswer (s.contents folder) q := by
  have hdesk : (s.ledger folder).desk = some l.desk := by rw [ledger_of_some hl]
  obtain ⟨refusal, hanswer, -, hrefused⟩ := h.ledger_ask hq ha
  have hnone : refusal = none := by
    by_contra hne
    exact absurd ((hrefused hne).symm.trans hr) (by simp)
  rw [hanswer, hnone]
  exact Ledger.answer_serve hdesk hopen (hs _ hdesk) hq

/-- Where nothing stands in its way the disk does not refuse. -/
theorem Rests.isRefused_of_ready (h : s.Rests folder D B) (hl : s.log = some l)
    (hr : s.Ready folder) {q : Request} (hq : q ≠ .start) (ha : Allowed folder s (.ask q)) :
    (s.serve q).1.isRefused = false := by
  obtain ⟨S, T, hserves⟩ := serve_of_ready hl (h.stands.log hl) hr hq ha.2
  rw [hserves.answer]
  exact Ledger.isRefused_serve _ q

/-- The view of what an open log holds, after a request. -/
theorem Rests.view_step (h : s.Rests folder D B) (hs : (s.ledger folder).Sorted)
    (hl : s.log = some l) {q : Request} (hq : q ≠ .start) (hc : q ≠ .close)
    (ha : Allowed folder s (.ask q)) :
    view ((s.step (.ask q)).contents folder) = viewAfter (s.contents folder) q (s.serve q).1 := by
  have hdesk : (s.ledger folder).desk = some l.desk := by rw [ledger_of_some hl]
  obtain ⟨refusal, hanswer, hnext, -⟩ := h.ledger_ask hq ha
  have hcontents : (s.step (.ask q)).contents folder = _ := congrArg Ledger.records hnext
  rw [hcontents, hanswer]
  exact Ledger.view_serveRefused hdesk (hs _ hdesk) hq hc

theorem Rests.open_step (h : s.Rests folder D B) (hl : s.log = some l) (hopen : l.closed = false)
    {q : Request} (hq : q ≠ .start) (hc : q ≠ .close) (ha : Allowed folder s (.ask q)) :
    ∃ l', (s.step (.ask q)).log = some l' ∧ l'.closed = false := by
  have hdesk : (s.ledger folder).desk = some l.desk := by rw [ledger_of_some hl]
  obtain ⟨refusal, -, hnext, -⟩ := h.ledger_ask hq ha
  obtain ⟨l', hl', -⟩ := follows_serve hl hq
  have hdesk' : ((s.ledger folder).serveRefused refusal q).2.desk = some l'.desk := by
    rw [← hnext, Session.step, ledger_of_some hl']
  have hkept := (Ledger.books_serveRefused hdesk refusal hq).closed hc _ hdesk'
  exact ⟨l', hl', hkept.trans hopen⟩

/-- What one request does to the view. The log is one of intact volumes, after any run in which no
refused operation leaves anything behind. Readers are shown the view of the log before the request,
and after it what `viewAfter` makes of this view. Unless the disk refuses the request, as it does
not where nothing stands in the way, its answer is the due one: a write of fitting fields and a
checkpoint are granted the next number. An outcome leaves the records of other transactions in the
view. -/
theorem view_of_request {d : Disk} {vs : List Volume} {settings : Settings} {es : List Event}
    {q : Request} (h : d.Holds folder vs) (hi : Intact vs) (hv : settings.validate = .ok ())
    (hf : settings.folder = folder)
    (ha : Along (Allowed folder) { disk := d, settings } (es ++ [.ask q]))
    (hl : (run { disk := d, settings } es).log = some l) (hopen : l.closed = false)
    (hq : q ≠ .start) (hc : q ≠ .close)
    (hbefore : ((run { disk := d, settings } es).serve .readAll).1.isRefused = false)
    (hafter : (((run { disk := d, settings } es).step (.ask q)).serve .readAll).1.isRefused = false) :
    let s := run { disk := d, settings } es
    let next := s.step (.ask q)
    let before := view (s.contents folder)
    let after := viewAfter (s.contents folder) q (s.serve q).1
    (s.serve .readAll).1 = .records before ∧ (next.serve .readAll).1 = .records after ∧
    ((s.serve q).1.isRefused = false →
      (s.serve q).1 = l.desk.dueAnswer (s.contents folder) q) ∧
    (s.Ready folder → (s.serve q).1.isRefused = false) ∧
    ∀ txn kind, q.outcomeOf txn = some kind →
      after.filter (·.txn ≠ txn) = before.filter (·.txn ≠ txn) := by
  intro s next before after
  obtain ⟨hrun, hlast, -⟩ := along_append.mp ha
  have hfirst : Rests folder { disk := d, settings } (recordsIn vs) [] :=
    ⟨hv, hf, .shut rfl h hi⟩
  obtain ⟨D, B, hrests⟩ := hfirst.run hrun
  have hsorted : (s.ledger folder).Sorted :=
    hfirst.sorted_run (by rw [ledger_of_none rfl]; nofun) hrun
  obtain ⟨S, T, hnext, -, -, -⟩ := hrests.ask hq hlast
  have hask : s.Along (Allowed folder) [.ask q] := ⟨hlast, trivial⟩
  have hsorted' : (next.ledger folder).Sorted := hrests.sorted_run hsorted hask
  obtain ⟨l', hl', hopen'⟩ := hrests.open_step hl hopen hq hc hlast
  have hread : Allowed folder s (.ask .readAll) := ⟨trivial, wraps_readAll s⟩
  have hread' : Allowed folder next (.ask .readAll) := ⟨trivial, wraps_readAll next⟩
  have hshown : (next.serve .readAll).1 = .records (view (next.contents folder)) :=
    hnext.answer hsorted' hl' hopen' (by simp) hread' hafter
  rw [hrests.view_step hsorted hl hq hc hlast] at hshown
  exact ⟨hrests.answer hsorted hl hopen (by simp) hread hbefore, hshown,
    hrests.answer hsorted hl hopen hq hlast, fun hr => hrests.isRefused_of_ready hl hr hq hlast,
    fun txn kind hkind => viewAfter_others hkind _ _⟩

/-- A transaction is aborted, written to again by a process that does not know it, and found live by
the next opening; others write in between. -/
def abortedAndLive : List Event :=
  [.ask .start, .ask .begin, .ask (.write 1 [97] []), .ask (.abort 1), .ask (.write 2 [98] []),
    .ask (.write 1 [99] []), .ask .start, .ask (.write 0 [100] [])]

/-- Its commit shows what it wrote before and after the rollback, where it stands in the log, and a
checkpoint comes behind all of it. -/
theorem view_of_request_abortedAndLive :
    let s := run { disk := emptyFolder, settings := .ofFolder "wal" } abortedAndLive
    let committed := s.step (.ask (.commit 1))
    let last := committed.step (.ask .checkpoint)
    (emptyFolder.Holds "wal" [] ∧ Intact [] ∧ (Settings.ofFolder "wal").validate = .ok () ∧
      (Settings.ofFolder "wal").folder = "wal" ∧
      Along (Allowed "wal") { disk := emptyFolder, settings := .ofFolder "wal" }
        (abortedAndLive ++ [.ask (.commit 1)] ++ [.ask .checkpoint]) ∧
      (∃ l, s.log = some l ∧ l.closed = false) ∧
      (∃ l, committed.log = some l ∧ l.closed = false ∧ l.lastSequence = 6) ∧ committed.Ready "wal" ∧
      (s.serve .readAll).1.isRefused = false ∧ (committed.serve .readAll).1.isRefused = false ∧
      (last.serve .readAll).1.isRefused = false) ∧
    (s.serve .readAll).1 = .records [Record.write 5 0 [100] []] ∧
    (committed.serve .readAll).1 =
      .records [Record.write 1 1 [97] [], Record.write 4 1 [99] [], Record.write 5 0 [100] []] ∧
    (committed.serve .checkpoint).1 = .number 7 ∧
    (last.serve .readAll).1 =
      .records [Record.write 1 1 [97] [], Record.write 4 1 [99] [], Record.write 5 0 [100] [],
        Record.marker .checkpoint 7 0] := by
  intro s committed last
  have hshared : Along (Shared "wal") { disk := emptyFolder, settings := .ofFolder "wal" }
      (abortedAndLive ++ [.ask (.commit 1)] ++ [.ask .checkpoint]) := by
    simp [abortedAndLive, Shared]
  have ha := allowed_of_length holds_emptyFolder rfl rfl hshared (by decide)
  have hbefore : (s.serve .readAll).1.isRefused = false := by decide +kernel
  have hbetween : (committed.serve .readAll).1.isRefused = false := by decide +kernel
  have hafter : (last.serve .readAll).1.isRefused = false := by decide +kernel
  have hopen : ∃ l, s.log = some l ∧ l.closed = false := by
    have hclosed : s.log.map (·.closed) = some false := by decide +kernel
    exact Option.map_eq_some_iff.mp hclosed
  have hopen' : ∃ l, committed.log = some l ∧ l.closed = false ∧ l.lastSequence = 6 := by
    have hclosed : committed.log.map (fun l => (l.closed, l.lastSequence)) = some (false, 6) := by
      decide +kernel
    obtain ⟨l, hl, hboth⟩ := Option.map_eq_some_iff.mp hclosed
    exact ⟨l, hl, congrArg Prod.fst hboth, congrArg Prod.snd hboth⟩
  have hrun : run { disk := emptyFolder, settings := .ofFolder "wal" }
      (abortedAndLive ++ [.ask (.commit 1)]) = committed := by
    rw [run_append]
    rfl
  have hready : committed.Ready "wal" := by
    have hlocate : emptyFolder.locate "wal" = .ok (Location.top.enter "wal") := by decide +kernel
    have hclear : emptyFolder.Clear "wal" :=
      Disk.clear_of_files hlocate (by decide +kernel) (by decide +kernel)
    have hempty : Agrees "wal" { disk := emptyFolder, settings := .ofFolder "wal" }
        { records := [] } :=
      ⟨rfl, rfl, rfl, [], [], .shut rfl holds_emptyFolder intact_nil, rfl, fun _ hl => by cases hl⟩
    rw [← hrun]
    exact (hempty.calm_run ⟨hclear, fun _ => rfl⟩ (by decide +kernel)).2
  refine ⟨⟨holds_emptyFolder, intact_nil, rfl, rfl, ha, hopen, hopen', hready, hbefore, hbetween,
    hafter⟩, ?_⟩
  obtain ⟨l, hl, hclosed⟩ := hopen
  obtain ⟨l', hl', hclosed', hlast⟩ := hopen'
  obtain ⟨hview, hview', -⟩ := view_of_request holds_emptyFolder intact_nil rfl rfl
    (along_append.mp ha).1 hl hclosed (by simp) (by simp) hbefore hbetween
  obtain ⟨-, hview'', hdue, hfree, -⟩ := view_of_request (q := .checkpoint) holds_emptyFolder intact_nil rfl
    rfl ha (by rw [hrun]; exact hl') hclosed' (by simp) (by simp) (by rw [hrun]; exact hbetween)
    (by rw [hrun]; exact hafter)
  rw [hrun] at hview'' hdue hfree
  refine ⟨hview.trans (congrArg Answer.records ?_), hview'.trans (congrArg Answer.records ?_), ?_,
    hview''.trans (congrArg Answer.records ?_)⟩
  · decide +kernel
  · decide +kernel
  · rw [hdue (hfree hready), Desk.dueAnswer, Log.desk, hlast]
    rfl
  · decide +kernel

end Session

end SegmentLog
