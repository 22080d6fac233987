import SegmentLog.Proofs.Refinement
import SegmentLog.Proofs.Tables

/-!
Whether an outcome is final. What requests and answers tell of a transaction is its fate
(`Session.fate`): its last outcome, whether it is live, and whether it wrote after that outcome.
What it wrote before an outcome is read as that outcome says exactly as long as its last outcome is
the same, and another outcome is granted exactly where it is live again
(`Session.outcome_final`). It is live again when its number is given out once more, or when the log
is opened after it wrote behind its marker: an opening takes such a write for the start of a new
transaction. So an aborted transaction can still be committed, and what it wrote comes back
(`Session.aborted_comes_back`).
-/

namespace SegmentLog

/-- The outcome that a request asks for a transaction. -/
def Request.outcomeOf (txn : UInt64) : Request → Option Kind
  | commit other => if other = txn then some .txnCommit else none
  | abort other => if other = txn then some .txnRollback else none
  | _ => none

namespace Request

variable {q : Request} {other txn : UInt64} {kind : Kind}

theorem outcomeOf_commit_eq_some :
    (commit other).outcomeOf txn = some kind ↔ other = txn ∧ .txnCommit = kind := by
  simp [outcomeOf]

theorem outcomeOf_abort_eq_some :
    (abort other).outcomeOf txn = some kind ↔ other = txn ∧ .txnRollback = kind := by
  simp [outcomeOf]

theorem outcomeOf_commit_eq_none : (commit other).outcomeOf txn = none ↔ other ≠ txn := by
  simp [outcomeOf]

theorem outcomeOf_abort_eq_none : (abort other).outcomeOf txn = none ↔ other ≠ txn := by
  simp [outcomeOf]

theorem kind_of_outcomeOf (h : q.outcomeOf txn = some kind) :
    kind = .txnCommit ∨ kind = .txnRollback := by
  cases q with
  | commit other => exact .inl (outcomeOf_commit_eq_some.mp h).2.symm
  | abort other => exact .inr (outcomeOf_abort_eq_some.mp h).2.symm
  | _ => cases h

theorem ne_start_of_outcomeOf (h : q.outcomeOf txn = some kind) : q ≠ .start := by
  rintro rfl
  cases h

end Request

/-- What requests and answers tell of a transaction. -/
structure Fate where
  /-- The marker of its last outcome. -/
  outcome : Option Kind
  /-- An outcome would be granted to it. -/
  live : Bool
  /-- It wrote after its last outcome. -/
  late : Bool
  deriving DecidableEq, Repr

namespace Fate

def settled (kind : Kind) : Fate := ⟨some kind, false, false⟩

/-- The fate of a transaction after one more request. -/
def after (txn : UInt64) (f : Fate) (q : Request) (answer : Answer) : Fate :=
  if answer.isFailure then f
  else
    match q with
    | .start => { f with live := f.late }
    | .begin => if answer = .number txn then { f with live := true } else f
    | .write other _ _ => if other = txn then { f with late := true } else f
    | .commit other => if other = txn then settled .txnCommit else f
    | .abort other => if other = txn then settled .txnRollback else f
    | .checkpoint | .sync | .readAll | .close => f

structure Of (f : Fate) (txn : UInt64) (L : Ledger) : Prop where
  outcome : f.outcome = outcome? L.records txn
  late : f.late = unresolved L.records txn
  live : ∀ k, L.desk = some k → k.phase? txn = if f.live then some .active else none

variable {f : Fate} {txn : UInt64} {L : Ledger} {k : Desk} {q : Request} {answer : Answer}

theorem after_of_failure (h : answer.isFailure = true) : f.after txn q answer = f := by
  unfold after
  exact if_pos h

/-- What the records tell of a transaction after a request at an open desk. -/
theorem records_after (ht : txn ≠ 0) (hk : L.desk = some k)
    (ho : f.outcome = outcome? L.records txn) (hl : f.late = unresolved L.records txn)
    (q : Request) (answer : Answer) :
    (f.after txn q answer).outcome = outcome? (L.records ++ L.added q answer) txn ∧
      (f.after txn q answer).late = unresolved (L.records ++ L.added q answer) txn := by
  unfold Ledger.added after
  rw [hk]
  cases hf : answer.isFailure with
  | true => simpa using ⟨ho, hl⟩
  | false =>
    simp only [Bool.false_eq_true, if_false]
    cases q with
    | write other key value =>
      simp only [Request.record?, Option.toList_some, outcome?_append, outcome?_singleton,
        unresolved_append]
      by_cases he : other = txn
      · simp [Record.opens, Record.decides, Record.write, he, ht, ho]
      · simp [Record.opens, Record.decides, Record.write, he, ho, hl]
    | commit other =>
      simp only [Request.record?, Option.toList_some, outcome?_append, outcome?_singleton,
        unresolved_append]
      by_cases he : other = txn
      · simp [Record.opens, Record.decides, Record.marker, he, settled]
      · simp [Record.opens, Record.decides, Record.marker, he, ho, hl]
    | abort other =>
      simp only [Request.record?, Option.toList_some, outcome?_append, outcome?_singleton,
        unresolved_append]
      by_cases he : other = txn
      · simp [Record.opens, Record.decides, Record.marker, he, settled]
      · simp [Record.opens, Record.decides, Record.marker, he, ho, hl]
    | checkpoint =>
      simp only [Request.record?, Option.toList_some, outcome?_append, outcome?_singleton,
        unresolved_append]
      simp [Record.opens, Record.decides, Record.marker, ho, hl]
    | begin =>
      simp only [Request.record?, Option.toList_none, List.append_nil]
      split <;> exact ⟨ho, hl⟩
    | start => simpa only [Request.record?, Option.toList_none, List.append_nil] using ⟨ho, hl⟩
    | sync | readAll | close =>
      simpa only [Request.record?, Option.toList_none, List.append_nil] using ⟨ho, hl⟩

/-- An opening makes a transaction live that wrote since its last outcome. -/
theorem live_after_start (txn : UInt64) (h : f.late = true) (ha : answer.isFailure = false) :
    (f.after txn .start answer).live = true := by
  simp [after, ha, h]

/-- A request asks for the outcome of a transaction, and settles it if that is granted. -/
theorem after_of_done {kind : Kind} (hq : q.outcomeOf txn = some kind) :
    f.after txn q .done = settled kind := by
  cases q with
  | commit other =>
    obtain ⟨he, rfl⟩ : other = txn ∧ Kind.txnCommit = kind := Request.outcomeOf_commit_eq_some.mp hq
    simp [after, Answer.isFailure, he]
  | abort other =>
    obtain ⟨he, rfl⟩ : other = txn ∧ Kind.txnRollback = kind :=
      Request.outcomeOf_abort_eq_some.mp hq
    simp [after, Answer.isFailure, he]
  | _ => cases hq

theorem onDesk_eq {α : Type} (hk : L.desk = some k) (reply : α → Answer)
    (op : Desk → Desk.Entry α) :
    L.onDesk reply op = (.of reply (op k).1, ⟨L.records ++ (op k).2.2, some (op k).2.1⟩) := by
  simp only [Ledger.onDesk, hk]

theorem serve_outcome (hk : L.desk = some k) {kind : Kind} (hq : q.outcomeOf txn = some kind) :
    ∃ k', (L.serve q).2.desk = some k' ∧
      ((k.phase? txn = some .active ∧ k.closed = false ∧ (L.serve q).1 = .done ∧
        k'.phase? txn = none) ∨
      (¬ (k.phase? txn = some .active ∧ k.closed = false) ∧ (L.serve q).1.isFailure = true ∧
        k'.phase? txn = k.phase? txn)) := by
  have hsettles {entry : Desk.Entry Unit} (h : k.Settles txn entry) :
      (k.phase? txn = some .active ∧ k.closed = false ∧ Answer.of (fun _ => .done) entry.1 = .done ∧
        entry.2.1.phase? txn = none) ∨
      (¬ (k.phase? txn = some .active ∧ k.closed = false) ∧
        (Answer.of (fun _ => .done) entry.1).isFailure = true ∧
        entry.2.1.phase? txn = k.phase? txn) := by
    rcases h with ⟨ha, hc, hok, hphase⟩ | ⟨hn, ⟨e, he⟩, hphase⟩
    · refine .inl ⟨ha, hc, by rw [hok]; rfl, ?_⟩
      rw [hphase, if_pos rfl]
    · exact .inr ⟨hn, by rw [he]; rfl, hphase txn⟩
  cases q with
  | commit other =>
    obtain ⟨rfl, -⟩ : other = txn ∧ Kind.txnCommit = kind := Request.outcomeOf_commit_eq_some.mp hq
    rw [Ledger.serve, Ledger.serveRefused, onDesk_eq hk]
    exact ⟨_, rfl, hsettles (k.settles_commit other)⟩
  | abort other =>
    obtain ⟨rfl, -⟩ : other = txn ∧ Kind.txnRollback = kind :=
      Request.outcomeOf_abort_eq_some.mp hq
    rw [Ledger.serve, Ledger.serveRefused, onDesk_eq hk]
    exact ⟨_, rfl, hsettles (k.settles_abort other)⟩
  | _ => cases hq

/-- Requests that neither begin a transaction nor ask for an outcome leave its phase alone. -/
theorem phase?_serve (hk : L.desk = some k) (hq : q ≠ .start) (hb : q ≠ .begin)
    (ho : q.outcomeOf txn = none) :
    ∃ k', (L.serve q).2.desk = some k' ∧ k'.phase? txn = k.phase? txn := by
  have hother {other : UInt64} {entry : Desk.Entry Unit} (he : other ≠ txn)
      (h : k.Settles other entry) : entry.2.1.phase? txn = k.phase? txn := by
    rcases h with ⟨-, -, -, hphase⟩ | ⟨-, -, hphase⟩
    · rw [hphase, if_neg he.symm]
    · exact hphase txn
  unfold Ledger.serve Ledger.serveRefused
  cases q with
  | start => exact absurd rfl hq
  | begin => exact absurd rfl hb
  | write other key value =>
    dsimp only
    rw [onDesk_eq hk]
    exact ⟨_, rfl, k.phase?_add none _ txn⟩
  | checkpoint =>
    dsimp only
    rw [onDesk_eq hk]
    exact ⟨_, rfl, k.phase?_add none _ txn⟩
  | commit other =>
    have he : other ≠ txn := Request.outcomeOf_commit_eq_none.mp ho
    dsimp only
    rw [onDesk_eq hk]
    exact ⟨_, rfl, hother he (k.settles_commit other)⟩
  | abort other =>
    have he : other ≠ txn := Request.outcomeOf_abort_eq_none.mp ho
    dsimp only
    rw [onDesk_eq hk]
    exact ⟨_, rfl, hother he (k.settles_abort other)⟩
  | sync =>
    dsimp only
    rw [onDesk_eq hk]
    refine ⟨_, rfl, ?_⟩
    cases hc : k.closed <;> simp [Desk.sync, hc]
  | readAll =>
    dsimp only
    rw [onDesk_eq hk]
    refine ⟨_, rfl, ?_⟩
    cases hc : k.closed <;> simp [Desk.readAll, hc]
  | close =>
    dsimp only
    rw [onDesk_eq hk]
    refine ⟨_, rfl, ?_⟩
    cases hc : k.closed <;> simp [Desk.close, hc, Desk.phase?]

/-- A transaction is live when its number was given out. -/
theorem phase?_begin (hk : L.desk = some k) (txn : UInt64) :
    ∃ k', (L.serve .begin).2.desk = some k' ∧
      k'.phase? txn = if (L.serve .begin).1 = .number txn then some .active else k.phase? txn := by
  rw [Ledger.serve, Ledger.serveRefused, onDesk_eq hk]
  refine ⟨_, rfl, ?_⟩
  unfold Desk.begin
  split
  · rfl
  · rw [Desk.phase?, Transactions.phase?_start]
    simp only [Answer.of, Answer.number.injEq]
    rfl

/-- Where no outcome is asked for and nothing opened or begun, a transaction lives as it did. -/
theorem live_after (hq : q ≠ .start) (hb : q ≠ .begin) (ho : q.outcomeOf txn = none) :
    (f.after txn q answer).live = f.live := by
  unfold after
  split
  · rfl
  · cases q with
    | start => exact absurd rfl hq
    | begin => exact absurd rfl hb
    | write other key value =>
      dsimp only
      split <;> rfl
    | commit other =>
      have he : other ≠ txn := Request.outcomeOf_commit_eq_none.mp ho
      simp only [he, if_false]
    | abort other =>
      have he : other ≠ txn := Request.outcomeOf_abort_eq_none.mp ho
      simp only [he, if_false]
    | _ => rfl

/-- The fate of a transaction follows the requests and answers. -/
theorem Of.serve (h : f.Of txn L) (ht : txn ≠ 0) (q : Request) :
    (f.after txn q (L.serve q).1).Of txn (L.serve q).2 := by
  by_cases hq : q = .start
  · subst hq
    refine ⟨h.outcome, h.late, ?_⟩
    rintro k ⟨⟩
    rw [Desk.phase?_ofRecords, ← h.late]
    rfl
  · cases hk : L.desk with
    | none =>
      rw [Ledger.serve_of_none hk hq, after_of_failure rfl]
      exact h
    | some k =>
      obtain ⟨houtcome, hlate⟩ :=
        records_after ht hk h.outcome h.late q (L.serve q).1
      rw [← Ledger.records_serve] at houtcome hlate
      refine ⟨houtcome, hlate, fun k' hk' => ?_⟩
      have hlive := h.live k hk
      by_cases hb : q = .begin
      · subst hb
        obtain ⟨k'', hk'', hphase⟩ := phase?_begin hk txn
        obtain rfl : k'' = k' := Option.some.inj (hk''.symm.trans hk')
        rw [hphase]
        by_cases hn : (L.serve .begin).1 = .number txn
        · rw [if_pos hn, hn]
          simp [after, Answer.isFailure]
        · have hsame : f.after txn .begin (L.serve .begin).1 = f := by
            simp [after, hn]
          rw [if_neg hn, hlive, hsame]
      · cases ho : q.outcomeOf txn with
        | none =>
          obtain ⟨k'', hk'', hphase⟩ := phase?_serve hk hq hb ho
          obtain rfl : k'' = k' := Option.some.inj (hk''.symm.trans hk')
          rw [hphase, hlive, live_after hq hb ho]
        | some kind =>
          obtain ⟨k'', hk'', ⟨-, -, hdone, hphase⟩ | ⟨-, hfailure, hphase⟩⟩ := serve_outcome hk ho
          · obtain rfl : k'' = k' := Option.some.inj (hk''.symm.trans hk')
            rw [hphase, hdone, after_of_done ho]
            rfl
          · obtain rfl : k'' = k' := Option.some.inj (hk''.symm.trans hk')
            rw [hphase, after_of_failure hfailure, hlive]

theorem of_settled {kind : Kind} (ht : txn ≠ 0) (hq : q.outcomeOf txn = some kind)
    (hdone : (L.serve q).1 = .done) : (settled kind).Of txn (L.serve q).2 := by
  cases hk : L.desk with
  | none =>
    rw [Ledger.serve_of_none hk (Request.ne_start_of_outcomeOf hq)] at hdone
    cases hdone
  | some k =>
    obtain ⟨houtcome, hlate⟩ := records_after
      (f := ⟨outcome? L.records txn, false, unresolved L.records txn⟩) ht hk rfl rfl q (L.serve q).1
    rw [← Ledger.records_serve, hdone, after_of_done hq] at houtcome hlate
    refine ⟨houtcome, hlate, fun k' hk' => ?_⟩
    obtain ⟨k'', hk'', ⟨-, -, -, hphase⟩ | ⟨-, hfailure, -⟩⟩ := serve_outcome hk hq
    · obtain rfl : k'' = k' := Option.some.inj (hk''.symm.trans hk')
      exact hphase
    · rw [hdone] at hfailure
      cases hfailure

/-- At any time an outcome is granted exactly to a live transaction of an open log. -/
theorem Of.done_iff (h : f.Of txn L) {kind : Kind} (hq : q.outcomeOf txn = some kind) :
    (L.serve q).1 = .done ↔ f.live = true ∧ ∃ k, L.desk = some k ∧ k.closed = false := by
  cases hk : L.desk with
  | none =>
    rw [Ledger.serve_of_none hk (Request.ne_start_of_outcomeOf hq)]
    simp
  | some k =>
    have hactive : k.phase? txn = some .active ↔ f.live = true := by
      rw [h.live k hk]
      cases f.live <;> simp
    obtain ⟨-, -, ⟨ha, hc, hdone, -⟩ | ⟨hn, hfailure, -⟩⟩ := serve_outcome hk hq
    · exact iff_of_true hdone ⟨hactive.mp ha, k, rfl, hc⟩
    · refine iff_of_false ?_ ?_
      · intro hdone
        rw [hdone] at hfailure
        cases hfailure
      · rintro ⟨hl, k', hk', hc⟩
        obtain rfl : k = k' := Option.some.inj hk'
        exact hn ⟨hactive.mpr hl, hc⟩

/-- Without its number given out, only what it writes and what is opened shows in the fate of a
transaction that is not live. -/
theorem Of.after_of_dead (h : f.Of txn L) (hd : f.live = false)
    (hb : q = .begin → (L.serve q).1 ≠ .number txn) :
    f.after txn q (L.serve q).1 = f ∨
    (q = .start ∧ f.after txn q (L.serve q).1 = { f with live := f.late }) ∨
    (∃ key value, q = .write txn key value ∧ (L.serve q).1.isFailure = false ∧
      f.after txn q (L.serve q).1 = { f with late := true }) := by
  cases hfail : (L.serve q).1.isFailure with
  | true => exact .inl (after_of_failure hfail)
  | false =>
    cases ho : q.outcomeOf txn with
    | some kind =>
      -- an outcome is not granted
      exfalso
      cases hk : L.desk with
      | none =>
        rw [Ledger.serve_of_none hk (Request.ne_start_of_outcomeOf ho)] at hfail
        cases hfail
      | some k =>
        have hphase := h.live k hk
        rw [hd] at hphase
        obtain ⟨-, -, ⟨ha, -, -, -⟩ | ⟨-, hfailure, -⟩⟩ := serve_outcome hk ho
        · rw [hphase] at ha
          cases ha
        · rw [hfail] at hfailure
          cases hfailure
    | none =>
      cases q with
      | start => exact .inr (.inl ⟨rfl, by simp [after, hfail]⟩)
      | begin => exact .inl (by simp [after, hb rfl])
      | write other key value =>
        by_cases he : other = txn
        · subst he
          exact .inr (.inr ⟨key, value, rfl, rfl, by simp [after, hfail]⟩)
        · exact .inl (by simp [after, he])
      | commit other =>
        have he : other ≠ txn := Request.outcomeOf_commit_eq_none.mp ho
        exact .inl (by simp [after, he])
      | abort other =>
        have he : other ≠ txn := Request.outcomeOf_abort_eq_none.mp ho
        exact .inl (by simp [after, he])
      | _ => exact .inl (by simp [after])

end Fate

namespace Session

variable {folder : String} {s : Session} {L : Ledger} {f : Fate} {txn : UInt64} {kind : Kind}

def fate (txn : UInt64) (s : Session) (f : Fate) : List Event → Fate
  | [] => f
  | .ask q :: rest => fate txn (s.step (.ask q)) (f.after txn q (s.serve q).1) rest
  | e :: rest => fate txn (s.step e) f rest

theorem Agrees.fate (h : Agrees folder s L) (hf : f.Of txn L) (ht : txn ≠ 0) {es : List Event}
    (hc : s.Along (Calm folder) es) : (s.fate txn f es).Of txn (L.run (requests es)) := by
  induction es generalizing s L f with
  | nil => exact hf
  | cons e es ih =>
    obtain ⟨he, hes⟩ := hc
    cases e with
    | ask q =>
      obtain ⟨hanswer, hnext⟩ := h.ask he
      refine ih hnext ?_ hes
      rw [hanswer]
      exact hf.serve ht q
    | configure settings => exact ih (h.step he (by simp)) hf hes
    | tick => exact ih (h.step he (by simp)) hf hes
    | disturb d => exact he.elim
    | crash => exact he.elim

/-- A transaction that has an outcome never loses it, but for another. -/
theorem outcome_fate (h : f.outcome = some .txnCommit ∨ f.outcome = some .txnRollback)
    (es : List Event) : (s.fate txn f es).outcome = some .txnCommit ∨
      (s.fate txn f es).outcome = some .txnRollback := by
  induction es generalizing s f with
  | nil => exact h
  | cons e es ih =>
    cases e with
    | ask q =>
      refine ih ?_
      unfold Fate.after
      split
      · exact h
      · split
        · exact h
        · split <;> exact h
        · split <;> exact h
        · split
          · exact .inl rfl
          · exact h
        · split
          · exact .inr rfl
          · exact h
        · exact h
        · exact h
        · exact h
        · exact h
    | _ => exact ih h

/-- A transaction is not revived by these events: its number is not given out, and no opening
follows what it writes. -/
def Unrevived (txn : UInt64) (s : Session) (es : List Event) : Prop :=
  (∀ before after, es = before ++ .ask .begin :: after →
    ((s.run before).serve .begin).1 ≠ .number txn) ∧
  ∀ key value before after, es = before ++ .ask (.write txn key value) :: after →
    ((s.run before).serve (.write txn key value)).1.isFailure = false → .ask .start ∉ after

theorem Unrevived.tail {e : Event} {es : List Event} (h : Unrevived txn s (e :: es)) :
    Unrevived txn (s.step e) es := by
  refine ⟨?_, ?_⟩
  · rintro before after rfl
    exact h.1 (e :: before) after rfl
  · rintro key value before after rfl
    exact h.2 key value (e :: before) after rfl

/-- The outcome of a transaction that is not revived stays as it is. -/
theorem Agrees.outcome_of_unrevived (h : Agrees folder s L) (hf : f.Of txn L) (ht : txn ≠ 0)
    {es : List Event} (hd : f.live = false) (hl : f.late = true → .ask .start ∉ es)
    (hu : Unrevived txn s es) (hc : s.Along (Calm folder) es) :
    (s.fate txn f es).outcome = f.outcome := by
  induction es generalizing s L f with
  | nil => rfl
  | cons e es ih =>
    have hlater : f.late = true → .ask .start ∉ es :=
      fun hlate hmem => hl hlate (List.mem_cons_of_mem _ hmem)
    obtain ⟨he, hes⟩ := hc
    cases e with
    | ask q =>
      obtain ⟨hanswer, hnext⟩ := h.ask he
      have hof := hf.serve ht q
      have hbegin : q = .begin → (L.serve q).1 ≠ .number txn := by
        rintro rfl
        rw [← hanswer]
        exact hu.1 [] es rfl
      rw [Session.fate, hanswer]
      rcases hf.after_of_dead hd hbegin with hsame | ⟨rfl, hopened⟩ | ⟨key, value, rfl, hgrant, hwrote⟩
      · rw [hsame] at hof ⊢
        exact ih hnext hof hd hlater hu.tail hes
      · -- it wrote nothing since its outcome, so the opening does not revive it
        have hlate : f.late = false := by
          cases hlate : f.late with
          | false => rfl
          | true => exact absurd List.mem_cons_self (hl hlate)
        rw [hopened] at hof ⊢
        exact ih hnext hof hlate hlater hu.tail hes
      · rw [← hanswer] at hgrant
        rw [hwrote] at hof ⊢
        exact ih hnext hof hd (fun _ => hu.2 key value [] es rfl hgrant) hu.tail hes
    | configure settings => exact ih (h.step he (by simp)) hf hd hlater hu.tail hes
    | tick => exact ih (h.step he (by simp)) hf hd hlater hu.tail hes
    | disturb d => exact he.elim
    | crash => exact he.elim

theorem fate_append (txn : UInt64) (s : Session) (f : Fate) (es fs : List Event) :
    s.fate txn f (es ++ fs) = (s.run es).fate txn (s.fate txn f es) fs := by
  induction es generalizing s f with
  | nil => rfl
  | cons e es ih => cases e <;> exact ih _ _

theorem late_fate {es : List Event} (h : f.late = true)
    (hes : ∀ q, .ask q ∈ es → q.outcomeOf txn = none) : (s.fate txn f es).late = true := by
  induction es generalizing s f with
  | nil => exact h
  | cons e es ih =>
    have hrest : ∀ q, .ask q ∈ es → q.outcomeOf txn = none :=
      fun q hq => hes q (List.mem_cons_of_mem _ hq)
    cases e with
    | ask q =>
      have ho := hes q List.mem_cons_self
      refine ih ?_ hrest
      cases q with
      | write other key value =>
        unfold Fate.after
        split
        · exact h
        · dsimp only
          split
          · rfl
          · exact h
      | begin =>
        unfold Fate.after
        split
        · exact h
        · dsimp only
          split <;> exact h
      | commit other =>
        have he : other ≠ txn := Request.outcomeOf_commit_eq_none.mp ho
        simpa [Fate.after, he] using h
      | abort other =>
        have he : other ≠ txn := Request.outcomeOf_abort_eq_none.mp ho
        simpa [Fate.after, he] using h
      | start =>
        unfold Fate.after
        split <;> exact h
      | _ => simpa [Fate.after] using h
    | _ => exact ih h hrest

/-- An opening revives a transaction that wrote since its last outcome. -/
theorem live_of_late {es fs : List Event} {key value : Octets}
    (hwrite : ((s.run es).serve (.write txn key value)).1.isFailure = false)
    (hfs : ∀ q, .ask q ∈ fs → q.outcomeOf txn = none)
    (hstart : ((s.run (es ++ .ask (.write txn key value) :: fs)).serve .start).1.isFailure = false) :
    (s.fate txn f (es ++ .ask (.write txn key value) :: (fs ++ [.ask .start]))).live = true := by
  have hlate : (Fate.after txn (s.fate txn f es) (.write txn key value)
      ((s.run es).serve (.write txn key value)).1).late = true := by
    simp [Fate.after, hwrite]
  have hkept := late_fate (s := (s.run es).step (.ask (.write txn key value))) hlate hfs
  rw [run_append, run_cons] at hstart
  rw [fate_append, Session.fate, fate_append]
  exact Fate.live_after_start txn hkept hstart

/-- How final an outcome is. What a transaction wrote before an outcome is read as that outcome says
exactly as long as its last outcome is the same. Another one is granted exactly while the
transaction is live, and it stays as it is as long as the transaction is not revived; an opening
after a late write revives it. -/
theorem outcome_final {d : Disk} {vs : List Volume} {settings : Settings}
    {before later : List Event} {q : Request} (h : d.Holds folder vs) (hi : Intact vs)
    (hv : settings.validate = .ok ()) (hf : settings.folder = folder) (ht : txn ≠ 0)
    (hq : q.outcomeOf txn = some kind)
    (hc : Along (Calm folder) { disk := d, settings } (before ++ .ask q :: later))
    (hdone : ((run { disk := d, settings } before).serve q).1 = .done) :
    let first := run { disk := d, settings } before
    let next := first.step (.ask q)
    let last := next.run later
    let fate := next.fate txn (.settled kind) later
    (∀ rs, Calm folder last (.ask .readAll) → (last.serve .readAll).1 = .records rs →
      ∀ r ∈ first.contents folder, r.kind = .write → r.txn = txn →
        ((r ∈ rs ↔ kind = .txnCommit) ↔ fate.outcome = some kind)) ∧
    (∀ p kind', p.outcomeOf txn = some kind' → Calm folder last (.ask p) →
      ((last.serve p).1 = .done ↔
        fate.live = true ∧ ∃ l, last.log = some l ∧ l.closed = false)) ∧
    (Unrevived txn next later → fate.outcome = some kind) ∧
    (∀ es key value fs,
      later = es ++ .ask (.write txn key value) :: (fs ++ [.ask .start]) →
      ((next.run es).serve (.write txn key value)).1.isFailure = false →
      (∀ p, .ask p ∈ fs → p.outcomeOf txn = none) → fate.live = true) := by
  intro first next last fate
  let L : Ledger := Ledger.run { records := recordsIn vs } (requests before)
  have hempty : Agrees folder { disk := d, settings } { records := recordsIn vs } :=
    ⟨hv, hf, rfl, recordsIn vs, [], .shut rfl h hi, (List.append_nil _).symm, fun _ hl => by cases hl⟩
  obtain ⟨hbefore, hask, hlater⟩ := along_append.mp hc
  have hfirst : Agrees folder first L := (hempty.run hbefore).2
  obtain ⟨hanswer, hnext⟩ := hfirst.ask hask
  have hsettled : (Fate.settled kind).Of txn (L.serve q).2 :=
    Fate.of_settled ht hq (hanswer.symm.trans hdone)
  have hlast : Agrees folder last ((L.serve q).2.run (requests later)) := (hnext.run hlater).2
  have hfate : fate.Of txn ((L.serve q).2.run (requests later)) := hnext.fate hsettled ht hlater
  refine ⟨?_, ?_, ?_, ?_⟩
  · intro rs hread hrs r hr hwrite htxn
    -- what was logged before is still in the list, and shown by the last outcome
    have hmem : r ∈ rs ↔ fate.outcome = some .txnCommit := by
      have hgrown := hnext.gains hlater
      rw [Ledger.records_serve] at hgrown
      rw [hfirst.contents] at hr
      rw [(hlast.ask hread).1] at hrs
      rw [records_of_readAll hrs, List.mem_filter, hfate.outcome]
      simp only [shown, hwrite, htxn, ht, false_or, decide_eq_true_eq, and_iff_right_iff_imp]
      intro _
      rw [hgrown]
      simp [hr]
    have hkind : fate.outcome = some .txnCommit ∨ fate.outcome = some .txnRollback := by
      refine outcome_fate ?_ later
      rcases Request.kind_of_outcomeOf hq with rfl | rfl
      · exact .inl rfl
      · exact .inr rfl
    rw [hmem]
    rcases Request.kind_of_outcomeOf hq with rfl | rfl <;> rcases hkind with hk | hk <;> simp [hk]
  · intro p kind' hp hcalm
    have hopen : (∃ k, ((L.serve q).2.run (requests later)).desk = some k ∧ k.closed = false) ↔
        ∃ l, last.log = some l ∧ l.closed = false := by
      rw [hlast.desk]
      cases last.log with
      | none => simp
      | some l => simp [Log.desk]
    rw [(hlast.ask hcalm).1, hfate.done_iff hp, hopen]
  · exact fun hu => hnext.outcome_of_unrevived hsettled ht rfl (fun hl => by cases hl) hu hlater
  · rintro es key value fs rfl hwrite hfs
    refine live_of_late hwrite hfs ?_
    have hsplit : es ++ .ask (.write txn key value) :: (fs ++ [.ask .start]) =
        (es ++ .ask (.write txn key value) :: fs) ++ [.ask .start] := by simp
    rw [hsplit] at hlater
    obtain ⟨huntil, hstart, -⟩ := along_append.mp hlater
    have hanswer' := ((hnext.run huntil).2.ask hstart).1
    exact congrArg Answer.isFailure hanswer'

/-! ## An aborted transaction comes back -/

/-- A folder without segments. -/
def emptyFolder : Disk where
  nodes := [(Location.top.enter "wal", .folder)]

def wrote : List Event := [.ask .start, .ask .begin, .ask (.write 1 [107] [118])]

/-- It writes once more, and the log is closed and opened. -/
def wroteLate : List Event := [.ask (.write 1 [120] []), .ask .close, .ask .start]

theorem holds_emptyFolder : emptyFolder.Holds "wal" [] := by
  have hsound : emptyFolder.Sound :=
    ⟨by decide +kernel, by decide +kernel, by decide +kernel, by decide +kernel⟩
  have hvolumes : emptyFolder.volumes "wal" = [] := by decide +kernel
  rw [← hvolumes]
  exact Disk.holds_volumes hsound (fun _ => Refusals.tidy_none) (by decide)
    ⟨Location.top.enter "wal", by decide +kernel⟩ (by decide +kernel)

theorem outcome_final_wroteLate :
    let s : Session := { disk := emptyFolder, settings := .ofFolder "wal" }
    let last := ((s.run wrote).step (.ask (.abort 1))).run wroteLate
    (emptyFolder.Holds "wal" [] ∧ Intact [] ∧ (Settings.ofFolder "wal").validate = .ok () ∧
      (Settings.ofFolder "wal").folder = "wal" ∧ (1 : UInt64) ≠ 0 ∧
      (Request.abort 1).outcomeOf 1 = some .txnRollback ∧
      s.Along (Calm "wal") (wrote ++ .ask (.abort 1) :: wroteLate) ∧
      ((s.run wrote).serve (.abort 1)).1 = .done) ∧
    (last.serve (.commit 1)).1 = .done := by
  intro s last
  have hc : s.Along (Calm "wal") (wrote ++ .ask (.abort 1) :: wroteLate) := by decide +kernel
  have hdone : ((s.run wrote).serve (.abort 1)).1 = .done := by decide +kernel
  refine ⟨⟨holds_emptyFolder, intact_nil, rfl, rfl, by decide, rfl, hc, hdone⟩, ?_⟩
  obtain ⟨-, hagain, -, hlive⟩ := outcome_final holds_emptyFolder intact_nil rfl rfl
    (show (1 : UInt64) ≠ 0 by decide) (show (Request.abort 1).outcomeOf 1 = some .txnRollback from rfl)
    hc hdone
  refine (hagain (.commit 1) .txnCommit rfl (by decide +kernel)).mpr ⟨?_, ?_⟩
  · exact hlive [] [120] [] [.ask .close] rfl (by decide +kernel) (by simp [Request.outcomeOf])
  · have hopen : last.log.any (fun l => l.closed = false) = true := by decide +kernel
    cases hl : last.log with
    | none => simp [hl] at hopen
    | some l => exact ⟨l, rfl, by simpa [hl] using hopen⟩

/-- A transaction writes and is aborted; after a late write and an opening it is committed, and what
it wrote before the abort is read. -/
theorem aborted_comes_back :
    let s : Session := { disk := emptyFolder, settings := .ofFolder "wal" }
    let last := ((s.run wrote).step (.ask (.abort 1))).run (wroteLate ++ [.ask (.commit 1)])
    s.Along (Calm "wal")
      (wrote ++ .ask (.abort 1) :: (wroteLate ++ [.ask (.commit 1), .ask .readAll])) ∧
    s.gains wrote = [Record.write 1 1 [107] [118]] ∧
    ((s.run wrote).serve (.abort 1)).1 = .done ∧
    (last.serve .readAll).1 = .records [Record.write 1 1 [107] [118], Record.write 3 1 [120] []] := by
  decide +kernel

end Session

end SegmentLog
