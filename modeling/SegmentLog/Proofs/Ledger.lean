import SegmentLog.Proofs.Outcomes
import SegmentLog.Proofs.Session

/-!
The log as readers and writers think of it: one list of records, and at a desk that is open what is
kept in memory. A ledger knows no segments, no buffer, no settings and no clock. Where a disk can
refuse a record, the refusal is an input of the operation.

Every request adds at most one record, and one exactly when it is an append that is granted
(`Ledger.records_serve`).
-/

namespace SegmentLog

/-- What an open log keeps in memory of its records. -/
structure Desk where
  lastSequence : UInt64
  transactions : Transactions
  closed : Bool := false
  deriving DecidableEq, Repr

namespace Desk

/-- The desk after a replay of these records. -/
def ofRecords (records : List Record) : Desk where
  lastSequence := (Replay.ofRecords records).lastSequence
  transactions := Transactions.ofActive ((Replay.ofRecords records).lastTxn + 1)
    (Replay.ofRecords records).active

/-- The answer to a request, the desk after it, and the records that it added. -/
abbrev Entry (α : Type) := Except Error α × Desk × List Record

/-- Adds a record, unless it is too long or the disk refuses it. -/
def add (k : Desk) (refusal : Option Error) (r : Record) : Entry UInt64 :=
  if k.closed then (.error .closed, k, [])
  else
    match r.encode, refusal with
    | .error e, _ => (.error e, k, [])
    | .ok _, some e => (.error e, k, [])
    | .ok _, none => (.ok r.sequence, { k with lastSequence := r.sequence }, [r])

def write (k : Desk) (refusal : Option Error) (txn : UInt64) (key value : Octets) : Entry UInt64 :=
  k.add refusal (Record.write (k.lastSequence + 1) txn key value)

def checkpoint (k : Desk) (refusal : Option Error) : Entry UInt64 :=
  k.add refusal (Record.marker .checkpoint (k.lastSequence + 1) 0)

def begin (k : Desk) : Entry UInt64 :=
  if k.closed then (.error .closed, k, [])
  else (.ok k.transactions.start.1, { k with transactions := k.transactions.start.2 }, [])

/-- Adds the marker of an outcome. The table is another one meanwhile, and changes once more when
the marker is refused or granted. -/
def addOutcome (k : Desk) (refusal : Option Error) (ts : Transactions)
    (refused granted : Transactions → Transactions) (r : Record) : Entry Unit :=
  match { k with transactions := ts }.add refusal r with
  | (.error e, k, rs) => (.error e, { k with transactions := refused k.transactions }, rs)
  | (.ok _, k, rs) => (.ok (), { k with transactions := granted k.transactions }, rs)

def commit (k : Desk) (refusal : Option Error) (txn : UInt64) : Entry Unit :=
  match k.transactions.startCommit txn with
  | .error e => (.error e, k, [])
  | .ok ts =>
    k.addOutcome refusal ts (·.revertCommit txn) (·.finishCommit txn)
      (Record.marker .txnCommit (k.lastSequence + 1) txn)

def abort (k : Desk) (refusal : Option Error) (txn : UInt64) : Entry Unit :=
  match k.transactions.takeForAbort txn with
  | .error e => (.error e, k, [])
  | .ok (t, ts) =>
    k.addOutcome refusal ts (·.restore t) (fun ts => ts)
      (Record.marker .txnRollback (k.lastSequence + 1) txn)

def sync (k : Desk) (refusal : Option Error) : Entry Unit :=
  match k.closed, refusal with
  | true, _ => (.error .closed, k, [])
  | false, some e => (.error e, k, [])
  | false, none => (.ok (), k, [])

/-- Everything that is shown of these records. -/
def readAll (k : Desk) (refusal : Option Error) (log : List Record) : Entry (List Record) :=
  match k.closed, refusal with
  | true, _ => (.error .closed, k, [])
  | false, some e => (.error e, k, [])
  | false, none => (.ok (log.filter (shown log)), k, [])

def close (k : Desk) (refusal : Option Error) : Entry Unit :=
  match k.closed, refusal with
  | true, _ => (.ok (), k, [])
  | false, some e => (.error e, { k with closed := true }, [])
  | false, none => (.ok (), { k with closed := true }, [])

end Desk

structure Ledger where
  records : List Record
  desk : Option Desk := none
  deriving DecidableEq, Repr

namespace Ledger

/-- Works at the open desk. -/
def onDesk {α : Type} (l : Ledger) (reply : α → Answer) (op : Desk → Desk.Entry α) :
    Answer × Ledger :=
  match l.desk with
  | none => (.absent, l)
  | some k =>
    match op k with
    | (answer, k, rs) => (.of reply answer, ⟨l.records ++ rs, some k⟩)

/-- Serves a request, which the disk may refuse. -/
def serveRefused (refusal : Option Error) (l : Ledger) : Request → Answer × Ledger
  | .start =>
    (.opened (Replay.ofRecords l.records), { l with desk := some (Desk.ofRecords l.records) })
  | .begin => l.onDesk .number fun k => k.begin
  | .write txn key value => l.onDesk .number fun k => k.write refusal txn key value
  | .commit txn => l.onDesk (fun _ => .done) fun k => k.commit refusal txn
  | .abort txn => l.onDesk (fun _ => .done) fun k => k.abort refusal txn
  | .checkpoint => l.onDesk .number fun k => k.checkpoint refusal
  | .sync => l.onDesk (fun _ => .done) fun k => k.sync refusal
  | .readAll => l.onDesk .records fun k => k.readAll refusal l.records
  | .close => l.onDesk (fun _ => .done) fun k => k.close refusal

/-- Serves a request on a disk that refuses nothing. -/
def serve (l : Ledger) (q : Request) : Answer × Ledger := l.serveRefused none q

def run (l : Ledger) (qs : List Request) : Ledger := qs.foldl (fun l q => (l.serve q).2) l

def answers (l : Ledger) : List Request → List Answer
  | [] => []
  | q :: rest => (l.serve q).1 :: answers (l.serve q).2 rest

@[simp] theorem run_nil (l : Ledger) : l.run [] = l := rfl

@[simp] theorem run_cons (l : Ledger) (q : Request) (qs : List Request) :
    l.run (q :: qs) = (l.serve q).2.run qs := rfl

end Ledger

namespace Request

/-- The record that a request asks to add, with the sequence number it gets. -/
def record? (sequence : UInt64) : Request → Option Record
  | write txn key value => some (Record.write sequence txn key value)
  | commit txn => some (Record.marker .txnCommit sequence txn)
  | abort txn => some (Record.marker .txnRollback sequence txn)
  | checkpoint => some (Record.marker .checkpoint sequence 0)
  | start | begin | sync | readAll | close => none

end Request

/-! ## What a request adds -/

namespace Desk

variable {k : Desk} {refusal : Option Error} {r : Record}

theorem add_of_closed (hc : k.closed = true) : k.add refusal r = (.error .closed, k, []) := by
  unfold add
  rw [if_pos hc]

section Open

variable (hc : k.closed = false)
include hc

theorem add_of_encode {e : Error} (he : r.encode = .error e) :
    k.add refusal r = (.error e, k, []) := by
  unfold add
  rw [if_neg (by simp [hc])]
  simp only [he]

theorem add_of_refusal {bs : Octets} (he : r.encode = .ok bs) (e : Error) :
    k.add (some e) r = (.error e, k, []) := by
  unfold add
  rw [if_neg (by simp [hc])]
  simp only [he]

theorem add_of_grant {bs : Octets} (he : r.encode = .ok bs) :
    k.add none r = (.ok r.sequence, { k with lastSequence := r.sequence }, [r]) := by
  unfold add
  rw [if_neg (by simp [hc])]
  simp only [he]

end Open

theorem add_eq (k : Desk) (refusal : Option Error) (r : Record) :
    (∃ e, k.add refusal r = (.error e, k, [])) ∨
    k.add refusal r = (.ok r.sequence, { k with lastSequence := r.sequence }, [r]) := by
  unfold add
  split
  · exact .inl ⟨_, rfl⟩
  · split
    · exact .inl ⟨_, rfl⟩
    · exact .inl ⟨_, rfl⟩
    · exact .inr rfl

/-- What is entered for a request: the record it asks for if it is granted, otherwise none, and none
at a closed desk. Only a closing closes a desk, and nothing is refused but what the disk refuses. -/
structure Books {α : Type} (k : Desk) (refusal : Option Error) (q : Request) (entry : Entry α) :
    Prop where
  records : entry.2.2 = if entry.1.isOk then (q.record? (k.lastSequence + 1)).toList else []
  closed : q ≠ .close → entry.2.1.closed = k.closed
  shut : k.closed = true → entry.2.2 = []
  refused : ∀ e, entry.1 = .error e → e.isIo = true → refusal = some e

variable {q : Request}

/-- A request that fails and changes nothing. -/
theorem books_failed {α : Type} {e : Error} (he : e.isIo = true → refusal = some e) :
    k.Books refusal q ((.error e : Except Error α), k, []) := by
  refine ⟨rfl, fun _ => rfl, fun _ => rfl, ?_⟩
  rintro _ ⟨⟩
  exact he

/-- A granted request that adds nothing. -/
theorem books_nothing {α : Type} {x : α} {k' : Desk}
    (hq : q.record? (k.lastSequence + 1) = none) (hc : q ≠ .close → k'.closed = k.closed) :
    k.Books refusal q ((.ok x : Except Error α), k', []) :=
  ⟨by simp [hq], hc, fun _ => rfl, fun _ he => by cases he⟩

theorem isIo_of_encode {r : Record} {e : Error} (h : r.encode = .error e) : e.isIo = false := by
  unfold Record.encode at h
  split at h
  · cases h
    rfl
  · split at h
    · cases h
      rfl
    · cases h

theorem books_add (hq : q.record? (k.lastSequence + 1) = some r) :
    k.Books refusal q (k.add refusal r) := by
  cases hc : k.closed with
  | true =>
    rw [add_of_closed hc]
    exact books_failed nofun
  | false =>
    cases he : r.encode with
    | error e =>
      rw [add_of_encode hc he]
      exact books_failed fun hio => absurd (hio.symm.trans (isIo_of_encode he)) (by simp)
    | ok bs =>
      cases refusal with
      | some e =>
        rw [add_of_refusal hc he]
        exact books_failed fun _ => rfl
      | none =>
        rw [add_of_grant hc he]
        refine ⟨by simp [hq, Except.isOk, Except.toBool], fun _ => rfl, fun ht => ?_,
          fun _ he => by cases he⟩
        rw [hc] at ht
        cases ht

theorem books_addOutcome {ts : Transactions} {refused granted : Transactions → Transactions}
    (hq : q.record? (k.lastSequence + 1) = some r) :
    k.Books refusal q (k.addOutcome refusal ts refused granted r) := by
  have hadd : { k with transactions := ts }.Books refusal q
      ({ k with transactions := ts }.add refusal r) := books_add hq
  rcases h : { k with transactions := ts }.add refusal r with ⟨answer, k', rs⟩
  rw [h] at hadd
  simp only [addOutcome, h]
  cases answer with
  | error e => exact ⟨hadd.records, hadd.closed, hadd.shut, fun e' he => hadd.refused e' (by cases he; rfl)⟩
  | ok n => exact ⟨hadd.records, hadd.closed, hadd.shut, fun _ he => by cases he⟩

theorem books_begin (k : Desk) (refusal : Option Error) : k.Books refusal .begin k.begin := by
  unfold Desk.begin
  split
  · exact books_failed nofun
  · exact books_nothing rfl fun _ => rfl

theorem books_commit (k : Desk) (refusal : Option Error) (txn : UInt64) :
    k.Books refusal (.commit txn) (k.commit refusal txn) := by
  unfold Desk.commit
  split
  · rename_i e hs
    refine books_failed fun hio => ?_
    rw [Transactions.startCommit] at hs
    split at hs <;> cases hs
    cases hio
  · exact books_addOutcome rfl

theorem books_abort (k : Desk) (refusal : Option Error) (txn : UInt64) :
    k.Books refusal (.abort txn) (k.abort refusal txn) := by
  unfold Desk.abort
  split
  · rename_i e hs
    refine books_failed fun hio => ?_
    rw [Transactions.takeForAbort] at hs
    split at hs <;> cases hs
    cases hio
  · exact books_addOutcome rfl

theorem books_sync (k : Desk) (refusal : Option Error) :
    k.Books refusal .sync (k.sync refusal) := by
  unfold Desk.sync
  split
  · exact books_failed nofun
  · exact books_failed fun _ => rfl
  · exact books_nothing rfl fun _ => rfl

theorem books_readAll (k : Desk) (refusal : Option Error) (log : List Record) :
    k.Books refusal .readAll (k.readAll refusal log) := by
  unfold Desk.readAll
  split
  · exact books_failed nofun
  · exact books_failed fun _ => rfl
  · exact books_nothing rfl fun _ => rfl

theorem books_close (k : Desk) (refusal : Option Error) :
    k.Books refusal .close (k.close refusal) := by
  unfold Desk.close
  split
  · exact books_nothing rfl fun hq => absurd rfl hq
  · refine ⟨rfl, fun hq => absurd rfl hq, fun _ => rfl, ?_⟩
    rintro _ ⟨⟩
    exact fun _ => rfl
  · exact books_nothing rfl fun hq => absurd rfl hq

end Desk

namespace Ledger

/-- The records that a request adds: the one it asks for if it is granted, otherwise none. -/
def added (l : Ledger) (q : Request) (answer : Answer) : List Record :=
  match l.desk with
  | none => []
  | some k => if answer.isFailure then [] else (q.record? (k.lastSequence + 1)).toList

/-- A request at an open desk adds what it asks for, and keeps a closed desk as it is. -/
structure Books (l : Ledger) (k : Desk) (refusal : Option Error) (q : Request)
    (result : Answer × Ledger) : Prop where
  records : result.2.records = l.records ++ l.added q result.1
  closed : q ≠ .close → ∀ k', result.2.desk = some k' → k'.closed = k.closed
  shut : k.closed = true → result.2.records = l.records
  refused : refusal = none → result.1.isRefused = false

theorem books_onDesk {α : Type} {l : Ledger} {k : Desk} (hk : l.desk = some k) {q : Request}
    {refusal : Option Error} (reply : α → Answer) (op : Desk → Desk.Entry α)
    (hreply : ∀ x, (reply x).isFailure = false) (hop : k.Books refusal q (op k)) :
    l.Books k refusal q (l.onDesk reply op) := by
  unfold onDesk
  rcases h : op k with ⟨answer, k', rs⟩
  rw [h] at hop
  simp only [hk, h]
  refine ⟨?_, ?_, ?_, ?_⟩
  · have hrecords := hop.records
    simp only at hrecords
    rw [hrecords, added, hk]
    cases answer with
    | error e => rfl
    | ok x =>
      simp only [Answer.of, hreply x]
      rfl
  · rintro hc k'' ⟨⟩
    exact hop.closed hc
  · intro hc
    rw [show rs = [] from hop.shut hc, List.append_nil]
  · rintro rfl
    cases answer with
    | error e =>
      cases hio : e.isIo with
      | false => exact hio
      | true => cases hop.refused e rfl hio
    | ok x =>
      have hx := hreply x
      cases hr : reply x with
      | failed e => rw [hr] at hx; cases hx
      | _ => simp only [Answer.of, hr, Answer.isRefused]

theorem books_serveRefused {l : Ledger} {k : Desk} (hk : l.desk = some k)
    (refusal : Option Error) {q : Request} (hq : q ≠ .start) :
    l.Books k refusal q (l.serveRefused refusal q) := by
  cases q with
  | start => exact absurd rfl hq
  | begin =>
    exact books_onDesk hk .number (fun k => k.begin) (fun _ => rfl)
      (k.books_begin refusal)
  | write txn key value =>
    exact books_onDesk hk .number (fun k => k.write refusal txn key value) (fun _ => rfl)
      (Desk.books_add rfl)
  | commit txn =>
    exact books_onDesk hk (fun _ => .done) (fun k => k.commit refusal txn) (fun _ => rfl)
      (k.books_commit refusal txn)
  | abort txn =>
    exact books_onDesk hk (fun _ => .done) (fun k => k.abort refusal txn) (fun _ => rfl)
      (k.books_abort refusal txn)
  | checkpoint =>
    exact books_onDesk hk .number (fun k => k.checkpoint refusal) (fun _ => rfl)
      (Desk.books_add rfl)
  | sync =>
    exact books_onDesk hk (fun _ => .done) (fun k => k.sync refusal) (fun _ => rfl)
      (k.books_sync refusal)
  | readAll =>
    exact books_onDesk hk .records (fun k => k.readAll refusal l.records) (fun _ => rfl)
      (k.books_readAll refusal l.records)
  | close =>
    exact books_onDesk hk (fun _ => .done) (fun k => k.close refusal) (fun _ => rfl)
      (k.books_close refusal)

theorem serveRefused_of_none {l : Ledger} (hk : l.desk = none) (refusal : Option Error)
    {q : Request} (hq : q ≠ .start) : l.serveRefused refusal q = (.absent, l) := by
  cases q with
  | start => exact absurd rfl hq
  | _ => simp only [serveRefused, onDesk, hk]

theorem serve_of_none {l : Ledger} (hk : l.desk = none) {q : Request} (hq : q ≠ .start) :
    l.serve q = (.absent, l) := serveRefused_of_none hk none hq

/-- A desk that is open stays open to requests, closed or not. -/
theorem isSome_desk_serve {l : Ledger} (h : l.desk.isSome) (q : Request) :
    (l.serve q).2.desk.isSome := by
  have hdesk {α : Type} (reply : α → Answer) (op : Desk → Desk.Entry α) :
      (l.onDesk reply op).2.desk.isSome := by
    obtain ⟨k, hk⟩ := Option.isSome_iff_exists.mp h
    simp only [onDesk, hk, Option.isSome_some]
  cases q with
  | start => rfl
  | _ => exact hdesk _ _

theorem isSome_desk_run {l : Ledger} (h : l.desk.isSome) (qs : List Request) :
    (l.run qs).desk.isSome := by
  induction qs generalizing l with
  | nil => exact h
  | cons q qs ih => exact ih (isSome_desk_serve h q)

theorem serve_close {l : Ledger} {k : Desk} (hk : l.desk = some k) :
    l.serve .close = (.done, ⟨l.records, some { k with closed := true }⟩) := by
  obtain ⟨last, ts, closed⟩ := k
  cases closed <;>
    simp only [serve, serveRefused, onDesk, hk, Desk.close, List.append_nil] <;>
    rfl

theorem serve_readAll {l : Ledger} {k : Desk} (hk : l.desk = some k) (hc : k.closed = false) :
    l.serve .readAll = (.records (l.records.filter (shown l.records)), l) := by
  obtain ⟨records, desk⟩ := l
  obtain rfl : desk = some k := hk
  simp only [serve, serveRefused, onDesk, Desk.readAll, hc, List.append_nil]
  rfl

/-- A request adds the record it asks for when it is granted, and none otherwise. -/
theorem records_serve (l : Ledger) (q : Request) :
    (l.serve q).2.records = l.records ++ l.added q (l.serve q).1 := by
  cases hk : l.desk with
  | none =>
    by_cases hq : q = .start
    · subst hq
      simp [serve, serveRefused, added, hk]
    · rw [serve_of_none hk hq]
      simp [added, hk]
  | some k =>
    by_cases hq : q = .start
    · subst hq
      simp [serve, serveRefused, added, hk, Request.record?, Answer.isFailure]
    · exact (books_serveRefused hk none hq).records

/-- Nothing is refused by the disk where the disk refuses nothing. -/
theorem isRefused_serve (l : Ledger) (q : Request) : (l.serve q).1.isRefused = false := by
  by_cases hq : q = .start
  · subst hq
    rfl
  · cases hk : l.desk with
    | none => rw [serve_of_none hk hq]; rfl
    | some k => exact (books_serveRefused hk none hq).refused rfl

end Ledger

end SegmentLog
