import SegmentLog.Proofs.Freshness

/-!
Discipline of the table of live transactions, from one opening of the log on. The table depends on the
disk for the answers alone, so everything here holds whatever the disk does: what a request makes of
the table is told by the request and its answer (`Transactions.Steps`). Each such step keeps the table
in order (`Transactions.Disciplined`), moves the next number up if at all, and uses up the one outcome
that a transaction may have (`Transactions.Leads`); so does a whole run (`Session.leads_run`), by
induction on its events.

The main statement collects what callers rely on (`Session.table_disciplined`).
-/

namespace SegmentLog

/-! ## Errors of an append -/

namespace Appender

variable {a : Appender} {d : Disk} {e : Error}

theorem isIo_of_openSegment {folder : String} {s : Segment}
    (h : openSegment d folder s = .error e) : e.isIo = true := by
  unfold openSegment at h
  split at h
  · cases h
    rfl
  · cases h

theorem isIo_of_writeOut {n : Node} (h : (a.writeOut d n).1 = .error e) : e.isIo = true := by
  unfold Appender.writeOut at h
  split at h
  · cases h
    rfl
  · split at h
    · cases h
      rfl
    · cases h

theorem isIo_of_reopen (h : (a.reopen d).1 = .error e) : e.isIo = true := by
  unfold Appender.reopen at h
  split at h
  · rename_i hopen
    cases h
    exact isIo_of_openSegment hopen
  · split at h
    · cases h
      rfl
    · cases h

theorem isIo_of_flush (h : (a.flush d).1 = .error e) : e.isIo = true := by
  unfold Appender.flush at h
  split at h
  · cases h
  · split at h
    · exact isIo_of_writeOut h
    · split at h
      · rename_i hreopen
        cases h
        exact isIo_of_reopen (congrArg Prod.fst hreopen)
      · exact isIo_of_writeOut h

theorem isIo_of_makeRoom {length : Nat} (h : (a.makeRoom d length).1 = .error e) :
    e.isIo = true := by
  unfold Appender.makeRoom Appender.rotate at h
  split at h
  · split at h
    · rename_i hflush
      cases h
      exact isIo_of_flush (congrArg Prod.fst hflush)
    · dsimp only at h
      split at h
      · rename_i hopen
        cases h
        exact isIo_of_openSegment hopen
      · cases h
  · cases h

theorem isIo_of_enqueue {bs : Octets} {force : Bool} (h : (a.enqueue d bs force).1 = .error e) :
    e.isIo = true := by
  unfold Appender.enqueue at h
  dsimp only at h
  split at h
  · split at h
    · cases h
    · rename_i hflush
      cases h
      exact isIo_of_flush (congrArg Prod.fst hflush)
  · cases h

/-- An append fails because the record cannot be encoded, the appender is closed or the disk
refuses. -/
theorem error_of_append {r : Record} {force : Bool} (h : (a.append d r force).1 = .error e) :
    r.encode = .error e ∨ e = .closed ∨ e.isIo = true := by
  unfold Appender.append at h
  split at h
  · rename_i hencode
    cases h
    exact .inl hencode
  · split at h
    · cases h
      exact .inr (.inl rfl)
    · split at h
      · rename_i hroom
        cases h
        exact .inr (.inr (isIo_of_makeRoom (congrArg Prod.fst hroom)))
      · split at h
        · rename_i hbuffer
          cases h
          exact .inr (.inr (isIo_of_enqueue (congrArg Prod.fst hbuffer)))
        · cases h

end Appender

/-! ## What a request makes of the table -/

namespace Transactions

/-- What a request, as it was answered, makes of the table. -/
inductive Steps (ts : Transactions) : Request → Answer → Transactions → Prop
  | begins : Steps ts .begin (.number ts.nextId) ts.start.2
  /-- An outcome is granted to a live transaction. -/
  | granted {q : Request} {txn : UInt64} {kind : Kind} (hq : q.outcomeOf txn = some kind)
    (ha : ts.phase? txn = some .active) : Steps ts q .done (ts.erase txn)
  /-- The marker of the outcome cannot be written. -/
  | refused {q : Request} {txn : UInt64} {kind : Kind} {e : Error}
    (hq : q.outcomeOf txn = some kind) (ha : ts.phase? txn = some .active)
    (he : e ≠ .notActive txn) : Steps ts q (.failed e) ts
  | inactive {q : Request} {txn : UInt64} {kind : Kind} (hq : q.outcomeOf txn = some kind)
    (ha : ts.phase? txn ≠ some .active) : Steps ts q (.failed (.notActive txn)) ts
  /-- Nothing was begun, and no outcome was asked for. -/
  | same {q : Request} {answer : Answer} (hq : ∀ txn, q.outcomeOf txn = none)
    (hb : q = .begin → answer.isFailure = true) : Steps ts q answer ts

end Transactions

namespace Log

variable {l : Log} {d : Disk} {txn : UInt64} {kind : Kind} {q : Request} {r : Record} {force : Bool}

/-- Adding a record touches no transaction, and never fails for one that is not active. -/
theorem add_spec (l : Log) (d : Disk) (r : Record) (force : Bool) :
    (l.add d r force).2.1.transactions = l.transactions ∧
      ∀ e, (l.add d r force).1 = .error e → ∀ txn, e ≠ .notActive txn := by
  unfold Log.add
  split
  · refine ⟨rfl, ?_⟩
    rintro _ ⟨⟩ txn
    nofun
  · rcases h : l.appender.append d r force with ⟨answer, a, d'⟩
    cases answer with
    | ok n => exact ⟨rfl, nofun⟩
    | error e =>
      refine ⟨rfl, ?_⟩
      rintro _ ⟨⟩ txn rfl
      rcases Appender.error_of_append (congrArg Prod.fst h) with hencode | hclosed | hio
      · rw [Record.encode] at hencode
        split at hencode
        · cases hencode
        · split at hencode <;> cases hencode
      · cases hclosed
      · cases hio

/-- The marker of an outcome is added and the table changes, or neither happens. -/
theorem steps_addOutcome {ts : Transactions} {refused granted : Transactions → Transactions}
    (hq : q.outcomeOf txn = some kind) (ha : l.transactions.phase? txn = some .active)
    (hrefused : refused ts = l.transactions) (hgranted : granted ts = l.transactions.erase txn) :
    l.transactions.Steps q (.of (fun _ => .done) (l.addOutcome d ts refused granted r force).1)
      (l.addOutcome d ts refused granted r force).2.1.transactions := by
  obtain ⟨hsame, herror⟩ := add_spec { l with transactions := ts } d r force
  unfold Log.addOutcome
  rcases h : Log.add { l with transactions := ts } d r force with ⟨answer, l', d'⟩
  rw [h] at hsame herror
  dsimp only at hsame
  cases answer with
  | error e =>
    dsimp only
    rw [show refused l'.transactions = l.transactions from hsame ▸ hrefused]
    exact .refused hq ha (herror e rfl txn)
  | ok n =>
    dsimp only
    rw [show granted l'.transactions = l.transactions.erase txn from hsame ▸ hgranted]
    exact .granted hq ha

theorem steps_commit (hs : l.transactions.Sorted) (d : Disk) (txn : UInt64) :
    l.transactions.Steps (.commit txn) (.of (fun _ => .done) (l.commit d txn).1)
      (l.commit d txn).2.1.transactions := by
  have hq : (Request.commit txn).outcomeOf txn = some .txnCommit := if_pos rfl
  by_cases ha : l.transactions.phase? txn = some .active
  · have hstart : l.transactions.startCommit txn = .ok (l.transactions.setPhase txn .committing) :=
      if_pos ha
    rw [commit_eq hstart]
    apply steps_addOutcome hq ha
    · exact hs.revertCommit_startCommit hstart
    · exact Transactions.erase_setPhase l.transactions txn .committing
  · have hstart : l.transactions.startCommit txn = .error (.notActive txn) := if_neg ha
    simp only [Log.commit, hstart]
    exact .inactive hq ha

theorem steps_abort (hs : l.transactions.Sorted) (d : Disk) (txn : UInt64) :
    l.transactions.Steps (.abort txn) (.of (fun _ => .done) (l.abort d txn).1)
      (l.abort d txn).2.1.transactions := by
  have hq : (Request.abort txn).outcomeOf txn = some .txnRollback := if_pos rfl
  by_cases ha : l.transactions.phase? txn = some .active
  · have htake : l.transactions.takeForAbort txn =
        .ok ({ id := txn, phase := .aborted }, l.transactions.erase txn) := if_pos ha
    rw [abort_eq htake]
    apply steps_addOutcome hq ha
    · exact hs.restore_takeForAbort htake
    · rfl
  · have htake : l.transactions.takeForAbort txn = .error (.notActive txn) := if_neg ha
    simp only [Log.abort, htake]
    exact .inactive hq ha

theorem steps_begin (l : Log) :
    l.transactions.Steps .begin (.of .number l.begin.1) l.begin.2.transactions := by
  unfold Log.begin
  split
  · exact .same (fun _ => rfl) fun _ => rfl
  · exact .begins

theorem transactions_sync (l : Log) (d : Disk) :
    (l.sync d).2.1.transactions = l.transactions := by
  unfold Log.sync
  split <;> rfl

theorem transactions_readAll (l : Log) (d : Disk) :
    (l.readAll d).2.1.transactions = l.transactions := by
  unfold Log.readAll
  split
  · rfl
  · split
    · rfl
    · split <;> rfl

theorem transactions_close (l : Log) (d : Disk) :
    (l.close d).2.1.transactions = l.transactions := by
  unfold Log.close
  split <;> rfl

end Log

/-! ## Order -/

/-- A request with the answer that it got. -/
abbrev Exchange := Request × Answer

/-- The numbers that were given to transactions. -/
def begun (xs : List Exchange) : List UInt64 :=
  xs.filterMap fun
    | (.begin, .number n) => some n
    | _ => none

/-- How many outcomes of a transaction were granted. -/
def resolved (txn : UInt64) (xs : List Exchange) : Nat :=
  xs.countP fun x => (x.1.outcomeOf txn).isSome ∧ x.2 = .done

theorem begun_append (xs ys : List Exchange) : begun (xs ++ ys) = begun xs ++ begun ys :=
  List.filterMap_append

namespace Transactions

variable {ts ts' ts'' : Transactions} {xs ys : List Exchange} {txn : UInt64}

/-- A table in order: ascending, with nothing in it but active transactions, all below the number of
the next one. -/
structure Disciplined (ts : Transactions) : Prop where
  positive : 1 ≤ ts.nextId
  sorted : ts.Sorted
  live : ∀ txn p, ts.phase? txn = some p → p = .active ∧ txn < ts.nextId

/-- The outcomes that a transaction may still have: one while it is live or not yet begun. -/
def outcomesLeft (ts : Transactions) (txn : UInt64) : Nat :=
  if ts.phase? txn = some .active ∨ ts.nextId ≤ txn then 1 else 0

/-- How exchanges lead from one table to another. -/
structure Leads (ts : Transactions) (xs : List Exchange) (ts' : Transactions) : Prop where
  disciplined : ts'.Disciplined
  rises : ts.nextId ≤ ts'.nextId
  ascending : (begun xs).Pairwise (· < ·)
  numbers : ∀ n ∈ begun xs, ts.nextId ≤ n ∧ n < ts'.nextId
  outcomes : ∀ txn, resolved txn xs + ts'.outcomesLeft txn ≤ ts.outcomesLeft txn

namespace Disciplined

theorem of_mem (h : ts.Disciplined) {t : Transaction} (ht : t ∈ ts.live) :
    ts.find? t.id = some t ∧ t.phase = .active ∧ t.id < ts.nextId := by
  have hphase : ts.phase? t.id = some t.phase := h.sorted.phase?_eq_some.mpr ht
  refine ⟨?_, h.live _ _ hphase⟩
  obtain ⟨u, hu, -⟩ := Option.map_eq_some_iff.mp hphase
  unfold find? at hu ⊢
  have hid : u.id = t.id := by simpa using List.find?_some hu
  rw [hu, h.sorted.eq_of_id (List.mem_of_find?_eq_some hu) ht hid]

theorem pairwise_activeIds (h : ts.Disciplined) : ts.activeIds.Pairwise (· < ·) := by
  unfold activeIds
  rw [List.pairwise_map]
  exact h.sorted.filter _

/-- What the next number or a higher one is of is not in the table. -/
theorem phase?_of_le (h : ts.Disciplined) (hle : ts.nextId ≤ txn) : ts.phase? txn = none := by
  cases hp : ts.phase? txn with
  | none => rfl
  | some p => exact absurd (h.live txn p hp).2 (UInt64.not_lt.mpr hle)

end Disciplined

theorem Disciplined.leads_same (h : ts.Disciplined) (hb : begun xs = [])
    (ho : ∀ txn, resolved txn xs = 0) : ts.Leads xs ts where
  disciplined := h
  rises := UInt64.le_refl _
  ascending := by simp [hb]
  numbers := by simp [hb]
  outcomes := by simp [ho]

theorem Leads.trans (h : ts.Leads xs ts') (h' : ts'.Leads ys ts'') : ts.Leads (xs ++ ys) ts'' := by
  have hbegun := begun_append xs ys
  have hresolved (txn : UInt64) : resolved txn (xs ++ ys) = resolved txn xs + resolved txn ys :=
    List.countP_append
  constructor
  · exact h'.disciplined
  · exact UInt64.le_trans h.rises h'.rises
  · rw [hbegun, List.pairwise_append]
    refine ⟨h.ascending, h'.ascending, ?_⟩
    intro n hn m hm
    exact UInt64.lt_of_lt_of_le (h.numbers n hn).2 (h'.numbers m hm).1
  · rw [hbegun]
    intro n hn
    rcases List.mem_append.mp hn with hn | hn
    · exact ⟨(h.numbers n hn).1, UInt64.lt_of_lt_of_le (h.numbers n hn).2 h'.rises⟩
    · exact ⟨UInt64.le_trans h.rises (h'.numbers n hn).1, (h'.numbers n hn).2⟩
  · intro txn
    have hfirst := h.outcomes txn
    have hlast := h'.outcomes txn
    rw [hresolved]
    omega

/-- A transaction that begins gets the next number. -/
theorem Disciplined.leads_start (h : ts.Disciplined) (hroom : ts.nextId.toNat + 1 < 2 ^ 64) :
    ts.Leads [(.begin, .number ts.nextId)] ts.start.2 := by
  have hlt : ts.nextId < ts.nextId + 1 := by
    rw [UInt64.lt_iff_toNat_lt, toNat_succ hroom]
    omega
  have hbegun : begun [(.begin, .number ts.nextId)] = [ts.nextId] := rfl
  constructor
  · constructor
    · exact UInt64.le_trans h.positive (UInt64.le_of_lt hlt)
    · exact h.sorted.start
    · intro txn p hp
      rw [phase?_start] at hp
      split at hp
      · rename_i hid
        cases hp
        exact ⟨rfl, hid ▸ hlt⟩
      · obtain ⟨ha, hbelow⟩ := h.live txn p hp
        exact ⟨ha, UInt64.lt_trans hbelow hlt⟩
  · exact UInt64.le_of_lt hlt
  · simp [hbegun]
  · intro n hn
    rw [hbegun, List.mem_singleton] at hn
    subst hn
    exact ⟨UInt64.le_refl _, hlt⟩
  · intro txn
    show 0 + ts.start.2.outcomesLeft txn ≤ _
    rw [Nat.zero_add]
    unfold outcomesLeft
    rw [phase?_start]
    by_cases hid : ts.nextId = txn
    · subst hid
      simp
    · have hnext : ts.nextId + 1 ≤ txn → ts.nextId ≤ txn :=
        fun hle => UInt64.le_trans (UInt64.le_of_lt hlt) hle
      rw [if_neg hid]
      split
      · rename_i hleft
        rw [if_pos (hleft.imp_right hnext)]
      · exact Nat.zero_le _

/-- A transaction that has its outcome is gone, and its number was given out before. -/
theorem Disciplined.leads_erase (h : ts.Disciplined) {q : Request} {kind : Kind}
    (hq : q.outcomeOf txn = some kind) (ha : ts.phase? txn = some .active) :
    ts.Leads [(q, .done)] (ts.erase txn) := by
  have hbegun : begun [(q, .done)] = [] := by
    cases q <;> rfl
  constructor
  · constructor
    · exact h.positive
    · exact h.sorted.erase txn
    · intro other p hp
      rw [phase?_erase] at hp
      split at hp
      · cases hp
      · exact h.live other p hp
  · exact UInt64.le_refl _
  · simp [hbegun]
  · simp [hbegun]
  · intro other
    unfold outcomesLeft
    rw [phase?_erase]
    by_cases hid : other = txn
    · subst hid
      have hbelow := (h.live other _ ha).2
      have hgone : ¬ ts.nextId ≤ other := UInt64.not_le.mpr hbelow
      have hone : resolved other [(q, .done)] = 1 := by simp [resolved, hq]
      have hnext : (ts.erase other).nextId = ts.nextId := rfl
      simp [hone, ha, hgone, hnext]
    · have hnone : q.outcomeOf other = none := by
        cases q <;> simp_all [Request.outcomeOf, eq_comm (a := txn)]
      have hzero : resolved other [(q, .done)] = 0 := by simp [resolved, hnone]
      rw [hzero, if_neg hid, Nat.zero_add]
      exact Nat.le_refl _

/-- An outcome is denied exactly to a transaction that is not live. -/
theorem Steps.denied_iff {q : Request} {answer : Answer} (h : ts.Steps q answer ts')
    (hd : ts.Disciplined) {kind : Kind} (hq : q.outcomeOf txn = some kind) :
    answer = .failed (.notActive txn) ↔ ts.phase? txn = none := by
  have hsame {other : UInt64} {kind' : Kind} (h : q.outcomeOf other = some kind') :
      other = txn := by
    cases q <;> simp_all [Request.outcomeOf]
  cases h with
  | begins => cases hq
  | granted hq' ha =>
    rw [← hsame hq', ha]
    simp
  | refused hq' ha he =>
    rw [← hsame hq', ha]
    simp [he]
  | inactive hq' ha =>
    rw [hsame hq'] at ha ⊢
    refine ⟨fun _ => ?_, fun _ => rfl⟩
    cases hp : ts.phase? txn with
    | none => rfl
    | some p => exact absurd ((hd.live txn p hp).1 ▸ hp) ha
  | same hnone _ => cases (hnone txn).symm.trans hq

/-- What a request makes of a table in order. -/
theorem Steps.leads {q : Request} {answer : Answer} (h : ts.Steps q answer ts')
    (hd : ts.Disciplined) (hroom : ∀ n ∈ begun [(q, answer)], n.toNat + 1 < 2 ^ 64) :
    ts.Leads [(q, answer)] ts' := by
  cases h with
  | begins => exact hd.leads_start (hroom _ (List.mem_singleton.mpr rfl))
  | granted hq ha => exact hd.leads_erase hq ha
  | refused hq ha he =>
    apply hd.leads_same
    · cases q <;> rfl
    · simp [resolved]
  | inactive hq ha =>
    apply hd.leads_same
    · cases q <;> rfl
    · simp [resolved]
  | same hq hb =>
    apply hd.leads_same
    · cases q with
      | begin =>
        cases answer with
        | number n => cases hb rfl
        | _ => rfl
      | _ => rfl
    · simp [resolved, hq]

end Transactions

/-- The table that a replay leaves is in order, when there is a number for the next transaction. -/
theorem Desk.disciplined_ofRecords {rs : List Record}
    (hroom : (Replay.ofRecords rs).lastTxn.toNat + 1 < 2 ^ 64) :
    (ofRecords rs).transactions.Disciplined := by
  have hnext := nextId_ofRecords hroom
  constructor
  · rw [UInt64.le_iff_toNat_le, hnext]
    exact Nat.le_add_left 1 _
  · exact sorted_ofRecords rs
  · intro txn p hp
    rw [show (ofRecords rs).transactions.phase? txn = _ from phase?_ofRecords rs txn] at hp
    split at hp
    · rename_i hu
      obtain ⟨r, hr, rfl⟩ := exists_of_unresolved hu
      have hle := UInt64.le_iff_toNat_le.mp (Replay.le_lastTxn hr)
      cases hp
      refine ⟨rfl, ?_⟩
      rw [UInt64.lt_iff_toNat_lt, hnext]
      omega
    · cases hp

namespace Session

variable {s : Session} {l : Log}

/-- An operation that leaves the table as it is. -/
theorem steps_onLog_same {α : Type} (hl : s.log = some l) {q : Request} (reply : α → Answer)
    (op : Log → Disk → Except Error α × Log × Disk)
    (hop : (op l s.disk).2.1.transactions = l.transactions)
    (hnone : ∀ txn, q.outcomeOf txn = none) (hb : q ≠ .begin) :
    ∃ l', (s.onLog reply op).2.log = some l' ∧
      l.transactions.Steps q (s.onLog reply op).1 l'.transactions := by
  rw [onLog_eq hl]
  refine ⟨_, rfl, ?_⟩
  dsimp only
  rw [hop]
  exact .same hnone fun h => absurd h hb

/-- What a request to an open log makes of its table, whatever the disk does. -/
theorem steps_serve (hl : s.log = some l) (hs : l.transactions.Sorted) {q : Request}
    (hq : q ≠ .start) :
    ∃ l', (s.serve q).2.log = some l' ∧ l.transactions.Steps q (s.serve q).1 l'.transactions := by
  cases q with
  | start => exact absurd rfl hq
  | begin =>
    rw [serve, onLog_eq hl]
    exact ⟨_, rfl, l.steps_begin⟩
  | commit txn =>
    rw [serve, onLog_eq hl]
    exact ⟨_, rfl, Log.steps_commit hs s.disk txn⟩
  | abort txn =>
    rw [serve, onLog_eq hl]
    exact ⟨_, rfl, Log.steps_abort hs s.disk txn⟩
  | write txn key value =>
    exact steps_onLog_same hl .number (fun l d => l.write d txn key value)
      (Log.add_spec l s.disk _ _).1 (fun _ => rfl) (by simp)
  | checkpoint =>
    exact steps_onLog_same hl .number (fun l d => l.checkpoint d)
      (Log.add_spec l s.disk _ _).1 (fun _ => rfl) (by simp)
  | sync =>
    exact steps_onLog_same hl (fun _ => .done) (fun l d => l.sync d)
      (l.transactions_sync s.disk) (fun _ => rfl) (by simp)
  | readAll =>
    exact steps_onLog_same hl .records (fun l d => l.readAll d)
      (l.transactions_readAll s.disk) (fun _ => rfl) (by simp)
  | close =>
    exact steps_onLog_same hl (fun _ => .done) (fun l d => l.close d)
      (l.transactions_close s.disk) (fun _ => rfl) (by simp)

/-- The requests among events, each with its answer. -/
def exchanges (s : Session) (es : List Event) : List Exchange := (requests es).zip (s.answers es)

theorem exchanges_append (s : Session) (es fs : List Event) :
    s.exchanges (es ++ fs) = s.exchanges es ++ (s.run es).exchanges fs := by
  induction es generalizing s with
  | nil => rfl
  | cons e es ih =>
    cases e with
    | ask q => exact congrArg ((q, (s.serve q).1) :: ·) (ih (s.step (.ask q)))
    | configure settings => exact ih (s.step (.configure settings))
    | tick => exact ih (s.step .tick)
    | disturb d => exact ih (s.step (.disturb d))
    | crash => exact ih (s.step .crash)

/-- Along a run on one opening of the log its table stays in order. -/
theorem leads_run (hl : s.log = some l) (hd : l.transactions.Disciplined) {es : List Event}
    (hes : ∀ e ∈ es, e ≠ .ask .start ∧ e ≠ .crash)
    (hroom : ∀ n ∈ begun (s.exchanges es), n.toNat + 1 < 2 ^ 64) :
    ∃ l', (s.run es).log = some l' ∧ l.transactions.Leads (s.exchanges es) l'.transactions := by
  induction es generalizing s l with
  | nil => exact ⟨l, hl, hd.leads_same rfl fun _ => rfl⟩
  | cons e rest ih =>
    have hrest : ∀ e ∈ rest, e ≠ .ask .start ∧ e ≠ .crash :=
      fun e he => hes e (List.mem_cons_of_mem _ he)
    cases e with
    | ask q =>
      have hq : q ≠ .start := fun h => (hes _ List.mem_cons_self).1 (congrArg Event.ask h)
      have hsplit : begun (s.exchanges (.ask q :: rest)) =
          begun [(q, (s.serve q).1)] ++ begun ((s.step (.ask q)).exchanges rest) :=
        begun_append [(q, (s.serve q).1)] _
      rw [hsplit] at hroom
      obtain ⟨l₁, hl₁, hsteps⟩ := steps_serve hl hd.sorted hq
      have hfirst := hsteps.leads hd fun n hn => hroom n (List.mem_append_left _ hn)
      obtain ⟨l', hl', hlast⟩ := ih (s := s.step (.ask q)) hl₁ hfirst.disciplined hrest
        fun n hn => hroom n (List.mem_append_right _ hn)
      exact ⟨l', hl', hfirst.trans hlast⟩
    | configure settings => exact ih (s := s.step (.configure settings)) hl hd hrest hroom
    | tick =>
      have hl₁ : (s.step .tick).log = some (l.tick s.disk).1 := by simp only [Session.step, hl]
      exact ih (l := (l.tick s.disk).1) hl₁ hd hrest hroom
    | disturb d => exact ih (s := s.step (.disturb d)) hl hd hrest hroom
    | crash => exact absurd rfl (hes _ List.mem_cons_self).2

/-! ## Openings -/

/-- The table of a log that was just opened is that of the records its replay read, wherever it
stopped. -/
theorem table_of_start {d d' : Disk} {settings : Settings}
    (hstart : Log.start d settings = (.ok l, d')) :
    ∃ rs, l.transactions = (Desk.ofRecords rs).transactions ∧
      l.report.lastTxn = (Replay.ofRecords rs).lastTxn := by
  have hrun {c : Cursor} {d : Disk} {report : Report}
      (h : Replay.run d c settings.policy = .ok report) : ∃ rs,
        report.lastTxn = (Replay.ofRecords rs).lastTxn ∧
        report.active = (Replay.ofRecords rs).active := by
    unfold Replay.run at h
    dsimp only at h
    split at h
    · cases h
      exact ⟨_, rfl, rfl⟩
    · split at h
      · cases h
        exact ⟨_, rfl, rfl⟩
      · cases h
  have hreport {a : Appender} {report : Report} (h : l = Log.ofReport settings a report)
      (hr : ∃ rs, report.lastTxn = (Replay.ofRecords rs).lastTxn ∧
        report.active = (Replay.ofRecords rs).active) :
      ∃ rs, l.transactions = (Desk.ofRecords rs).transactions ∧
        l.report.lastTxn = (Replay.ofRecords rs).lastTxn := by
    obtain ⟨rs, hlast, hactive⟩ := hr
    refine ⟨rs, ?_, ?_⟩
    · rw [h, Log.ofReport, hlast, hactive]
      rfl
    · rw [h]
      exact hlast
  unfold Log.start at hstart
  split at hstart
  · cases hstart
  split at hstart
  · cases hstart
  split at hstart
  · cases hstart
  split at hstart
  · cases hstart
  rename_i hreplay
  split at hstart
  · cases hstart
    exact hreport rfl (hrun hreplay)
  · split at hstart
    · cases hstart
    · cases hstart
      exact hreport rfl (hrun hreplay)

/-- The discipline of the table from an opening on, whatever the disk refuses and others do to it.
The live transactions are found by their numbers, active, and below the next number, which never
goes down. Numbers that were given out ascend, and a new one is not that of a live transaction. An
outcome is denied for want of an active transaction exactly where the transaction is not live, and
none gets more than one. -/
theorem table_disciplined {d : Disk} {settings : Settings} {l₀ : Log} {es : List Event}
    (hopen : (opening d settings).log = some l₀) (hlast : l₀.report.lastTxn.toNat + 1 < 2 ^ 64)
    (hes : ∀ e ∈ es, e ≠ .ask .start ∧ e ≠ .crash)
    (hroom : ∀ n ∈ begun ((opening d settings).exchanges es), n.toNat + 1 < 2 ^ 64) :
    let s := (opening d settings).run es
    let past := (opening d settings).exchanges es
    ∃ l, s.log = some l ∧
      (∀ t ∈ l.transactions.live,
        l.transactions.find? t.id = some t ∧ t.phase = .active ∧ t.id < l.nextTxn) ∧
      1 ≤ l.nextTxn ∧ l.transactions.activeIds.Pairwise (· < ·) ∧
      (∀ before after, es = before ++ after →
        ∃ l', ((opening d settings).run before).log = some l' ∧ l'.nextTxn ≤ l.nextTxn ∧
          ∀ n, (s.serve .begin).1 = .number n → l'.transactions.phase? n = none) ∧
      (begun past).Pairwise (· < ·) ∧
      (∀ n, (s.serve .begin).1 = .number n → ∀ m ∈ begun past, m < n) ∧
      (∀ txn, ((s.serve (.commit txn)).1 = .failed (.notActive txn) ↔
          l.transactions.phase? txn = none) ∧
        ((s.serve (.abort txn)).1 = .failed (.notActive txn) ↔
          l.transactions.phase? txn = none)) ∧
      ∀ txn, resolved txn past ≤ 1 := by
  intro s past
  have hstart : ∃ d', Log.start d settings = (.ok l₀, d') := by
    simp only [opening, Session.step, serve, released] at hopen
    split at hopen
    · rename_i l d' h
      cases hopen
      exact ⟨d', h⟩
    · cases hopen
  obtain ⟨d', hstart⟩ := hstart
  obtain ⟨rs, htable, hreport⟩ := table_of_start hstart
  have hfirst : l₀.transactions.Disciplined := by
    rw [htable]
    exact Desk.disciplined_ofRecords (hreport ▸ hlast)
  obtain ⟨l, hl, hleads⟩ := leads_run hopen hfirst hes hroom
  have hd := hleads.disciplined
  have hnumber {n : UInt64} (h : (s.serve .begin).1 = .number n) : n = l.nextTxn := by
    obtain ⟨l', hl', rfl⟩ := next_of_begin h
    exact congrArg Log.nextTxn (Option.some.inj (hl'.symm.trans hl))
  have hdenied (q : Request) {txn : UInt64} {kind : Kind} (hq : q.outcomeOf txn = some kind) :
      (s.serve q).1 = .failed (.notActive txn) ↔ l.transactions.phase? txn = none := by
    obtain ⟨_, -, hsteps⟩ := steps_serve hl hd.sorted (Request.ne_start_of_outcomeOf hq)
    exact hsteps.denied_iff hd hq
  refine ⟨l, hl, ?_, hd.positive, hd.pairwise_activeIds, ?_, hleads.ascending, ?_, ?_, ?_⟩
  · intro t ht
    exact hd.of_mem ht
  · rintro before after rfl
    obtain ⟨hbefore, hafter⟩ := List.forall_mem_append.mp hes
    rw [exchanges_append, begun_append] at hroom
    obtain ⟨hroom₁, hroom₂⟩ := List.forall_mem_append.mp hroom
    obtain ⟨l', hl', hleads₁⟩ := leads_run hopen hfirst hbefore hroom₁
    obtain ⟨l₂, hl₂, hleads₂⟩ := leads_run hl' hleads₁.disciplined hafter hroom₂
    rw [← run_append] at hl₂
    obtain rfl : l = l₂ := Option.some.inj (hl.symm.trans hl₂)
    refine ⟨l', hl', hleads₂.rises, ?_⟩
    rintro n hn
    rw [hnumber hn]
    exact hleads₁.disciplined.phase?_of_le hleads₂.rises
  · intro n hn m hm
    rw [hnumber hn]
    exact (hleads.numbers m hm).2
  · intro txn
    exact ⟨hdenied (.commit txn) (if_pos rfl), hdenied (.abort txn) (if_pos rfl)⟩
  · intro txn
    have hleft : l₀.transactions.outcomesLeft txn ≤ 1 := by
      unfold Transactions.outcomesLeft
      split <;> omega
    have hcount := hleads.outcomes txn
    show resolved txn ((opening d settings).exchanges es) ≤ 1
    omega

/-- A log with a begin marker of transaction 0 and a write of transaction 5, and no room for more in
its segment. A full device stands where the next one would be. -/
def occupied : Disk where
  nodes := [((Location.top.enter "wal").enter "1.wal", .file 0),
    ((Location.top.enter "wal").enter "00000000000000000002.wal", .full),
    (Location.top.enter "wal", .folder)]
  bodies := fun body =>
    if body = 0 then
      .ofOctets ((Record.marker .txnBegin 1 0).form ++ (Record.write 2 5 [1] [2]).form)
    else {}
  nextBody := 1

/-- The device is removed. -/
def vacated : Disk := occupied.unlink ((Location.top.enter "wal").enter "00000000000000000002.wal")

def narrow : Settings := { folder := "wal", segmentLimit := 60, sync := false }

/-- Two transactions begin. The commit of the second is refused by the device and granted once it is
gone. The other one and those that were found get their outcomes, and one of these is asked for
again. -/
def retried : List Event :=
  [.ask .begin, .ask .begin, .ask (.commit 7), .disturb vacated, .tick, .ask (.commit 7),
    .ask (.abort 6), .ask (.abort 0), .ask (.commit 5), .ask (.abort 5), .ask .close]

theorem table_disciplined_retried :
    let opened := opening occupied narrow
    let s := opened.run retried
    let past := opened.exchanges retried
    ((∃ l₀, opened.log = some l₀ ∧ l₀.report.lastTxn.toNat + 1 < 2 ^ 64) ∧
      (∀ e ∈ retried, e ≠ .ask .start ∧ e ≠ .crash) ∧
      ∀ n ∈ begun past, n.toNat + 1 < 2 ^ 64) ∧
    past.map (·.2.isFailure) =
      [false, false, true, false, false, false, false, true, false] ∧
    begun past = [6, 7] ∧ (begun past).Pairwise (· < ·) ∧ resolved 7 past ≤ 1 ∧
    resolved 5 past ≤ 1 ∧
    ∃ l, s.log = some l ∧ l.transactions.phase? 5 = none ∧
      (s.serve (.commit 5)).1 = .failed (.notActive 5) := by
  intro opened s past
  have hopen : ∃ l₀, opened.log = some l₀ ∧ l₀.report.lastTxn.toNat + 1 < 2 ^ 64 := by
    have hlast : opened.log.map (·.report.lastTxn) = some 5 := by decide +kernel
    obtain ⟨l₀, hl₀, hlast⟩ := Option.map_eq_some_iff.mp hlast
    exact ⟨l₀, hl₀, by rw [hlast]; decide⟩
  have hes : ∀ e ∈ retried, e ≠ .ask .start ∧ e ≠ .crash := by simp [retried]
  have hbegun : begun past = [6, 7] := by decide +kernel
  have hroom : ∀ n ∈ begun past, n.toNat + 1 < 2 ^ 64 := by
    rw [hbegun]
    intro n hn
    rcases List.mem_pair.mp hn with rfl | rfl <;> decide
  obtain ⟨l₀, hl₀, hlast⟩ := hopen
  obtain ⟨l, hl, -, -, -, -, hascending, -, hdenied, hresolved⟩ :=
    table_disciplined hl₀ hlast hes hroom
  have hgone : l.transactions.phase? 5 = none := by
    have hphase : s.log.map (·.transactions.phase? 5) = some none := by decide +kernel
    rw [hl] at hphase
    exact Option.some.inj hphase
  refine ⟨⟨⟨l₀, hl₀, hlast⟩, hes, hroom⟩, by decide +kernel, hbegun, hascending, hresolved 7,
    hresolved 5, l, hl, hgone, (hdenied 5).1.mpr hgone⟩

end Session

end SegmentLog
