import SegmentLog.Proofs.Atomicity
import SegmentLog.Proofs.Finality

/-!
The table of live transactions and the log say the same. As long as writes go to active transactions
a log is tidy: a transaction has one marker at most, and nothing behind it (`Tidy`). A replay then
finds active what has no marker (`Tidy.unresolved_iff`), and so does the table that is kept from
request to request (`Desk.Reflects`), however often the log is closed or killed and opened again, and
although writes are refused, if nothing is left of them (`Session.table_matches_log`).
-/

namespace SegmentLog

/-! ## Tidy logs -/

/-- Every record is a write, a checkpoint outside transactions or a marker of an outcome, and behind
such a marker nothing is logged in its transaction. -/
structure Tidy (log : List Record) : Prop where
  kinds : ∀ r ∈ log, r.kind = .write ∨ r.kind = .checkpoint ∧ r.txn = 0 ∨ r.decides r.txn = true
  last : log.Pairwise fun m r => m.txn ≠ 0 → m.decides m.txn = true → r.txn ≠ m.txn

theorem Record.txn_of_decides {r : Record} {txn : UInt64} (h : r.decides txn = true) :
    r.txn = txn := by
  simp only [decides, decide_eq_true_eq] at h
  exact h.1

theorem tidy_nil : Tidy [] := ⟨nofun, List.Pairwise.nil⟩

namespace Tidy

variable {log : List Record} {txn : UInt64}

theorem of_isPrefix (h : Tidy log) {front : List Record} (hp : front <+: log) : Tidy front :=
  ⟨fun r hr => h.kinds r (hp.mem hr), h.last.sublist hp.sublist⟩

/-- A record may be added to a transaction that has no marker. -/
theorem append (h : Tidy log) {r : Record}
    (hk : r.kind = .write ∨ r.kind = .checkpoint ∧ r.txn = 0 ∨ r.decides r.txn = true)
    (hr : r.txn ≠ 0 → ∀ m ∈ log, m.decides r.txn = false) : Tidy (log ++ [r]) := by
  refine ⟨?_, ?_⟩
  · intro r' hr'
    rcases List.mem_append.mp hr' with hr' | hr'
    · exact h.kinds r' hr'
    · exact List.mem_singleton.mp hr' ▸ hk
  · refine List.pairwise_append.mpr ⟨h.last, List.pairwise_singleton _ r, ?_⟩
    intro m hm r' hr' hz hd he
    obtain rfl := List.mem_singleton.mp hr'
    rw [← he] at hz hd
    exact absurd (hd.symm.trans (hr hz m hm)) (by simp)

/-- A transaction has at most one marker. -/
theorem countP_le_one (h : Tidy log) (ht : txn ≠ 0) : log.countP (·.decides txn) ≤ 1 := by
  rw [List.countP_eq_length_filter]
  have hpair := h.last.filter (·.decides txn)
  have hmem : ∀ m ∈ log.filter (·.decides txn), m.decides txn = true := fun m hm =>
    (List.mem_filter.mp hm).2
  cases hf : log.filter (·.decides txn) with
  | nil => exact Nat.zero_le 1
  | cons m rest =>
    cases rest with
    | nil => exact Nat.le_refl 1
    | cons r rest =>
      rw [hf] at hpair hmem
      have hm := hmem m List.mem_cons_self
      have hr := hmem r (List.mem_cons_of_mem m List.mem_cons_self)
      have hid := Record.txn_of_decides hm
      have hne := (List.pairwise_cons.mp hpair).1 r List.mem_cons_self
      rw [hid] at hne
      exact absurd (Record.txn_of_decides hr) (hne ht hm)

/-- Nothing of a transaction comes behind its marker. -/
theorem ne_of_marker (h : Tidy log) (ht : txn ≠ 0) {front back : List Record} {m r : Record}
    (hlog : log = front ++ m :: back) (hm : m.decides txn = true) (hr : r ∈ back) :
    r.txn ≠ txn := by
  subst hlog
  have hid := Record.txn_of_decides hm
  have hne := (List.pairwise_cons.mp (List.pairwise_append.mp h.last).2.1).1 r hr
  rw [hid] at hne
  exact hne ht hm

/-- Of a tidy log a replay finds the transactions active that have records but no marker. -/
theorem unresolved_iff (h : Tidy log) (ht : txn ≠ 0) :
    unresolved log txn = true ↔
      (∃ r ∈ log, r.txn = txn) ∧ ∀ m ∈ log, m.decides txn = false := by
  induction log using List.reverseRecOn with
  | nil => simp [unresolved]
  | append_singleton log r ih =>
    have hfront := ih (h.of_isPrefix (List.prefix_append log [r]))
    have hcross := (List.pairwise_append.mp h.last).2.2
    rw [unresolved_append]
    by_cases hid : r.txn = txn
    · subst hid
      rcases h.kinds r (by simp) with hw | ⟨-, hz⟩ | hd
      · -- a write: an earlier marker would forbid it
        have hnone : ∀ m ∈ log, m.decides r.txn = false := by
          intro m hm
          cases hd : m.decides r.txn with
          | false => rfl
          | true =>
            have hmid := Record.txn_of_decides hd
            exact absurd hmid.symm (hcross m hm r (by simp) (hmid ▸ ht) (hmid.symm ▸ hd))
        have hopens : r.opens r.txn = true := by simp [Record.opens, hw, ht]
        have hself : r.decides r.txn = false := by simp [Record.decides, hw]
        simp only [hopens, if_true, true_iff, List.mem_append, List.mem_singleton]
        refine ⟨⟨r, .inr rfl, rfl⟩, ?_⟩
        rintro m (hm | rfl)
        · exact hnone m hm
        · exact hself
      · exact absurd hz ht
      · have hopens : r.opens r.txn = false := by
          simp only [Record.decides, decide_eq_true_eq] at hd
          rcases hd.2 with hk | hk <;> simp [Record.opens, hk]
        simp only [hopens, hd, Bool.false_eq_true, if_false, if_true, false_iff, not_and]
        intro _ hall
        exact absurd (hd.symm.trans (hall r (by simp))) (by simp)
    · have hopens : r.opens txn = false := by simp [Record.opens, hid]
      have hself : r.decides txn = false := by simp [Record.decides, hid]
      rw [hopens, hself, if_neg (by simp), if_neg (by simp), hfront]
      simp [hid, hself, or_imp, forall_and]

end Tidy

/-! ## Numbers -/

namespace Replay

theorem lastTxn_append (log : List Record) (r : Record) :
    (ofRecords (log ++ [r])).lastTxn =
      if (ofRecords log).lastTxn ≤ r.txn then r.txn else (ofRecords log).lastTxn := by
  rw [ofRecords_append]
  rfl

theorem le_lastTxn {log : List Record} {r : Record} (hr : r ∈ log) :
    r.txn ≤ (ofRecords log).lastTxn := by
  induction log using List.reverseRecOn with
  | nil => cases hr
  | append_singleton log r' ih =>
    rw [lastTxn_append]
    rcases List.mem_append.mp hr with hr | hr
    · split
      · rename_i hle
        exact UInt64.le_trans (ih hr) hle
      · exact ih hr
    · obtain rfl := List.mem_singleton.mp hr
      split
      · exact UInt64.le_refl _
      · rename_i hle
        exact UInt64.le_of_lt (UInt64.not_le.mp hle)

theorem lastTxn_le {log : List Record} {n : Nat} (h : ∀ r ∈ log, r.txn.toNat ≤ n) :
    (ofRecords log).lastTxn.toNat ≤ n := by
  induction log using List.reverseRecOn with
  | nil => exact Nat.zero_le n
  | append_singleton log r ih =>
    rw [lastTxn_append]
    split
    · exact h r (by simp)
    · exact ih fun r' hr' => h r' (List.mem_append_left _ hr')

end Replay

/-- Below the last number the next one is greater. -/
theorem toNat_succ {n : UInt64} (h : n.toNat + 1 < 2 ^ 64) : (n + 1).toNat = n.toNat + 1 := by
  rw [UInt64.toNat_add]
  simp only [UInt64.toNat_one]
  omega

/-- A replay goes on with the number after the greatest one. -/
theorem Desk.nextId_ofRecords {log : List Record}
    (h : (Replay.ofRecords log).lastTxn.toNat + 1 < 2 ^ 64) :
    (ofRecords log).transactions.nextId.toNat = (Replay.ofRecords log).lastTxn.toNat + 1 := by
  have hsucc := toNat_succ h
  have hne : (Replay.ofRecords log).lastTxn + 1 ≠ 0 := by
    intro hz
    rw [hz] at hsucc
    cases hsucc
  simp only [ofRecords, Transactions.ofActive, if_neg hne, hsucc]

/-- The next number after a replay is above that of every record. -/
theorem Desk.lt_nextId_ofRecords {log : List Record} (hroom : ∀ r ∈ log, r.txn.toNat + 1 < 2 ^ 64) :
    0 < (ofRecords log).transactions.nextId ∧
      ∀ r ∈ log, r.txn < (ofRecords log).transactions.nextId := by
  have hlast : (Replay.ofRecords log).lastTxn.toNat + 1 < 2 ^ 64 := by
    have hle := Replay.lastTxn_le (n := 2 ^ 64 - 2) fun r hr => by
      have := hroom r hr
      omega
    omega
  have hnext := nextId_ofRecords hlast
  refine ⟨?_, fun r hr => ?_⟩
  · rw [UInt64.lt_iff_toNat_lt, hnext]
    exact Nat.succ_pos _
  · have hle := UInt64.le_iff_toNat_le.mp (Replay.le_lastTxn hr)
    rw [UInt64.lt_iff_toNat_lt, hnext]
    omega

/-! ## Desks -/

/-- The table of a desk is that of its log: numbers are below the next one, and of the transactions
in the log those are active that have no marker. -/
structure Desk.Reflects (k : Desk) (log : List Record) : Prop where
  sorted : k.transactions.Sorted
  positive : 0 < k.transactions.nextId
  below : ∀ txn, k.phase? txn = some .active → txn < k.transactions.nextId
  numbered : ∀ r ∈ log, r.txn < k.transactions.nextId
  active : ∀ txn, txn ≠ 0 → (∃ r ∈ log, r.txn = txn) →
    (k.phase? txn = some .active ↔ ∀ m ∈ log, m.decides txn = false)

namespace Desk

variable {k : Desk} {log : List Record} {txn : UInt64}

/-- An active transaction has no marker, whether it has written or not. -/
theorem Reflects.no_marker (h : k.Reflects log) (ht : txn ≠ 0) (ha : k.phase? txn = some .active) :
    ∀ m ∈ log, m.decides txn = false := by
  intro m hm
  cases hd : m.decides txn with
  | false => rfl
  | true =>
    have hall := (h.active txn ht ⟨m, hm, Record.txn_of_decides hd⟩).mp ha
    exact hd.symm.trans (hall m hm)

theorem reflects_ofRecords (h : Tidy log) (hroom : ∀ r ∈ log, r.txn.toNat + 1 < 2 ^ 64) :
    (ofRecords log).Reflects log := by
  obtain ⟨hpositive, hnumbered⟩ := lt_nextId_ofRecords hroom
  have hphase (txn : UInt64) :
      (ofRecords log).phase? txn = some .active ↔ unresolved log txn = true := by
    rw [phase?_ofRecords]
    split <;> simp_all
  refine ⟨sorted_ofRecords log, hpositive, ?_, hnumbered, ?_⟩
  · intro txn ha
    by_cases ht : txn = 0
    · exact ht ▸ hpositive
    · obtain ⟨⟨r, hr, rfl⟩, -⟩ := (h.unresolved_iff ht).mp ((hphase txn).mp ha)
      exact hnumbered r hr
  · intro txn ht hcarried
    rw [hphase, h.unresolved_iff ht]
    exact ⟨fun hu => hu.2, fun hnone => ⟨hcarried, hnone⟩⟩

/-- A transaction that begins has a number that no record carries. -/
theorem Reflects.begin (h : k.Reflects log) (hroom : k.transactions.nextId.toNat + 1 < 2 ^ 64) :
    Reflects { k with transactions := k.transactions.start.2 } log := by
  have hlt : k.transactions.nextId < k.transactions.nextId + 1 := by
    rw [UInt64.lt_iff_toNat_lt, toNat_succ hroom]
    omega
  have hphase (txn : UInt64) : phase? { k with transactions := k.transactions.start.2 } txn =
      if k.transactions.nextId = txn then some .active else k.phase? txn :=
    Transactions.phase?_start k.transactions txn
  refine ⟨h.sorted.start, UInt64.lt_trans h.positive hlt, ?_,
    fun r hr => UInt64.lt_trans (h.numbered r hr) hlt, ?_⟩
  · intro txn ha
    rw [hphase] at ha
    split at ha
    · rename_i hid
      exact hid ▸ hlt
    · exact UInt64.lt_trans (h.below txn ha) hlt
  · rintro txn ht ⟨r, hr, rfl⟩
    rw [hphase, if_neg (UInt64.ne_of_lt (h.numbered r hr)).symm]
    exact h.active r.txn ht ⟨r, hr, rfl⟩

/-- A record outside transactions, or of an active one, that is not a marker. -/
theorem Reflects.add (h : k.Reflects log) {r : Record} (hd : r.decides r.txn = false)
    (hr : r.txn ≠ 0 → k.phase? r.txn = some .active) (hn : r.txn < k.transactions.nextId)
    (last : UInt64) : Reflects { k with lastSequence := last } (log ++ [r]) := by
  refine ⟨h.sorted, h.positive, h.below, ?_, ?_⟩
  · intro r' hr'
    rcases List.mem_append.mp hr' with hr' | hr'
    · exact h.numbered r' hr'
    · exact List.mem_singleton.mp hr' ▸ hn
  · intro txn ht hcarried
    by_cases hid : r.txn = txn
    · subst hid
      have ha := hr ht
      refine ⟨fun _ m hm => ?_, fun _ => ha⟩
      rcases List.mem_append.mp hm with hm | hm
      · exact h.no_marker ht ha m hm
      · exact List.mem_singleton.mp hm ▸ hd
    · have hself : r.decides txn = false := by simp [Record.decides, hid]
      have hcarried' : ∃ r' ∈ log, r'.txn = txn := by simpa [hid] using hcarried
      have hactive := h.active txn ht hcarried'
      simp only [List.mem_append, List.mem_singleton, or_imp, forall_and, forall_eq, hself,
        and_true]
      exact hactive

/-- The marker of an active transaction takes it off the table. -/
theorem Reflects.settle (h : k.Reflects log) {r : Record} (hd : r.decides r.txn = true)
    (ha : k.phase? r.txn = some .active) (last : UInt64) :
    Reflects { k with lastSequence := last, transactions := k.transactions.erase r.txn }
      (log ++ [r]) := by
  have hphase (txn : UInt64) :
      phase? { k with lastSequence := last, transactions := k.transactions.erase r.txn } txn =
        if txn = r.txn then none else k.phase? txn :=
    Transactions.phase?_erase k.transactions r.txn txn
  refine ⟨h.sorted.erase r.txn, h.positive, ?_, ?_, ?_⟩
  · intro txn hp
    rw [hphase] at hp
    split at hp
    · cases hp
    · exact h.below txn hp
  · intro r' hr'
    rcases List.mem_append.mp hr' with hr' | hr'
    · exact h.numbered r' hr'
    · exact List.mem_singleton.mp hr' ▸ h.below r.txn ha
  · intro txn ht hcarried
    rw [hphase]
    by_cases hid : txn = r.txn
    · subst hid
      simp only [if_true, reduceCtorEq, false_iff]
      intro hnone
      exact absurd (hd.symm.trans (hnone r (by simp))) (by simp)
    · have hself : r.decides txn = false := by simp [Record.decides, Ne.symm hid]
      have hcarried' : ∃ r' ∈ log, r'.txn = txn := by simpa [Ne.symm hid] using hcarried
      have hactive := h.active txn ht hcarried'
      rw [if_neg hid]
      simp only [List.mem_append, List.mem_singleton, or_imp, forall_and, forall_eq, hself,
        and_true]
      exact hactive

end Desk

/-! ## What is granted -/

namespace Desk

variable {k : Desk} {refusal : Option Error} {ts : Transactions} {r : Record} {txn : UInt64}
  {refused granted : Transactions → Transactions}

theorem begin_of_ok {n : UInt64} (h : k.begin.1 = .ok n) :
    k.begin =
      (.ok k.transactions.start.1, { k with transactions := k.transactions.start.2 }, []) := by
  unfold Desk.begin at h ⊢
  split at h
  · cases h
  · rename_i hc
    rw [if_neg hc]

theorem add_of_ok {n : UInt64} (h : (k.add refusal r).1 = .ok n) :
    k.add refusal r = (.ok r.sequence, { k with lastSequence := r.sequence }, [r]) := by
  rcases k.add_eq refusal r with ⟨e, he⟩ | hok
  · rw [he] at h
    cases h
  · exact hok

theorem addOutcome_of_ok {x : Unit} (h : (k.addOutcome refusal ts refused granted r).1 = .ok x) :
    k.addOutcome refusal ts refused granted r =
      (.ok (), { k with lastSequence := r.sequence, transactions := granted ts }, [r]) := by
  rcases Desk.add_eq { k with transactions := ts } refusal r with ⟨e, he⟩ | hok
  · simp only [addOutcome, he] at h
    cases h
  · simp only [addOutcome, hok]

/-- A granted commit found its transaction active. -/
theorem commit_of_ok {x : Unit} (h : (k.commit refusal txn).1 = .ok x) :
    k.phase? txn = some .active ∧ k.commit refusal txn =
      (.ok (), { k with
        lastSequence := k.lastSequence + 1, transactions := k.transactions.erase txn },
        [Record.marker .txnCommit (k.lastSequence + 1) txn]) := by
  by_cases ha : k.transactions.phase? txn = some .active
  · have hstart : k.transactions.startCommit txn =
        .ok (k.transactions.setPhase txn .committing) := if_pos ha
    refine ⟨ha, ?_⟩
    simp only [Desk.commit, hstart] at h ⊢
    rw [addOutcome_of_ok h, Transactions.finishCommit, Transactions.erase_setPhase]
    rfl
  · have hstart : k.transactions.startCommit txn = .error (.notActive txn) := if_neg ha
    simp only [Desk.commit, hstart] at h
    cases h

theorem abort_of_ok {x : Unit} (h : (k.abort refusal txn).1 = .ok x) :
    k.phase? txn = some .active ∧ k.abort refusal txn =
      (.ok (), { k with
        lastSequence := k.lastSequence + 1, transactions := k.transactions.erase txn },
        [Record.marker .txnRollback (k.lastSequence + 1) txn]) := by
  by_cases ha : k.transactions.phase? txn = some .active
  · have htake : k.transactions.takeForAbort txn =
        .ok (⟨txn, .aborted⟩, k.transactions.erase txn) := if_pos ha
    refine ⟨ha, ?_⟩
    simp only [Desk.abort, htake] at h ⊢
    rw [addOutcome_of_ok h]
    rfl
  · have htake : k.transactions.takeForAbort txn = .error (.notActive txn) := if_neg ha
    simp only [Desk.abort, htake] at h
    cases h

theorem sync_of_ok {x : Unit} (h : (k.sync refusal).1 = .ok x) :
    k.sync refusal = (.ok (), k, []) := by
  unfold Desk.sync at h ⊢
  split at h
  · cases h
  · cases h
  · rfl

theorem readAll_of_ok {log rs : List Record} (h : (k.readAll refusal log).1 = .ok rs) :
    k.readAll refusal log = (.ok (log.filter (shown log)), k, []) := by
  unfold Desk.readAll at h ⊢
  split at h
  · cases h
  · cases h
  · rfl

end Desk

/-! ## Ledgers -/

namespace Ledger

/-- What a request can do at an open desk: nothing, or all that it asks for. -/
inductive Moves (l : Ledger) (k : Desk) : Request → Ledger → Prop
  | stays (q : Request) : Moves l k q l
  | begins : Moves l k .begin ⟨l.records, some { k with transactions := k.transactions.start.2 }⟩
  | writes (txn : UInt64) (key value : Octets) :
    Moves l k (.write txn key value)
      ⟨l.records ++ [Record.write (k.lastSequence + 1) txn key value],
        some { k with lastSequence := k.lastSequence + 1 }⟩
  | checks :
    Moves l k .checkpoint
      ⟨l.records ++ [Record.marker .checkpoint (k.lastSequence + 1) 0],
        some { k with lastSequence := k.lastSequence + 1 }⟩
  | commits (txn : UInt64) (ha : k.phase? txn = some .active) :
    Moves l k (.commit txn)
      ⟨l.records ++ [Record.marker .txnCommit (k.lastSequence + 1) txn],
        some { k with
          lastSequence := k.lastSequence + 1, transactions := k.transactions.erase txn }⟩
  | aborts (txn : UInt64) (ha : k.phase? txn = some .active) :
    Moves l k (.abort txn)
      ⟨l.records ++ [Record.marker .txnRollback (k.lastSequence + 1) txn],
        some { k with
          lastSequence := k.lastSequence + 1, transactions := k.transactions.erase txn }⟩
  | closes (closed : Bool) : Moves l k .close ⟨l.records, some { k with closed }⟩

variable {l : Ledger} {k : Desk} {q : Request} {refusal : Option Error}

/-- At a desk it is enough to know what is done when the request is granted. -/
theorem moves_onDesk {α : Type} {reply : α → Answer} {op : Desk → Desk.Entry α}
    (hk : l.desk = some k) (hundone : k.Undone (op k))
    (hok : ∀ x k' rs, op k = (.ok x, k', rs) → l.Moves k q ⟨l.records ++ rs, some k'⟩) :
    l.Moves k q (l.onDesk reply op).2 := by
  obtain ⟨records, desk⟩ := l
  obtain rfl : desk = some k := hk
  rcases h : op k with ⟨answer, k', rs⟩
  rw [h] at hundone
  simp only [onDesk, h]
  cases answer with
  | ok x => exact hok x k' rs h
  | error e =>
    cases hundone e rfl
    rw [List.append_nil]
    exact .stays q

theorem moves_serveRefused (hk : l.desk = some k) (hs : k.transactions.Sorted)
    (refusal : Option Error) (hq : q ≠ .start) : l.Moves k q (l.serveRefused refusal q).2 := by
  have hsame : (⟨l.records ++ [], some k⟩ : Ledger) = l := by rw [List.append_nil, ← hk]
  cases q with
  | start => exact absurd rfl hq
  | begin =>
    refine moves_onDesk hk k.undone_begin fun x k' rs (h : k.begin = (.ok x, k', rs)) => ?_
    cases (Desk.begin_of_ok (congrArg Prod.fst h)).symm.trans h
    rw [List.append_nil]
    exact .begins
  | write txn key value =>
    refine moves_onDesk hk (k.undone_add refusal _)
      fun x k' rs (h : k.write refusal txn key value = (.ok x, k', rs)) => ?_
    cases (Desk.add_of_ok (congrArg Prod.fst h)).symm.trans h
    exact .writes txn key value
  | checkpoint =>
    refine moves_onDesk hk (k.undone_add refusal _)
      fun x k' rs (h : k.checkpoint refusal = (.ok x, k', rs)) => ?_
    cases (Desk.add_of_ok (congrArg Prod.fst h)).symm.trans h
    exact .checks
  | commit txn =>
    refine moves_onDesk hk (Desk.undone_commit hs refusal txn)
      fun x k' rs (h : k.commit refusal txn = (.ok x, k', rs)) => ?_
    obtain ⟨ha, hcommit⟩ := Desk.commit_of_ok (congrArg Prod.fst h)
    cases hcommit.symm.trans h
    exact .commits txn ha
  | abort txn =>
    refine moves_onDesk hk (Desk.undone_abort hs refusal txn)
      fun x k' rs (h : k.abort refusal txn = (.ok x, k', rs)) => ?_
    obtain ⟨ha, habort⟩ := Desk.abort_of_ok (congrArg Prod.fst h)
    cases habort.symm.trans h
    exact .aborts txn ha
  | sync =>
    refine moves_onDesk hk (k.undone_sync refusal)
      fun x k' rs (h : k.sync refusal = (.ok x, k', rs)) => ?_
    cases (Desk.sync_of_ok (congrArg Prod.fst h)).symm.trans h
    rw [hsame]
    exact .stays .sync
  | readAll =>
    refine moves_onDesk hk (k.undone_readAll refusal l.records)
      fun x k' rs (h : k.readAll refusal l.records = (.ok x, k', rs)) => ?_
    cases (Desk.readAll_of_ok (congrArg Prod.fst h)).symm.trans h
    rw [hsame]
    exact .stays .readAll
  | close =>
    rw [serveRefused, Fate.onDesk_eq hk]
    unfold Desk.close
    split
    · rw [hsame]
      exact .stays .close
    · rw [List.append_nil]
      exact .closes true
    · rw [List.append_nil]
      exact .closes true

/-- The log is tidy and leaves a number for the next transaction, and the table of the open desk is
that of the log. -/
structure InStep (l : Ledger) : Prop where
  tidy : Tidy l.records
  room : ∀ r ∈ l.records, r.txn.toNat + 1 < 2 ^ 64
  desk : ∀ k, l.desk = some k → k.Reflects l.records

/-- An opening that finds a prefix of a tidy log makes its table anew. -/
theorem InStep.opened (h : l.InStep) {log : List Record} (hp : log <+: l.records) :
    InStep ⟨log, some (Desk.ofRecords log)⟩ := by
  have htidy := h.tidy.of_isPrefix hp
  have hroom : ∀ r ∈ log, r.txn.toNat + 1 < 2 ^ 64 := fun r hr => h.room r (hp.mem hr)
  refine ⟨htidy, hroom, ?_⟩
  rintro k ⟨⟩
  exact Desk.reflects_ofRecords htidy hroom

theorem InStep.lost (h : l.InStep) {log : List Record} (hp : log <+: l.records) :
    InStep ⟨log, none⟩ :=
  ⟨h.tidy.of_isPrefix hp, fun r hr => h.room r (hp.mem hr), nofun⟩

/-- A record that is added leaves the ledger in step if its desk is that of the longer log. -/
theorem InStep.add (h : l.InStep) {k' : Desk} {r : Record}
    (hkind : r.kind = .write ∨ r.kind = .checkpoint ∧ r.txn = 0 ∨ r.decides r.txn = true)
    (hnone : r.txn ≠ 0 → ∀ m ∈ l.records, m.decides r.txn = false)
    (hk' : k'.Reflects (l.records ++ [r])) : InStep ⟨l.records ++ [r], some k'⟩ := by
  refine ⟨h.tidy.append hkind hnone, ?_, ?_⟩
  · intro r' hr'
    have hlt := UInt64.lt_iff_toNat_lt.mp (hk'.numbered r' hr')
    have hbound := k'.transactions.nextId.toNat_lt
    omega
  · rintro _ ⟨⟩
    exact hk'

/-- A write outside transactions or in an active one, or a beginning that does not exhaust the
numbers, leaves a ledger in step, and so does everything else. -/
theorem InStep.moves (h : l.InStep) (hk : l.desk = some k) {l' : Ledger} (hm : l.Moves k q l')
    (hwrite : ∀ txn key value, q = .write txn key value → txn ≠ 0 → k.phase? txn = some .active)
    (hbegin : q = .begin → k.transactions.nextId.toNat + 1 < 2 ^ 64) : l'.InStep := by
  have hdesk := h.desk k hk
  cases hm with
  | stays q => exact h
  | begins =>
    refine ⟨h.tidy, h.room, ?_⟩
    rintro _ ⟨⟩
    exact hdesk.begin (hbegin rfl)
  | writes txn key value =>
    have ha := hwrite txn key value rfl
    have hd : (Record.write (k.lastSequence + 1) txn key value).decides txn = false := by
      simp [Record.decides, Record.write]
    have hn : txn < k.transactions.nextId := by
      by_cases ht : txn = 0
      · exact ht ▸ hdesk.positive
      · exact hdesk.below txn (ha ht)
    exact h.add (.inl rfl) (fun ht => hdesk.no_marker ht (ha ht)) (hdesk.add hd ha hn _)
  | checks =>
    have hd : (Record.marker .checkpoint (k.lastSequence + 1) 0).decides 0 = false := by
      simp [Record.decides, Record.marker]
    exact h.add (.inr (.inl ⟨rfl, rfl⟩)) (fun ht => absurd rfl ht)
      (hdesk.add hd (fun ht => absurd rfl ht) hdesk.positive _)
  | commits txn ha =>
    have hd : (Record.marker .txnCommit (k.lastSequence + 1) txn).decides txn = true := by
      simp [Record.decides, Record.marker]
    exact h.add (.inr (.inr hd)) (fun ht => hdesk.no_marker ht ha) (hdesk.settle hd ha _)
  | aborts txn ha =>
    have hd : (Record.marker .txnRollback (k.lastSequence + 1) txn).decides txn = true := by
      simp [Record.decides, Record.marker]
    exact h.add (.inr (.inr hd)) (fun ht => hdesk.no_marker ht ha) (hdesk.settle hd ha _)
  | closes closed =>
    refine ⟨h.tidy, h.room, ?_⟩
    rintro _ ⟨⟩
    exact ⟨hdesk.sorted, hdesk.positive, hdesk.below, hdesk.numbered, hdesk.active⟩

/-- The numbers of transactions in a ledger go up to this one. -/
structure UpTo (n : Nat) (l : Ledger) : Prop where
  records : ∀ r ∈ l.records, r.txn.toNat ≤ n
  next : ∀ k, l.desk = some k → k.transactions.nextId.toNat ≤ n + 1

theorem UpTo.mono {m n : Nat} (h : l.UpTo m) (hle : m ≤ n) : l.UpTo n :=
  ⟨fun r hr => (h.records r hr).trans hle, fun k hk => (h.next k hk).trans (Nat.succ_le_succ hle)⟩

theorem UpTo.lost {n : Nat} (h : l.UpTo n) {log : List Record} (hp : log <+: l.records) :
    UpTo n ⟨log, none⟩ :=
  ⟨fun r hr => h.records r (hp.mem hr), nofun⟩

theorem UpTo.opened {n : Nat} (h : l.UpTo n) (hn : n + 1 < 2 ^ 64) {log : List Record}
    (hp : log <+: l.records) : UpTo n ⟨log, some (Desk.ofRecords log)⟩ := by
  have hlast := Replay.lastTxn_le fun r hr => h.records r (hp.mem hr)
  refine ⟨fun r hr => h.records r (hp.mem hr), ?_⟩
  rintro k ⟨⟩
  rw [Desk.nextId_ofRecords (by omega)]
  omega

/-- A request brings in one number at most. -/
theorem UpTo.moves {n : Nat} (h : l.UpTo n) (hk : l.desk = some k) (hdesk : k.Reflects l.records)
    {l' : Ledger} (hm : l.Moves k q l')
    (hwrite : ∀ txn key value, q = .write txn key value → txn ≠ 0 → k.phase? txn = some .active) :
    l'.UpTo (n + 1) := by
  have hnext := h.next k hk
  have hbelow (txn : UInt64) (ha : k.phase? txn = some .active) : txn.toNat ≤ n := by
    have hlt := UInt64.lt_iff_toNat_lt.mp (hdesk.below txn ha)
    omega
  -- one more record of a number that is known, at a desk with the same next number
  have hadd {r : Record} {k' : Desk} (hr : r.txn.toNat ≤ n)
      (hsame : k'.transactions.nextId = k.transactions.nextId) :
      UpTo (n + 1) ⟨l.records ++ [r], some k'⟩ := by
    refine ⟨?_, ?_⟩
    · intro r' hr'
      rcases List.mem_append.mp hr' with hr' | hr'
      · exact (h.records r' hr').trans (Nat.le_succ n)
      · exact List.mem_singleton.mp hr' ▸ hr.trans (Nat.le_succ n)
    · rintro _ ⟨⟩
      rw [hsame]
      omega
  cases hm with
  | stays q => exact h.mono (Nat.le_succ n)
  | begins =>
    refine ⟨fun r hr => (h.records r hr).trans (Nat.le_succ n), ?_⟩
    rintro _ ⟨⟩
    show (k.transactions.nextId + 1).toNat ≤ n + 1 + 1
    rw [UInt64.toNat_add]
    exact (Nat.mod_le _ _).trans (Nat.succ_le_succ hnext)
  | writes txn key value =>
    refine hadd ?_ rfl
    by_cases ht : txn = 0
    · rw [ht]
      exact Nat.zero_le n
    · exact hbelow txn (hwrite txn key value rfl ht)
  | checks => exact hadd (Nat.zero_le n) rfl
  | commits txn ha => exact hadd (hbelow txn ha) rfl
  | aborts txn ha => exact hadd (hbelow txn ha) rfl
  | closes closed =>
    refine ⟨fun r hr => (h.records r hr).trans (Nat.le_succ n), ?_⟩
    rintro _ ⟨⟩
    show k.transactions.nextId.toNat ≤ n + 1 + 1
    omega

end Ledger

namespace Session

variable {folder : String} {s : Session} {D B : List Record}

/-! ## Runs -/

/-- A write in a transaction is one of a transaction that is active. -/
def Owned (s : Session) : Event → Prop
  | .ask (.write txn _ _) => txn ≠ 0 → ∀ l ∈ s.log, txn ∈ l.transactions.activeIds
  | _ => True

instance (s : Session) : (e : Event) → Decidable (Owned s e)
  | .ask (.write txn _ _) =>
    inferInstanceAs (Decidable (txn ≠ 0 → ∀ l ∈ s.log, txn ∈ l.transactions.activeIds))
  | .ask .start | .ask .begin | .ask (.commit _) | .ask (.abort _) | .ask .checkpoint
  | .ask .sync | .ask .readAll | .ask .close | .configure _ | .tick | .disturb _ | .crash =>
    .isTrue trivial

/-- A transaction begins with a number that is not the last one. -/
def Numbered (s : Session) : Event → Prop
  | .ask .begin => ∀ l ∈ s.log, l.nextTxn.toNat + 1 < 2 ^ 64
  | _ => True

/-- What an owned request does at the desk of an open log, or nothing. -/
theorem moves_of_owned (h : (s.ledger folder).InStep) {q : Request} (hq : q ≠ .start)
    (hown : Owned s (.ask q)) (refusal : Option Error) :
    ((s.ledger folder).serveRefused refusal q).2 = s.ledger folder ∨
    ∃ l, s.log = some l ∧ (s.ledger folder).desk = some l.desk ∧
      (s.ledger folder).Moves l.desk q ((s.ledger folder).serveRefused refusal q).2 ∧
      ∀ txn key value, q = .write txn key value → txn ≠ 0 → l.desk.phase? txn = some .active := by
  cases hl : s.log with
  | none =>
    have hdesk : (s.ledger folder).desk = none := by rw [ledger_of_none hl]
    left
    rw [Ledger.serveRefused_of_none hdesk refusal hq]
  | some l =>
    have hdesk : (s.ledger folder).desk = some l.desk := by rw [ledger_of_some hl]
    have hsorted := (h.desk l.desk hdesk).sorted
    refine .inr ⟨l, rfl, hdesk, Ledger.moves_serveRefused hdesk hsorted refusal hq, ?_⟩
    rintro txn key value rfl ht
    exact hsorted.mem_activeIds.mp (hown ht l hl)

/-- Requests whose writes are owned keep the ledger of a session in step. -/
theorem inStep_serveRefused (h : (s.ledger folder).InStep) {q : Request} (hq : q ≠ .start)
    (hown : Owned s (.ask q)) (hnum : Numbered s (.ask q)) (refusal : Option Error) :
    ((s.ledger folder).serveRefused refusal q).2.InStep := by
  rcases moves_of_owned h hq hown refusal with hsame | ⟨l, hl, hdesk, hmoves, hwrite⟩
  · rw [hsame]
    exact h
  · refine h.moves hdesk hmoves hwrite ?_
    rintro rfl
    exact hnum l hl

theorem upTo_serveRefused (h : (s.ledger folder).InStep) {n : Nat} (hn : (s.ledger folder).UpTo n)
    {q : Request} (hq : q ≠ .start) (hown : Owned s (.ask q)) (refusal : Option Error) :
    ((s.ledger folder).serveRefused refusal q).2.UpTo (n + 1) := by
  rcases moves_of_owned h hq hown refusal with hsame | ⟨l, -, hdesk, hmoves, hwrite⟩
  · rw [hsame]
    exact hn.mono (Nat.le_succ n)
  · exact hn.moves hdesk (h.desk l.desk hdesk) hmoves hwrite

theorem Rests.inStep_run (h : s.Rests folder D B) (hs : (s.ledger folder).InStep)
    {es : List Event}
    (ha : s.Along (fun s e => Allowed folder s e ∧ Owned s e ∧ Numbered s e) es) :
    ((s.run es).ledger folder).InStep := by
  refine h.ledger_run (A := fun s e => Owned s e ∧ Numbered s e) ?_ ?_ ?_ hs ha
  · rintro s q refusal ⟨hown, hnum⟩ hq hstep
    exact inStep_serveRefused hstep hq hown hnum refusal
  · exact fun L S hstep hp => hstep.opened hp
  · exact fun L S hstep hp => hstep.lost hp

/-- Each event brings in one number at most, so a run reaches the last one after that many. -/
theorem Rests.numbered (h : s.Rests folder D B) (hs : (s.ledger folder).InStep) {n : Nat}
    (hn : (s.ledger folder).UpTo n) {es : List Event}
    (ha : s.Along (fun s e => Allowed folder s e ∧ Owned s e) es)
    (hlt : n + es.length + 1 < 2 ^ 64) :
    s.Along (fun s e => Allowed folder s e ∧ Owned s e ∧ Numbered s e) es := by
  induction es generalizing s D B n with
  | nil => exact trivial
  | cons e es ih =>
    obtain ⟨⟨he, hown⟩, hrest⟩ := ha
    rw [List.length_cons] at hlt
    have hnum : Numbered s e := by
      unfold Numbered
      split
      · intro l hl
        have hnext := hn.next l.desk (by rw [ledger_of_some hl])
        have hdef : l.nextTxn = l.desk.transactions.nextId := rfl
        rw [hdef]
        omega
      · trivial
    obtain ⟨Y, T, hnext, -⟩ := h.step he
    have hone : s.Along (fun s e => Allowed folder s e ∧ Owned s e ∧ Numbered s e) [e] :=
      ⟨⟨he, hown, hnum⟩, trivial⟩
    have hstep : ((s.step e).ledger folder).InStep := h.inStep_run hs hone
    have hcount : ((s.step e).ledger folder).UpTo (n + 1) := by
      refine h.ledger_step he ?_ ?_ ?_ (hn.mono (Nat.le_succ n))
      · rintro q refusal rfl hq
        exact upTo_serveRefused hs hn hq hown refusal
      · intro S hp
        exact (hn.opened (by omega) hp).mono (Nat.le_succ n)
      · intro S hp
        exact (hn.lost hp).mono (Nat.le_succ n)
    exact ⟨⟨he, hown, hnum⟩, ih hnext hstep hcount hrest (by omega)⟩

/-- No run from an empty folder is so long that numbers of transactions start over, as long as its
events can be counted in a word. -/
theorem numbered_of_length {d : Disk} {settings : Settings} {es : List Event}
    (h : d.Holds folder []) (hv : settings.validate = .ok ()) (hf : settings.folder = folder)
    (ha : Along (fun s e => Allowed folder s e ∧ Owned s e) { disk := d, settings } es)
    (hlt : es.length + 1 < 2 ^ 64) :
    Along (fun s e => Allowed folder s e ∧ Owned s e ∧ Numbered s e) { disk := d, settings } es := by
  have hempty : Rests folder { disk := d, settings } (recordsIn []) [] :=
    ⟨hv, hf, .shut rfl h intact_nil⟩
  have hledger : ledger folder { disk := d, settings } = ⟨[], none⟩ := by
    rw [ledger_of_none rfl, hempty.stands.contents]
    rfl
  refine hempty.numbered (n := 0) ?_ ?_ ha (by omega)
  · rw [hledger]
    exact ⟨tidy_nil, nofun, nofun⟩
  · rw [hledger]
    exact ⟨nofun, nofun⟩

/-- The table and the log agree, if a write with the number of a transaction is only asked for while
that transaction is active. A transaction with a record in the log has one marker there at most, no
write of it comes behind the marker, and an open log has it active if and only if there is no
marker. New segments and writes may be refused, if nothing is left of them (`Shared`); otherwise a
marker can stand in the log of an active transaction (`Session.left_behind`). -/
theorem table_matches_log {d : Disk} {settings : Settings} {es : List Event}
    (h : d.Holds folder []) (hv : settings.validate = .ok ()) (hf : settings.folder = folder)
    (ha : Along (fun s e => Allowed folder s e ∧ Owned s e ∧ Numbered s e)
      { disk := d, settings } es) :
    let s := run { disk := d, settings } es
    let log := s.contents folder
    (∃ stored, Log.recordsOf s.disk folder = .ok stored ∧ stored <+: log) ∧
    ∀ txn, txn ≠ 0 → (∃ r ∈ log, r.txn = txn) →
      log.countP (·.decides txn) ≤ 1 ∧
      (∀ front m back, log = front ++ m :: back → m.decides txn = true →
        ∀ r ∈ back, r.kind = .write → r.txn ≠ txn) ∧
      ∀ l, s.log = some l →
        (txn ∈ l.transactions.activeIds ↔ ∀ m ∈ log, m.decides txn = false) := by
  intro s log
  have hempty : Rests folder { disk := d, settings } (recordsIn []) [] :=
    ⟨hv, hf, .shut rfl h intact_nil⟩
  have hfirst : (ledger folder { disk := d, settings }).InStep := by
    rw [ledger_of_none rfl, hempty.stands.contents]
    exact ⟨tidy_nil, nofun, nofun⟩
  have hstep : (s.ledger folder).InStep := hempty.inStep_run hfirst ha
  obtain ⟨S, T, hlast⟩ := hempty.run (ha.mono fun s e he => he.1)
  refine ⟨⟨S, hlast.stands.recordsOf, ?_⟩, ?_⟩
  · rw [show log = S ++ T from hlast.stands.contents]
    exact List.prefix_append S T
  · intro txn ht hcarried
    refine ⟨hstep.tidy.countP_le_one ht, ?_, ?_⟩
    · intro front m back hlog hm r hr _
      exact hstep.tidy.ne_of_marker ht hlog hm hr
    · intro l hl
      have hdesk : (s.ledger folder).desk = some l.desk := by rw [ledger_of_some hl]
      have hreflects := hstep.desk l.desk hdesk
      exact hreflects.sorted.mem_activeIds.trans (hreflects.active txn ht hcarried)

/-- A crash loses the rollback marker of transaction 1, which is then committed; the commit of
transaction 2 is refused by a full device, with two writes of it in the buffer. -/
def lostMarker : List Event :=
  [.ask .start, .ask .begin, .ask (.write 1 [3] [4]), .ask .sync, .ask (.abort 1), .crash,
    .ask .start, .ask (.commit 1), .ask .begin, .ask (.write 2 [5] [6]), .ask (.write 2 [7] []),
    .ask (.commit 2)]

theorem table_matches_log_lostMarker :
    let s := run { disk := fullSecond, settings := shortSegments } lostMarker
    (fullSecond.Holds "wal" [] ∧ shortSegments.validate = .ok () ∧ shortSegments.folder = "wal" ∧
      Along (fun s e => Allowed "wal" s e ∧ Owned s e ∧ Numbered s e)
        { disk := fullSecond, settings := shortSegments } lostMarker) ∧
    s.contents "wal" = [Record.write 1 1 [3] [4], Record.marker .txnCommit 2 1,
      Record.write 3 2 [5] [6], Record.write 4 2 [7] []] ∧
    ∀ l, s.log = some l → 1 ∉ l.transactions.activeIds ∧ 2 ∈ l.transactions.activeIds := by
  intro s
  have hshared : Along (Shared "wal") { disk := fullSecond, settings := shortSegments }
      lostMarker := by simp [lostMarker, Shared]
  have hallowed := allowed_of_length holds_fullSecond rfl rfl hshared (by decide)
  have howned : Along Owned { disk := fullSecond, settings := shortSegments } lostMarker := by
    decide +kernel
  have ha := numbered_of_length holds_fullSecond rfl rfl (hallowed.and howned) (by decide)
  have hlog : s.contents "wal" = [Record.write 1 1 [3] [4], Record.marker .txnCommit 2 1,
      Record.write 3 2 [5] [6], Record.write 4 2 [7] []] := by decide +kernel
  refine ⟨⟨holds_fullSecond, rfl, rfl, ha⟩, hlog, ?_⟩
  obtain ⟨-, htable⟩ := table_matches_log holds_fullSecond rfl rfl ha
  intro l hl
  obtain ⟨-, -, hfirst⟩ := htable 1 (by decide) (by rw [hlog]; decide)
  obtain ⟨-, -, hsecond⟩ := htable 2 (by decide) (by rw [hlog]; decide)
  rw [hlog] at hfirst hsecond
  refine ⟨fun hmem => ?_, (hsecond l hl).mpr (by decide)⟩
  exact absurd ((hfirst l hl).mp hmem) (by decide)

end Session

end SegmentLog
