import SegmentLog.Proofs.Codec
import SegmentLog.Proofs.Ledger

/-!
The table of live transactions. Every change of the table is a change of the phase of one
transaction (`phase?_start`, `phase?_setPhase`, `phase?_erase`, `phase?_restore`). It is kept in the
order of the numbers (`Transactions.Sorted`), so that a change that is taken back leaves the table as
it was (`Sorted.revertCommit_startCommit`, `Sorted.restore_takeForAbort`). A replay leaves
the transactions active that the records leave unresolved (`Replay.mem_active`), and at an open desk
a commit or an abort is granted exactly to active ones (`Desk.settles_commit`,
`Desk.settles_abort`).
-/

namespace SegmentLog

/-! ## Phases -/

namespace Transactions

theorem find?_put (t : Transaction) (live : List Transaction) (id : UInt64) :
    (put t live).find? (·.id = id) = if t.id = id then some t else live.find? (·.id = id) := by
  induction live with
  | nil => by_cases ht : t.id = id <;> simp [put, ht]
  | cons u rest ih =>
    unfold put
    split
    · by_cases ht : t.id = id <;> simp [ht]
    · split
      · rename_i he
        by_cases ht : t.id = id
        · simp [ht]
        · simp [ht, ← he]
      · rename_i hne
        by_cases hu : u.id = id
        · have ht : t.id ≠ id := fun ht => hne (ht.trans hu.symm)
          simp [hu, ht]
        · simpa [hu] using ih

theorem phase?_put (n : UInt64) (t : Transaction) (live : List Transaction) (id : UInt64) :
    phase? ⟨n, put t live⟩ id =
      if t.id = id then some t.phase else phase? ⟨n, live⟩ id := by
  unfold phase? find?
  simp only [find?_put]
  split <;> rfl

theorem phase?_start (ts : Transactions) (id : UInt64) :
    ts.start.2.phase? id = if ts.nextId = id then some .active else ts.phase? id :=
  phase?_put _ _ _ _

theorem phase?_restore (ts : Transactions) (t : Transaction) (id : UInt64) :
    (ts.restore t).phase? id = if t.id = id then some .active else ts.phase? id :=
  phase?_put _ _ _ _

theorem phase?_erase (ts : Transactions) (id other : UInt64) :
    (ts.erase id).phase? other = if other = id then none else ts.phase? other := by
  unfold phase? find? erase
  rw [List.find?_filter]
  split
  · rename_i h
    subst h
    simp
  · rename_i h
    congr 2
    funext t
    by_cases ht : t.id = other
    · simp [ht, h]
    · simp [ht]

theorem phase?_setPhase (ts : Transactions) (id other : UInt64) (phase : Phase) :
    (ts.setPhase id phase).phase? other =
      if other = id then (ts.phase? id).map fun _ => phase else ts.phase? other := by
  unfold phase? find? setPhase
  induction ts.live with
  | nil => simp
  | cons t rest ih =>
    by_cases ht : t.id = other
    · by_cases ho : other = id
      · simp [ht, ho]
      · simp [ht, ho]
    · by_cases hi : t.id = id
      · have ho : other ≠ id := fun ho => ht (hi.trans ho.symm)
        simpa [hi, ho, Ne.symm ho] using ih
      · simpa [ht, hi] using ih

theorem phase?_ofActive (n : UInt64) (active : List UInt64) (id : UInt64) :
    (ofActive n active).phase? id = if id ∈ active then some .active else none := by
  unfold phase? find? ofActive
  induction active with
  | nil => simp
  | cons other rest ih =>
    by_cases ho : other = id
    · simp [ho]
    · simpa [ho, Ne.symm ho] using ih

/-! ## Order -/

/-- The table holds its transactions by ascending number, each once. -/
def Sorted (ts : Transactions) : Prop := ts.live.Pairwise (·.id < ·.id)

theorem mem_put {t u : Transaction} {live : List Transaction} (h : u ∈ put t live) :
    u = t ∨ u ∈ live := by
  induction live with
  | nil => exact .inl (List.mem_singleton.mp h)
  | cons v rest ih =>
    unfold put at h
    split at h
    · exact List.mem_cons.mp h
    · split at h
      · rcases List.mem_cons.mp h with h | h
        · exact .inl h
        · exact .inr (List.mem_cons_of_mem _ h)
      · rcases List.mem_cons.mp h with h | h
        · exact .inr (h ▸ List.mem_cons_self)
        · exact (ih h).imp_right (List.mem_cons_of_mem _)

theorem lt_of_not_lt {a b : UInt64} (hlt : ¬ a < b) (hne : a ≠ b) : b < a :=
  UInt64.lt_of_le_of_ne (UInt64.not_lt.mp hlt) (Ne.symm hne)

theorem pairwise_put {live : List Transaction} (h : live.Pairwise (·.id < ·.id))
    (t : Transaction) : (put t live).Pairwise (·.id < ·.id) := by
  induction live with
  | nil => exact List.pairwise_singleton _ t
  | cons u rest ih =>
    obtain ⟨hu, hrest⟩ := List.pairwise_cons.mp h
    unfold put
    split
    · rename_i hlt
      refine List.pairwise_cons.mpr ⟨?_, h⟩
      intro v hv
      rcases List.mem_cons.mp hv with rfl | hv
      · exact hlt
      · exact UInt64.lt_trans hlt (hu v hv)
    · rename_i hlt
      split
      · rename_i heq
        exact List.pairwise_cons.mpr ⟨fun v hv => heq ▸ hu v hv, hrest⟩
      · rename_i hne
        refine List.pairwise_cons.mpr ⟨?_, ih hrest⟩
        intro v hv
        rcases mem_put hv with rfl | hv
        · exact lt_of_not_lt hlt hne
        · exact hu v hv

/-- A transaction that is taken out of its place can be put back there. -/
theorem put_filter {live : List Transaction} (h : live.Pairwise (·.id < ·.id)) {t : Transaction}
    (ht : t ∈ live) : put t (live.filter (·.id ≠ t.id)) = live := by
  induction live with
  | nil => cases ht
  | cons u rest ih =>
    obtain ⟨hu, hrest⟩ := List.pairwise_cons.mp h
    rcases List.mem_cons.mp ht with rfl | ht
    · -- what is behind it has greater numbers, so that all of it stays
      have hkeep : rest.filter (·.id ≠ t.id) = rest := by
        apply List.filter_eq_self.mpr
        intro v hv
        simpa using (UInt64.ne_of_lt (hu v hv)).symm
      have hdrop : (t :: rest).filter (·.id ≠ t.id) = rest.filter (·.id ≠ t.id) := by simp
      rw [hdrop, hkeep]
      cases rest with
      | nil => rfl
      | cons v rest => rw [put, if_pos (hu v List.mem_cons_self)]
    · have hlt := hu t ht
      have hstay : (u :: rest).filter (·.id ≠ t.id) = u :: rest.filter (·.id ≠ t.id) := by
        simp [UInt64.ne_of_lt hlt]
      rw [hstay, put, if_neg (UInt64.lt_asymm hlt), if_neg (UInt64.ne_of_lt hlt).symm,
        ih hrest ht]

theorem setPhase_setPhase (ts : Transactions) (id : UInt64) (first last : Phase) :
    (ts.setPhase id first).setPhase id last = ts.setPhase id last := by
  have hsame : ∀ t ∈ ts.live,
      (if (if t.id = id then { t with phase := first } else t).id = id
        then { (if t.id = id then { t with phase := first } else t) with phase := last }
        else if t.id = id then { t with phase := first } else t) =
      if t.id = id then { t with phase := last } else t := by
    intro t _
    by_cases hid : t.id = id <;> simp [hid]
  unfold setPhase
  rw [List.map_map]
  exact congrArg (Transactions.mk ts.nextId) (List.map_congr_left hsame)

/-- A transaction that goes off the table takes its phase with it. -/
theorem erase_setPhase (ts : Transactions) (id : UInt64) (phase : Phase) :
    (ts.setPhase id phase).erase id = ts.erase id := by
  unfold setPhase erase
  simp only
  congr 1
  induction ts.live with
  | nil => rfl
  | cons t rest ih =>
    by_cases hid : t.id = id
    · simpa [hid] using ih
    · simpa [hid] using ih

namespace Sorted

variable {ts : Transactions} (h : ts.Sorted)
include h

theorem start : ts.start.2.Sorted := pairwise_put h _

theorem restore (t : Transaction) : (ts.restore t).Sorted := pairwise_put h _

theorem erase (id : UInt64) : (ts.erase id).Sorted := List.Pairwise.filter _ h

theorem setPhase (id : UInt64) (phase : Phase) : (ts.setPhase id phase).Sorted := by
  refine List.Pairwise.map _ ?_ h
  intro t u htu
  split <;> split <;> exact htu

/-- Two entries of one number are one entry. -/
theorem eq_of_id {t u : Transaction} (ht : t ∈ ts.live) (hu : u ∈ ts.live) (hid : t.id = u.id) :
    t = u := by
  have hnodup : (ts.live.map (·.id)).Nodup :=
    List.Pairwise.map _ (fun _ _ hlt => UInt64.ne_of_lt hlt) h
  exact List.inj_on_of_nodup_map hnodup ht hu hid

/-- The phase of a number is that of the only entry that has it. -/
theorem phase?_eq_some {id : UInt64} {phase : Phase} :
    ts.phase? id = some phase ↔ { id, phase } ∈ ts.live := by
  constructor
  · intro hp
    obtain ⟨t, ht, rfl⟩ := Option.map_eq_some_iff.mp hp
    have hid : t.id = id := by simpa using List.find?_some ht
    exact hid ▸ List.mem_of_find?_eq_some ht
  · intro hmem
    cases hf : ts.find? id with
    | none =>
      have hnone := List.find?_eq_none.mp hf _ hmem
      simp at hnone
    | some t =>
      have hid : t.id = id := by simpa using List.find?_some hf
      rw [phase?, hf, h.eq_of_id (List.mem_of_find?_eq_some hf) hmem hid]
      rfl

theorem mem_activeIds {id : UInt64} : id ∈ ts.activeIds ↔ ts.phase? id = some .active := by
  rw [h.phase?_eq_some, activeIds, List.mem_map]
  constructor
  · rintro ⟨t, ht, rfl⟩
    obtain ⟨hmem, hphase⟩ := List.mem_filter.mp ht
    have hactive : t.phase = .active := of_decide_eq_true hphase
    exact hactive ▸ hmem
  · intro hmem
    exact ⟨_, List.mem_filter.mpr ⟨hmem, rfl⟩, rfl⟩

theorem setPhase_self {id : UInt64} {phase : Phase} (hp : ts.phase? id = some phase) :
    ts.setPhase id phase = ts := by
  have hmem := h.phase?_eq_some.mp hp
  have hsame : ∀ t ∈ ts.live, (if t.id = id then { t with phase } else t) = t := by
    intro t ht
    split
    · rename_i hid
      exact h.eq_of_id hmem ht hid.symm ▸ rfl
    · rfl
  rw [Transactions.setPhase, List.map_congr_left hsame, List.map_id']

/-- A commit that is taken back leaves the table as it was. -/
theorem revertCommit_startCommit {id : UInt64} {started : Transactions}
    (hs : ts.startCommit id = .ok started) : started.revertCommit id = ts := by
  unfold startCommit at hs
  split at hs
  · rename_i hactive
    cases hs
    rw [revertCommit, setPhase_setPhase, h.setPhase_self hactive]
  · cases hs

/-- An abort that is taken back leaves the table as it was. -/
theorem restore_takeForAbort {id : UInt64} {t : Transaction} {taken : Transactions}
    (ht : ts.takeForAbort id = .ok (t, taken)) : taken.restore t = ts := by
  unfold takeForAbort at ht
  split at ht
  · rename_i hactive
    cases ht
    have hput := put_filter h (h.phase?_eq_some.mp hactive)
    unfold Transactions.restore Transactions.erase
    rw [hput]
  · cases ht

end Sorted

theorem sorted_ofActive {active : List UInt64} (h : active.Pairwise (· < ·)) (n : UInt64) :
    (ofActive n active).Sorted :=
  List.Pairwise.map _ (fun _ _ h => h) h

end Transactions

/-! ## What a replay leaves active -/

/-- A record that a replay begins a transaction with. -/
def Record.opens (r : Record) (txn : UInt64) : Bool :=
  r.txn = txn ∧ (r.kind = .txnBegin ∨ r.kind = .write ∧ txn ≠ 0)

/-- Whether a list of records leaves a transaction without an outcome. -/
def unresolved (log : List Record) (txn : UInt64) : Bool :=
  log.foldl (fun live r => if r.opens txn then true else if r.decides txn then false else live) false

theorem unresolved_append (log : List Record) (r : Record) (txn : UInt64) :
    unresolved (log ++ [r]) txn =
      if r.opens txn then true else if r.decides txn then false else unresolved log txn := by
  simp [unresolved]

namespace Replay

theorem mem_insertId {id other : UInt64} {active : List UInt64} :
    other ∈ insertId id active ↔ other = id ∨ other ∈ active := by
  induction active with
  | nil => simp [insertId]
  | cons x rest ih =>
    unfold insertId
    split
    · simp
    · split
      · rename_i he
        simp [he]
      · rw [List.mem_cons, ih, List.mem_cons, or_left_comm]

theorem ofRecords_append (log : List Record) (r : Record) :
    ofRecords (log ++ [r]) = step (ofRecords log) r := by
  simp [ofRecords]

theorem active_append (log : List Record) (r : Record) :
    (ofRecords (log ++ [r])).active = track (ofRecords log).active r := by
  rw [ofRecords_append]
  rfl

theorem pairwise_insertId {active : List UInt64} (h : active.Pairwise (· < ·)) (id : UInt64) :
    (insertId id active).Pairwise (· < ·) := by
  induction active with
  | nil => exact List.pairwise_singleton _ id
  | cons other rest ih =>
    obtain ⟨hother, hrest⟩ := List.pairwise_cons.mp h
    unfold insertId
    split
    · rename_i hlt
      refine List.pairwise_cons.mpr ⟨?_, h⟩
      intro x hx
      rcases List.mem_cons.mp hx with rfl | hx
      · exact hlt
      · exact UInt64.lt_trans hlt (hother x hx)
    · rename_i hlt
      split
      · exact h
      · rename_i hne
        refine List.pairwise_cons.mpr ⟨?_, ih hrest⟩
        intro x hx
        rcases mem_insertId.mp hx with rfl | hx
        · exact Transactions.lt_of_not_lt hlt hne
        · exact hother x hx

theorem pairwise_track {active : List UInt64} (h : active.Pairwise (· < ·)) (r : Record) :
    (track active r).Pairwise (· < ·) := by
  unfold track
  split
  · exact pairwise_insertId h r.txn
  · exact h.filter _
  · exact h.filter _
  · split
    · exact h
    · exact pairwise_insertId h r.txn
  · exact h

/-- A replay finds the unresolved transactions in ascending order. -/
theorem pairwise_active (log : List Record) : (ofRecords log).active.Pairwise (· < ·) := by
  induction log using List.reverseRecOn with
  | nil => exact List.Pairwise.nil
  | append_singleton log r ih =>
    rw [active_append]
    exact pairwise_track ih r

theorem mem_track {active : List UInt64} {r : Record} {txn : UInt64} :
    txn ∈ track active r ↔
      if r.opens txn then True else if r.decides txn then False else txn ∈ active := by
  unfold track
  cases hk : r.kind with
  | write =>
    by_cases ht : r.txn = txn
    · by_cases hz : txn = 0
      · simp [Record.opens, Record.decides, hk, ht, hz]
      · simp [Record.opens, hk, ht, hz, mem_insertId]
    · have hsame : (txn ∈ if r.txn = 0 then active else insertId r.txn active) ↔ txn ∈ active := by
        split
        · rfl
        · simp [mem_insertId, Ne.symm ht]
      simpa [Record.opens, Record.decides, hk, ht] using hsame
  | _ =>
    by_cases ht : r.txn = txn <;>
      simp [Record.opens, Record.decides, hk, ht, mem_insertId, eq_comm (a := txn)]

/-- A replay finds the transactions that the records leave without an outcome. -/
theorem mem_active {log : List Record} {txn : UInt64} :
    txn ∈ (ofRecords log).active ↔ unresolved log txn = true := by
  induction log using List.reverseRecOn with
  | nil => simp [ofRecords, unresolved]
  | append_singleton log r ih =>
    rw [active_append, mem_track, unresolved_append, ih]
    by_cases ho : r.opens txn
    · simp [ho]
    · by_cases hd : r.decides txn <;> simp [ho, hd]

end Replay

/-! ## Transactions at a desk -/

theorem Error.ne_notActive_of_isIo {e : Error} (h : e.isIo = true) (txn : UInt64) :
    e ≠ .notActive txn := by
  rintro rfl
  cases h

namespace Desk

variable {k : Desk} {ts : Transactions} {refused granted : Transactions → Transactions} {r : Record}

/-- The phase of a transaction at a desk. -/
def phase? (k : Desk) (txn : UInt64) : Option Phase := k.transactions.phase? txn

theorem phase?_ofRecords (log : List Record) (txn : UInt64) :
    (ofRecords log).phase? txn = if unresolved log txn then some .active else none := by
  unfold phase? ofRecords
  rw [Transactions.phase?_ofActive]
  simp only [Replay.mem_active]

theorem phase?_add (k : Desk) (refusal : Option Error) (r : Record) (txn : UInt64) :
    (k.add refusal r).2.1.phase? txn = k.phase? txn := by
  rcases k.add_eq refusal r with ⟨e, h⟩ | h
  · rw [h]
  · rw [h]
    rfl

theorem addOutcome_of_closed (hc : k.closed = true) :
    k.addOutcome none ts refused granted r =
      (.error .closed, { k with transactions := refused ts }, []) := by
  have hadd : { k with transactions := ts }.add none r =
      (.error .closed, { k with transactions := ts }, []) := add_of_closed hc
  simp only [addOutcome, hadd]

theorem addOutcome_of_open (hc : k.closed = false) (hr : r.Fits) :
    k.addOutcome none ts refused granted r =
      (.ok (), { k with lastSequence := r.sequence, transactions := granted ts }, [r]) := by
  have hadd : { k with transactions := ts }.add none r =
      (.ok r.sequence, { k with lastSequence := r.sequence, transactions := ts }, [r]) :=
    add_of_grant hc (Record.encode_of_fits hr)
  simp only [addOutcome, hadd]

/-- An outcome is granted to a transaction that is active at a desk that is not closed, and takes it
off the table. Otherwise nothing changes. -/
def Settles (k : Desk) (txn : UInt64) (entry : Entry Unit) : Prop :=
  (k.phase? txn = some .active ∧ k.closed = false ∧ entry.1 = .ok () ∧
    ∀ other, entry.2.1.phase? other = if other = txn then none else k.phase? other) ∨
  (¬ (k.phase? txn = some .active ∧ k.closed = false) ∧ (∃ e, entry.1 = .error e) ∧
    ∀ other, entry.2.1.phase? other = k.phase? other)

/-- Whatever the table is meanwhile, an outcome leaves it without the transaction, or as it was. -/
theorem settles_addOutcome {txn : UInt64} (ha : k.phase? txn = some .active) (hr : r.Fits)
    (hrefused : ∀ other, (refused ts).phase? other = k.phase? other)
    (hgranted : ∀ other, (granted ts).phase? other = if other = txn then none else k.phase? other) :
    k.Settles txn (k.addOutcome none ts refused granted r) := by
  cases hc : k.closed with
  | true =>
    rw [addOutcome_of_closed hc]
    exact .inr ⟨by simp [hc], ⟨_, rfl⟩, hrefused⟩
  | false =>
    rw [addOutcome_of_open hc hr]
    exact .inl ⟨ha, hc, rfl, hgranted⟩

theorem settles_commit (k : Desk) (txn : UInt64) : k.Settles txn (k.commit none txn) := by
  unfold Desk.commit Transactions.startCommit
  by_cases ha : k.transactions.phase? txn = some .active
  · rw [if_pos ha]
    refine settles_addOutcome ha ⟨Nat.zero_le _, Nat.zero_le _⟩ ?_ ?_
    · intro other
      rw [Transactions.revertCommit, Transactions.phase?_setPhase, Transactions.phase?_setPhase,
        Transactions.phase?_setPhase, if_pos rfl, ha]
      split
      · rename_i he
        rw [he, phase?, ha]
        rfl
      · rfl
    · intro other
      rw [Transactions.finishCommit, Transactions.phase?_erase, Transactions.phase?_setPhase]
      split <;> rfl
  · rw [if_neg ha]
    exact .inr ⟨fun h => ha h.1, ⟨_, rfl⟩, fun _ => rfl⟩

theorem settles_abort (k : Desk) (txn : UInt64) : k.Settles txn (k.abort none txn) := by
  unfold Desk.abort Transactions.takeForAbort
  by_cases ha : k.transactions.phase? txn = some .active
  · rw [if_pos ha]
    refine settles_addOutcome ha ⟨Nat.zero_le _, Nat.zero_le _⟩ ?_ ?_
    · intro other
      rw [Transactions.phase?_restore, Transactions.phase?_erase]
      by_cases he : txn = other
      · rw [if_pos he, ← he, phase?, ha]
      · rw [if_neg he, if_neg (Ne.symm he)]
        rfl
    · intro other
      rw [Transactions.phase?_erase]
      rfl
  · rw [if_neg ha]
    exact .inr ⟨fun h => ha h.1, ⟨_, rfl⟩, fun _ => rfl⟩

end Desk

end SegmentLog
