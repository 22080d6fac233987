import SegmentLog.Proofs.Commands

/-!
What a user of the command line sees. From the commands given so far, what they came to and the
record that each write added, one can tell what a read lists: the records of granted writes and those
of granted writes in transactions that a granted commit ended (`Shell.listed`). The records in the
folder and the ticket keep to that account from one command to the next (`Shell.Accounts.does`).
-/

namespace SegmentLog.Shell

/-! ## Transcripts -/

/-- What is seen of an invocation: its command if the words ask for one, what it came to, and the
records it added. -/
structure Visit where
  command : Option Command
  result : Result
  added : List Record

def startedText (id : UInt64) : String := lines [s!"Started new transaction {id}"]

namespace Visit

def granted (v : Visit) : Bool := v.result.exit = 0

/-- A transaction was begun. -/
def begins (v : Visit) : Bool := v.granted && v.command = some .beginTx

/-- Whether the open transaction was committed or aborted, if it was ended. -/
def ends (v : Visit) : Option Bool :=
  if v.granted then
    match v.command with
    | some .commit => some true
    | some .abort => some false
    | _ => none
  else none

/-- The records that are to be listed, if the transaction that is open is committed or is not. -/
def lists (v : Visit) (committed : Bool) : List Record :=
  if v.granted then
    match v.command with
    | some (.write _ _) => v.added
    | some (.txWrite _ _) => if committed then v.added else []
    | _ => []
  else []

end Visit

/-- Whether the transaction that is open before some visits is committed by them, or by what comes
after them. -/
def ending (after : Bool) : List Visit → Bool
  | [] => after
  | v :: rest => v.ends.getD (ending after rest)

/-- The records that some visits list, if what comes after them commits the transaction that they
leave open or does not. -/
def listedWith (after : Bool) : List Visit → List Record
  | [] => []
  | v :: rest => v.lists (ending after rest) ++ listedWith after rest

/-- The records that a read after some visits is to list: those of granted writes, and those of
granted writes in a transaction that a later visit commits before any other ends it. -/
def listed (visits : List Visit) : List Record := listedWith false visits

/-- Whether a transaction is open after some visits: one was begun and not ended since. -/
def openIn (visits : List Visit) : Bool :=
  visits.foldl (fun isOpen v => if v.begins then true else isOpen && v.ends.isNone) false

/-- The visit that began the last transaction. -/
def lastBegun? (visits : List Visit) : Option Visit := (visits.filter (·.begins)).getLast?

section Append

variable (b : Bool) (past : List Visit) (v : Visit)

theorem ending_append : ending b (past ++ [v]) = ending (v.ends.getD b) past := by
  induction past with
  | nil => rfl
  | cons u rest ih => rw [List.cons_append, ending, ending, ih]

theorem listedWith_append :
    listedWith b (past ++ [v]) = listedWith (v.ends.getD b) past ++ v.lists b := by
  induction past with
  | nil => simp [listedWith, ending]
  | cons u rest ih =>
    rw [List.cons_append, listedWith, listedWith, ih, ending_append, List.append_assoc]

theorem openIn_append :
    openIn (past ++ [v]) = if v.begins then true else openIn past && v.ends.isNone := by
  simp [openIn]

theorem lastBegun?_append :
    lastBegun? (past ++ [v]) = if v.begins then some v else lastBegun? past := by
  unfold lastBegun?
  rw [List.filter_append]
  cases hb : v.begins <;> simp [hb]

end Append

/-! ## The account -/

/-- Whether a record is listed, if the open transaction is committed or is not. -/
def listsAs (committed : Bool) (log : List Record) (t : Ticket) (r : Record) : Bool :=
  if t.isOpen = true ∧ r.txn = t.last then committed else shown log r

theorem listsAs_of_closed {t : Ticket} (ht : t.isOpen = false) (b : Bool) (log : List Record) :
    listsAs b log t = shown log := by
  funext r
  simp [listsAs, ht]

/-- The records of a log and the ticket beside it are as the visits so far tell. -/
structure Accounts (past : List Visit) (log : List Record) (t : Ticket) : Prop where
  tidy : Tidy log
  numbered : ∀ r ∈ log, r.txn ≤ t.last
  undecided : t.isOpen = true → t.last ≠ 0 ∧ ∀ m ∈ log, m.decides t.last = false
  opened : openIn past = t.isOpen
  listed : ∀ b, listedWith b past = log.filter (listsAs b log t)
  begun : ∀ u ∈ past, u.begins = true → ∃ id, id ≤ t.last ∧ u.result.output = startedText id
  named : t.isOpen = true → ∃ u, lastBegun? past = some u ∧ u.result.output = startedText t.last

theorem accounts_nil : Accounts [] [] {} :=
  ⟨tidy_nil, nofun, nofun, rfl, fun _ => rfl, nofun, nofun⟩

namespace Accounts

variable {past : List Visit} {log : List Record} {t : Ticket} {v : Visit}

/-- What begins and ends no transaction leaves the ticket and its story. -/
theorem mem_append (h : Accounts past log t) {last : UInt64} (hle : t.last ≤ last)
    (hv : v.begins = true → ∃ id, id ≤ last ∧ v.result.output = startedText id) :
    ∀ u ∈ past ++ [v], u.begins = true → ∃ id, id ≤ last ∧ u.result.output = startedText id := by
  intro u hu hb
  rcases List.mem_append.mp hu with hu | hu
  · obtain ⟨id, hid, hout⟩ := h.begun u hu hb
    exact ⟨id, UInt64.le_trans hid hle, hout⟩
  · obtain rfl := List.mem_singleton.mp hu
    exact hv hb

section Steady

variable (h : Accounts past log t) (hb : v.begins = false) (he : v.ends = none)
include h hb he

theorem steady {log' : List Record} (htidy : Tidy log') (hnumbered : ∀ r ∈ log', r.txn ≤ t.last)
    (hundecided : t.isOpen = true → ∀ m ∈ log', m.decides t.last = false)
    (hlisted : ∀ b, log.filter (listsAs b log t) ++ v.lists b = log'.filter (listsAs b log' t)) :
    Accounts (past ++ [v]) log' t := by
  refine ⟨htidy, hnumbered, fun ho => ⟨(h.undecided ho).1, hundecided ho⟩, ?_, ?_,
    h.mem_append (UInt64.le_refl _) fun hbegins => ?_, fun ho => ?_⟩
  · rw [openIn_append, hb, he, h.opened]
    simp
  · intro b
    rw [listedWith_append, he, Option.getD_none, h.listed, hlisted]
  · rw [hb] at hbegins
    cases hbegins
  · rw [lastBegun?_append, hb]
    exact h.named ho

theorem quiet (hl : ∀ b, v.lists b = []) : Accounts (past ++ [v]) log t :=
  h.steady hb he h.tidy h.numbered (fun ho => (h.undecided ho).2) fun b => by
    rw [hl, List.append_nil]

/-- A write that adds a record, which may be one of the open transaction. -/
theorem add {r : Record} (hw : r.kind = .write) (hle : r.txn ≤ t.last)
    (hr : r.txn ≠ 0 → ∀ m ∈ log, m.decides r.txn = false)
    (hl : ∀ b, v.lists b = [r].filter (listsAs b log t)) :
    Accounts (past ++ [v]) (log ++ [r]) t := by
  have hnone (txn : UInt64) : r.decides txn = false := by simp [Record.decides, hw]
  refine h.steady hb he (h.tidy.append (.inl hw) hr) ?_ ?_ ?_
  · intro r' hr'
    rcases List.mem_append.mp hr' with hr' | hr'
    · exact h.numbered r' hr'
    · exact List.mem_singleton.mp hr' ▸ hle
  · intro ho m hm
    rcases List.mem_append.mp hm with hm | hm
    · exact (h.undecided ho).2 m hm
    · exact List.mem_singleton.mp hm ▸ hnone _
  · intro b
    have hsame : listsAs b (log ++ [r]) t = listsAs b log t := by
      unfold listsAs
      rw [shown_append_of_undecided (by simp [hw]) (by simp [hw])]
    rw [hl, hsame, List.filter_append]

theorem write {r : Record} (hw : r.kind = .write) (hz : r.txn = 0) (hl : ∀ b, v.lists b = [r]) :
    Accounts (past ++ [v]) (log ++ [r]) t := by
  have hle : r.txn ≤ t.last := by
    rw [hz, UInt64.le_iff_toNat_le]
    exact Nat.zero_le _
  refine h.add hb he hw hle (fun hne => absurd hz hne) fun b => ?_
  have hne : ¬ (t.isOpen = true ∧ r.txn = t.last) := by
    rintro ⟨ho, ht⟩
    exact (h.undecided ho).1 (ht.symm.trans hz)
  have hseen : listsAs b log t r = true := by
    rw [listsAs, if_neg hne]
    simp [shown, hw, hz]
  rw [hl, List.filter_cons_of_pos hseen, List.filter_nil]

theorem txWrite (hopen : t.isOpen = true) {r : Record} (hw : r.kind = .write)
    (ht : r.txn = t.last) (hl : ∀ b, v.lists b = if b then [r] else []) :
    Accounts (past ++ [v]) (log ++ [r]) t := by
  have hle : r.txn ≤ t.last := ht ▸ UInt64.le_refl _
  refine h.add hb he hw hle (fun _ => ht ▸ (h.undecided hopen).2) fun b => ?_
  have hseen : listsAs b log t r = b := by rw [listsAs, if_pos ⟨hopen, ht⟩]
  rw [hl, List.filter_singleton, hseen]
  cases b <;> rfl

end Steady

/-- A transaction begins, with a number that no record carries. -/
theorem begins (h : Accounts past log t) (hopen : t.isOpen = false) {id : UInt64}
    (hid : t.last < id) (hnew : ∀ r ∈ log, r.txn < id) (hb : v.begins = true)
    (he : v.ends = none) (hl : ∀ b, v.lists b = []) (hout : v.result.output = startedText id) :
    Accounts (past ++ [v]) log ⟨true, id⟩ := by
  have hle := UInt64.le_of_lt hid
  refine ⟨h.tidy, fun r hr => UInt64.le_of_lt (hnew r hr), fun _ => ⟨?_, ?_⟩, ?_, ?_,
    h.mem_append hle fun _ => ⟨id, UInt64.le_refl _, hout⟩, fun _ => ⟨v, ?_, hout⟩⟩
  · rintro rfl
    exact absurd hid (by simp)
  · intro m hm
    have hne : m.txn ≠ id := UInt64.ne_of_lt (hnew m hm)
    simp [Record.decides, hne]
  · rw [openIn_append, hb, if_pos rfl]
  · intro b
    rw [listedWith_append, he, Option.getD_none, h.listed, hl, List.append_nil,
      listsAs_of_closed hopen]
    refine List.filter_congr fun r hr => ?_
    have hne : r.txn ≠ id := UInt64.ne_of_lt (hnew r hr)
    rw [listsAs, if_neg (by simp [hne])]
  · rw [lastBegun?_append, hb, if_pos rfl]

/-- The open transaction ends, and what it wrote is listed as it ended. -/
theorem ends (h : Accounts past log t) {log' : List Record} {b : Bool} (htidy : Tidy log')
    (hnumbered : ∀ r ∈ log', r.txn ≤ t.last) (hb : v.begins = false)
    (he : v.ends = some b) (hl : ∀ b, v.lists b = [])
    (hlisted : log.filter (listsAs b log t) = log'.filter (shown log')) :
    Accounts (past ++ [v]) log' { t with isOpen := false } := by
  refine ⟨htidy, hnumbered, nofun, ?_, ?_, h.mem_append (UInt64.le_refl _) fun hbegins => ?_,
    nofun⟩
  · rw [openIn_append, hb, he]
    simp
  · intro b'
    rw [listedWith_append, he, Option.getD_some, h.listed, hl, List.append_nil, hlisted,
      listsAs_of_closed rfl]
  · rw [hb] at hbegins
    cases hbegins

/-- A transaction without records leaves nothing to list. -/
theorem filter_discard (h : Accounts past log t) (hopen : t.isOpen = true)
    (hu : unresolved log t.last = false) (b : Bool) :
    log.filter (listsAs b log t) = log.filter (shown log) := by
  obtain ⟨ht, hundecided⟩ := h.undecided hopen
  refine List.filter_congr fun r hr => ?_
  have hne : r.txn ≠ t.last := by
    intro he
    rw [(h.tidy.unresolved_iff ht).mpr ⟨⟨r, hr, he⟩, hundecided⟩] at hu
    cases hu
  rw [listsAs, if_neg fun hc => hne hc.2]

/-- In the open transaction there is nothing but writes. -/
theorem kind_of_open (h : Accounts past log t) (hopen : t.isOpen = true) {r : Record}
    (hr : r ∈ log) (hid : r.txn = t.last) : r.kind = .write := by
  obtain ⟨ht, hundecided⟩ := h.undecided hopen
  rcases h.tidy.kinds r hr with hw | ⟨-, hz⟩ | hd
  · exact hw
  · exact absurd (hid.symm.trans hz) ht
  · rw [hid] at hd
    exact absurd (hd.symm.trans (hundecided r hr)) (by simp)

/-- As long as it is open, nothing of a transaction is shown. -/
theorem filter_open (h : Accounts past log t) :
    log.filter (listsAs false log t) = log.filter (shown log) := by
  refine List.filter_congr fun r hr => ?_
  by_cases hmine : t.isOpen = true ∧ r.txn = t.last
  · obtain ⟨hopen, hid⟩ := hmine
    obtain ⟨ht, hundecided⟩ := h.undecided hopen
    have hoccurs : outcome? log t.last ≠ some .txnCommit := by
      intro ho
      obtain ⟨m, hm, hd, -⟩ := exists_of_outcome? ho
      exact absurd (hd.symm.trans (hundecided m hm)) (by simp)
    rw [listsAs, if_pos ⟨hopen, hid⟩]
    simp [shown, h.kind_of_open hopen hr hid, hid, ht, hoccurs]
  · rw [listsAs, if_neg hmine]

/-- With the marker of its outcome the records of a transaction are shown or not. -/
theorem filter_mark (h : Accounts past log t) (hopen : t.isOpen = true) {m : Record}
    (hm : m.decides t.last = true) :
    log.filter (listsAs (m.kind = .txnCommit) log t) =
      (log ++ [m]).filter (shown (log ++ [m])) := by
  obtain ⟨ht, hundecided⟩ := h.undecided hopen
  have hmarker : shown (log ++ [m]) m = false := by
    simp only [Record.decides, decide_eq_true_eq] at hm
    rcases hm.2 with hk | hk <;> simp [shown, hk]
  have hnone : [m].filter (shown (log ++ [m])) = [] := by simp [hmarker]
  rw [List.filter_append, hnone, List.append_nil]
  refine List.filter_congr fun r hr => ?_
  by_cases hid : r.txn = t.last
  · have hw := h.kind_of_open hopen hr hid
    have hshown : shown (log ++ [m]) r = decide (m.kind = .txnCommit) := by
      simp [shown, hw, hid, ht, outcome?_append, outcome?_singleton, hm]
    rw [listsAs, if_pos ⟨hopen, hid⟩, hshown]
  · have hne : m.decides r.txn = false := by
      have hmid := Record.txn_of_decides hm
      simp [Record.decides, hmid, Ne.symm hid]
    rw [listsAs, if_neg fun hc => hid hc.2, shown_append_of_not_decides hne]

end Accounts

/-! ## What commands do to it -/

def Outcome.result : Outcome → Result
  | ⟨.ok _, output⟩ => { exit := 0, output }
  | ⟨.error e, output⟩ => { exit := 1, output, error := some e }

namespace Visit

variable {v : Visit} {output : String} {c : Command} {kind : Kind}

theorem granted_of_ok (hr : v.result = Outcome.result ⟨.ok (), output⟩) : v.granted = true := by
  rw [granted, hr]
  rfl

theorem granted_of_error {e : Error} (hr : v.result = Outcome.result ⟨.error e, output⟩) :
    v.granted = false := by
  rw [granted, hr]
  rfl

theorem ends_of_ending (hg : v.granted = true) (hc : v.command = some c)
    (hk : c.ending? = some kind) :
    v.begins = false ∧ v.ends = some (decide (kind = .txnCommit)) ∧ ∀ b, v.lists b = [] := by
  cases c with
  | commit =>
    cases hk
    simp [begins, ends, lists, hg, hc]
  | abort =>
    cases hk
    simp [begins, ends, lists, hg, hc]
  | _ => cases hk

end Visit

theorem Command.decides_of_ending {c : Command} {kind : Kind} (hk : c.ending? = some kind)
    (n txn : UInt64) : (Record.marker kind n txn).decides txn = true := by
  cases c with
  | commit =>
    cases hk
    simp [Record.decides, Record.marker]
  | abort =>
    cases hk
    simp [Record.decides, Record.marker]
  | _ => cases hk

/-- What commands do keeps the account. -/
theorem Accounts.does {past : List Visit} {log log' : List Record} {t t' : Ticket} {v : Visit}
    {c : Command} {outcome : Outcome} (h : Accounts past log t) (hd : Does log t c outcome log' t')
    (hc : v.command = some c) (hr : v.result = outcome.result) (ha : log' = log ++ v.added) :
    Accounts (past ++ [v]) log' t' := by
  cases hd with
  | refused c e output =>
    have hg := Visit.granted_of_error hr
    refine h.quiet ?_ ?_ ?_
    · simp [Visit.begins, hg]
    · simp [Visit.ends, hg]
    · simp [Visit.lists, hg]
  | write key value n =>
    have hg := Visit.granted_of_ok hr
    have hadded := List.append_cancel_left ha
    refine h.write ?_ ?_ rfl rfl ?_
    · simp [Visit.begins, hc]
    · simp [Visit.ends, hc]
    · simp [Visit.lists, hg, hc, ← hadded]
  | read =>
    refine h.quiet ?_ ?_ ?_
    · simp [Visit.begins, hc]
    · simp [Visit.ends, hc]
    · simp [Visit.lists, hc]
  | status output =>
    refine h.quiet ?_ ?_ ?_
    · simp [Visit.begins, hc]
    · simp [Visit.ends, hc]
    · simp [Visit.lists, hc]
  | begins hopen id hid hnew =>
    have hg := Visit.granted_of_ok hr
    have hlt : t.last < id := by
      rw [UInt64.lt_iff_toNat_lt]
      omega
    refine h.begins hopen hlt hnew ?_ ?_ ?_ (congrArg Result.output hr)
    · simp [Visit.begins, hg, hc]
    · simp [Visit.ends, hc]
    · simp [Visit.lists, hc]
  | txWrite hopen key value n =>
    have hg := Visit.granted_of_ok hr
    have hadded := List.append_cancel_left ha
    refine h.txWrite ?_ ?_ hopen rfl rfl ?_
    · simp [Visit.begins, hc]
    · simp [Visit.ends, hc]
    · simp [Visit.lists, hg, hc, ← hadded]
  | @ends c kind hending hopen hu n output =>
    obtain ⟨hb, he, hl⟩ := Visit.ends_of_ending (Visit.granted_of_ok hr) hc hending
    have hdecides := Command.decides_of_ending hending n t.last
    refine h.ends (h.tidy.append (.inr (.inr hdecides)) fun _ => (h.undecided hopen).2) ?_ hb he hl
      (h.filter_mark hopen hdecides)
    intro r hr'
    rcases List.mem_append.mp hr' with hr' | hr'
    · exact h.numbered r hr'
    · rw [List.mem_singleton.mp hr']
      exact UInt64.le_refl _
  | @discards c kind hending hopen hu output =>
    obtain ⟨hb, he, hl⟩ := Visit.ends_of_ending (Visit.granted_of_ok hr) hc hending
    exact h.ends h.tidy h.numbered hb he hl (h.filter_discard hopen hu _)

end SegmentLog.Shell
