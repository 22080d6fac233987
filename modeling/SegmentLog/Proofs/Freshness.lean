import SegmentLog.Proofs.LiveTable
import SegmentLog.Proofs.Repair

/-!
Whether a transaction that begins is new to the log. The next number lies above all that an opening
found and all that were given out since, but writes may name any transaction, and the number takes
no notice of them (`Desk.Knows`). So a transaction that begins is carried by a record exactly if it
was written to since the opening (`Session.begun_fresh_iff`). Then a commit shows what was written
before the transaction began; otherwise it shows only what was written later. An opening counts the
writes of others in.
-/

namespace SegmentLog

/-- An unresolved transaction has a record. -/
theorem exists_of_unresolved {log : List Record} {txn : UInt64} (h : unresolved log txn = true) :
    ∃ r ∈ log, r.txn = txn := by
  induction log using List.reverseRecOn with
  | nil => cases h
  | append_singleton log r ih =>
    rw [unresolved_append] at h
    by_cases hid : r.txn = txn
    · exact ⟨r, by simp, hid⟩
    · have hopens : r.opens txn = false := by simp [Record.opens, hid]
      have hself : r.decides txn = false := by simp [Record.decides, hid]
      simp only [hopens, hself, Bool.false_eq_true, if_false] at h
      obtain ⟨r', hr', he⟩ := ih h
      exact ⟨r', List.mem_append_left _ hr', he⟩

def Request.written (q : Request) (answer : Answer) (ts : List UInt64) : List UInt64 :=
  match q with
  | .start => []
  | .write txn _ _ => if answer.isFailure then ts else ts ++ [txn]
  | _ => ts

theorem Request.written_of_ne {q : Request} (hs : q ≠ .start)
    (hw : ∀ txn key value, q ≠ .write txn key value) (answer : Answer) (ts : List UInt64) :
    q.written answer ts = ts := by
  cases q with
  | start => exact absurd rfl hs
  | write txn key value => exact absurd rfl (hw txn key value)
  | _ => rfl

/-! ## Desks -/

/-- What the next number of a desk says of a log: it lies above the number of every record, but for
the transactions that were written to since the opening, and all of those have records. -/
structure Desk.Knows (k : Desk) (ts : List UInt64) (log : List Record) : Prop where
  sorted : k.transactions.Sorted
  positive : 0 < k.transactions.nextId
  below : ∀ txn, k.phase? txn = some .active → txn < k.transactions.nextId
  numbered : ∀ r ∈ log, r.txn < k.transactions.nextId ∨ r.txn ∈ ts
  written : ∀ txn ∈ ts, ∃ r ∈ log, r.txn = txn

namespace Desk

variable {k : Desk} {ts : List UInt64} {log : List Record}

theorem knows_ofRecords (hroom : ∀ r ∈ log, r.txn.toNat + 1 < 2 ^ 64) :
    (ofRecords log).Knows [] log := by
  obtain ⟨hpositive, hnumbered⟩ := lt_nextId_ofRecords hroom
  refine ⟨sorted_ofRecords log, hpositive, ?_, fun r hr => .inl (hnumbered r hr), by simp⟩
  intro txn ha
  rw [phase?_ofRecords] at ha
  split at ha
  · rename_i hu
    obtain ⟨r, hr, rfl⟩ := exists_of_unresolved hu
    exact hnumbered r hr
  · cases ha

theorem Knows.begin (h : k.Knows ts log) (hroom : k.transactions.nextId.toNat + 1 < 2 ^ 64) :
    Knows { k with transactions := k.transactions.start.2 } ts log := by
  have hlt : k.transactions.nextId < k.transactions.nextId + 1 := by
    rw [UInt64.lt_iff_toNat_lt, toNat_succ hroom]
    omega
  refine ⟨h.sorted.start, UInt64.lt_trans h.positive hlt, ?_, ?_, h.written⟩
  · intro txn ha
    have hphase : phase? { k with transactions := k.transactions.start.2 } txn =
        if k.transactions.nextId = txn then some .active else k.phase? txn :=
      Transactions.phase?_start k.transactions txn
    rw [hphase] at ha
    split at ha
    · rename_i hid
      exact hid ▸ hlt
    · exact UInt64.lt_trans (h.below txn ha) hlt
  · exact fun r hr => (h.numbered r hr).imp_left fun hr => UInt64.lt_trans hr hlt

/-- One more record of a transaction with a number below the next one, and a table in which not more
transactions are active. -/
theorem Knows.add (h : k.Knows ts log) {table : Transactions} (hs : table.Sorted)
    (hn : table.nextId = k.transactions.nextId)
    (ha : ∀ txn, table.phase? txn = some .active → k.phase? txn = some .active) {r : Record}
    (hr : r.txn < k.transactions.nextId) (last : UInt64) :
    Knows { k with lastSequence := last, transactions := table } ts (log ++ [r]) := by
  refine ⟨hs, hn ▸ h.positive, fun txn ht => hn ▸ h.below txn (ha txn ht), ?_, ?_⟩
  · intro r' hr'
    show r'.txn < table.nextId ∨ r'.txn ∈ ts
    rw [hn]
    rcases List.mem_append.mp hr' with hr' | hr'
    · exact h.numbered r' hr'
    · exact .inl (List.mem_singleton.mp hr' ▸ hr)
  · intro txn ht
    obtain ⟨r', hr', he⟩ := h.written txn ht
    exact ⟨r', List.mem_append_left _ hr', he⟩

/-- A write may name any transaction, which is then one that was written to. -/
theorem Knows.write (h : k.Knows ts log) (r : Record) (last : UInt64) :
    Knows { k with lastSequence := last } (ts ++ [r.txn]) (log ++ [r]) := by
  refine ⟨h.sorted, h.positive, h.below, ?_, ?_⟩
  · intro r' hr'
    rw [List.mem_append]
    rcases List.mem_append.mp hr' with hr' | hr'
    · exact (h.numbered r' hr').imp_right .inl
    · exact .inr (.inr (by simp [List.mem_singleton.mp hr']))
  · intro txn ht
    rcases List.mem_append.mp ht with ht | ht
    · obtain ⟨r', hr', he⟩ := h.written txn ht
      exact ⟨r', List.mem_append_left _ hr', he⟩
    · exact ⟨r, by simp, (List.mem_singleton.mp ht).symm⟩

/-- The next number is carried by a record exactly if it was written to. -/
theorem Knows.next_iff (h : k.Knows ts log) :
    (∃ r ∈ log, r.txn = k.transactions.nextId) ↔ k.transactions.nextId ∈ ts := by
  constructor
  · rintro ⟨r, hr, he⟩
    rcases h.numbered r hr with hlt | hts
    · exact absurd (he ▸ hlt) (UInt64.lt_irrefl _)
    · exact he ▸ hts
  · exact h.written _

end Desk

/-! ## Ledgers -/

namespace Ledger

variable {l : Ledger} {k : Desk} {q : Request} {ts : List UInt64} {refusal : Option Error}

theorem serveRefused_write (hk : l.desk = some k) (refusal : Option Error) (txn : UInt64)
    (key value : Octets) :
    (∃ e, l.serveRefused refusal (.write txn key value) = (.failed e, l)) ∨
    l.serveRefused refusal (.write txn key value) = (.number (k.lastSequence + 1),
      ⟨l.records ++ [Record.write (k.lastSequence + 1) txn key value],
        some { k with lastSequence := k.lastSequence + 1 }⟩) := by
  obtain ⟨records, desk⟩ := l
  obtain rfl : desk = some k := hk
  rw [serveRefused, Fate.onDesk_eq rfl, Desk.write]
  rcases k.add_eq refusal (Record.write (k.lastSequence + 1) txn key value) with ⟨e, h⟩ | h
  · rw [h]
    exact .inl ⟨e, by simp [Answer.of]⟩
  · rw [h]
    exact .inr rfl

/-- The numbers in a ledger leave one for the next transaction, and an open desk knows them. -/
structure Known (ts : List UInt64) (l : Ledger) : Prop where
  room : ∀ r ∈ l.records, r.txn.toNat + 1 < 2 ^ 64
  desk : ∀ k, l.desk = some k → k.Knows ts l.records

theorem Known.opened (h : l.Known ts) {log : List Record} (hp : log <+: l.records) :
    Known [] ⟨log, some (Desk.ofRecords log)⟩ := by
  have hroom : ∀ r ∈ log, r.txn.toNat + 1 < 2 ^ 64 := fun r hr => h.room r (hp.mem hr)
  refine ⟨hroom, ?_⟩
  rintro k ⟨⟩
  exact Desk.knows_ofRecords hroom

theorem Known.lost (h : l.Known ts) {log : List Record} (hp : log <+: l.records)
    (us : List UInt64) : Known us ⟨log, none⟩ :=
  ⟨fun r hr => h.room r (hp.mem hr), nofun⟩

/-- A record of a transaction with a number below the next one. -/
theorem Known.add (h : l.Known ts) {k k' : Desk} {r : Record} (hr : r.txn < k.transactions.nextId)
    (hk' : k'.Knows ts (l.records ++ [r])) : Known ts ⟨l.records ++ [r], some k'⟩ := by
  refine ⟨?_, by rintro _ ⟨⟩; exact hk'⟩
  intro r' hr'
  rcases List.mem_append.mp hr' with hr' | hr'
  · exact h.room r' hr'
  · have hlt := UInt64.lt_iff_toNat_lt.mp hr
    have hbound := k.transactions.nextId.toNat_lt
    rw [List.mem_singleton.mp hr']
    omega

theorem Known.moves (h : l.Known ts) (hk : l.desk = some k) {l' : Ledger} (hm : l.Moves k q l')
    (hbegin : q = .begin → k.transactions.nextId.toNat + 1 < 2 ^ 64)
    (hwrite : ∀ txn key value, q ≠ .write txn key value) : l'.Known ts := by
  have hdesk := h.desk k hk
  have herase {txn : UInt64} (other : UInt64)
      (hp : (k.transactions.erase txn).phase? other = some .active) :
      k.phase? other = some .active := by
    rw [Transactions.phase?_erase] at hp
    split at hp
    · cases hp
    · exact hp
  cases hm with
  | stays q => exact h
  | begins =>
    refine ⟨h.room, ?_⟩
    rintro _ ⟨⟩
    exact hdesk.begin (hbegin rfl)
  | writes txn key value => exact absurd rfl (hwrite txn key value)
  | checks =>
    refine h.add hdesk.positive ?_
    refine hdesk.add hdesk.sorted rfl (fun _ => id) ?_ _
    exact hdesk.positive
  | commits txn ha =>
    refine h.add (hdesk.below txn ha) ?_
    refine hdesk.add (hdesk.sorted.erase txn) rfl herase ?_ _
    exact hdesk.below txn ha
  | aborts txn ha =>
    refine h.add (hdesk.below txn ha) ?_
    refine hdesk.add (hdesk.sorted.erase txn) rfl herase ?_ _
    exact hdesk.below txn ha
  | closes closed =>
    refine ⟨h.room, ?_⟩
    rintro _ ⟨⟩
    exact ⟨hdesk.sorted, hdesk.positive, hdesk.below, hdesk.numbered, hdesk.written⟩

theorem Known.serve (h : l.Known ts) (hq : q ≠ .start) (refusal : Option Error)
    (hbegin : q = .begin → ∀ k, l.desk = some k → k.transactions.nextId.toNat + 1 < 2 ^ 64)
    (hwrite : ∀ txn key value, q = .write txn key value → txn.toNat + 1 < 2 ^ 64) :
    (l.serveRefused refusal q).2.Known (q.written (l.serveRefused refusal q).1 ts) := by
  cases hk : l.desk with
  | none =>
    rw [serveRefused_of_none hk refusal hq]
    exact ⟨h.room, by rw [hk]; nofun⟩
  | some k =>
    have hdesk := h.desk k hk
    by_cases hw : ∃ txn key value, q = .write txn key value
    · obtain ⟨txn, key, value, rfl⟩ := hw
      rcases serveRefused_write hk refusal txn key value with ⟨e, hserve⟩ | hserve
      · rw [hserve]
        exact h
      · rw [hserve]
        refine ⟨?_, ?_⟩
        · intro r hr
          rcases List.mem_append.mp hr with hr | hr
          · exact h.room r hr
          · exact List.mem_singleton.mp hr ▸ hwrite txn key value rfl
        · rintro _ ⟨⟩
          exact hdesk.write (Record.write (k.lastSequence + 1) txn key value) _
    · have hother : ∀ txn key value, q ≠ .write txn key value :=
        fun txn key value he => hw ⟨txn, key, value, he⟩
      rw [Request.written_of_ne hq hother]
      exact h.moves hk (moves_serveRefused hk hdesk.sorted refusal hq) (fun hb => hbegin hb k hk)
        hother

end Ledger

namespace Session

variable {folder : String} {s : Session} {D B : List Record} {ts : List UInt64} {txn : UInt64}

/-! ## Runs -/

/-- The transactions written to since the last opening, after one more event. -/
def writtenAfter (s : Session) (ts : List UInt64) : Event → List UInt64
  | .ask q => q.written (s.serve q).1 ts
  | _ => ts

def written (s : Session) (ts : List UInt64) : List Event → List UInt64
  | [] => ts
  | e :: rest => (s.step e).written (s.writtenAfter ts e) rest

/-- A transaction that begins or is written to leaves a number for the next one. -/
def Counted (s : Session) : Event → Prop
  | .ask .begin => ∀ l ∈ s.log, l.nextTxn.toNat + 1 < 2 ^ 64
  | .ask (.write txn _ _) => txn.toNat + 1 < 2 ^ 64
  | _ => True

instance (s : Session) : (e : Event) → Decidable (Counted s e)
  | .ask .begin => inferInstanceAs (Decidable (∀ l ∈ s.log, l.nextTxn.toNat + 1 < 2 ^ 64))
  | .ask (.write txn _ _) => inferInstanceAs (Decidable (txn.toNat + 1 < 2 ^ 64))
  | .ask .start | .ask (.commit _) | .ask (.abort _) | .ask .checkpoint | .ask .sync
  | .ask .readAll | .ask .close | .configure _ | .tick | .disturb _ | .crash => .isTrue trivial

theorem Rests.known_step (h : s.Rests folder D B) (hs : (s.ledger folder).Known ts) {e : Event}
    (he : Allowed folder s e) (hc : Counted s e) :
    ((s.step e).ledger folder).Known (s.writtenAfter ts e) := by
  cases e with
  | ask q =>
    by_cases hq : q = .start
    · subst hq
      obtain ⟨S, hp, hafter | hafter⟩ := h.ledger_start
      · rw [hafter]
        exact hs.opened hp
      · rw [hafter]
        exact hs.lost hp _
    · obtain ⟨refusal, hanswer, hafter, -⟩ := h.ledger_ask hq he
      rw [hafter, writtenAfter, hanswer]
      refine hs.serve hq refusal ?_ ?_
      · rintro rfl k hk
        cases hl : s.log with
        | none =>
          rw [ledger_of_none hl] at hk
          cases hk
        | some l =>
          rw [ledger_of_some hl] at hk
          cases hk
          exact hc l hl
      · rintro txn key value rfl
        exact hc
  | crash =>
    obtain ⟨S, hp, hafter⟩ := h.ledger_crash
    rw [hafter]
    exact hs.lost hp _
  | configure settings =>
    rw [h.ledger_quiet he.1 (by simp) (by simp)]
    exact hs
  | tick =>
    rw [h.ledger_quiet he.1 (by simp) (by simp)]
    exact hs
  | disturb d =>
    rw [h.ledger_quiet he.1 (by simp) (by simp)]
    exact hs

theorem Rests.known_run (h : s.Rests folder D B) (hs : (s.ledger folder).Known ts)
    {es : List Event} (ha : s.Along (fun s e => Allowed folder s e ∧ Counted s e) es) :
    ((s.run es).ledger folder).Known (s.written ts es) := by
  induction es generalizing s D B ts with
  | nil => exact hs
  | cons e es ih =>
    obtain ⟨⟨he, hc⟩, hrest⟩ := ha
    obtain ⟨Y, T, hnext, -⟩ := h.step he
    exact ih hnext (h.known_step hs he hc) hrest

/-- A transaction that begins has the next number. -/
theorem next_of_begin (h : (s.serve .begin).1 = .number txn) :
    ∃ l, s.log = some l ∧ l.nextTxn = txn := by
  cases hl : s.log with
  | none =>
    rw [serve_of_none hl (by simp)] at h
    cases h
  | some l =>
    refine ⟨l, rfl, ?_⟩
    rw [serve, onLog_eq hl] at h
    unfold Log.begin at h
    split at h
    · cases h
    · cases h
      rfl

theorem gained_begin (s : Session) : s.gained (.ask .begin) = [] := by
  unfold gained added
  cases s.log with
  | none => rfl
  | some l => simp [Request.record?]

/-- The records of a session were there before or came with the events. -/
theorem Rests.mem_contents_run (h : s.Rests folder D B) {es : List Event}
    (ha : s.Along (Allowed folder) es) {r : Record} (hr : r ∈ (s.run es).contents folder) :
    r ∈ s.contents folder ∨ r ∈ s.gains es := by
  induction es generalizing s D B with
  | nil => exact .inl hr
  | cons e es ih =>
    obtain ⟨Y, T, hnext, hmem⟩ := h.step ha.1
    rcases ih hnext ha.2 hr with hr | hr
    · rw [hnext.stands.contents, List.append_assoc, List.mem_append] at hr
      rw [h.stands.contents, gains, List.mem_append, List.mem_append]
      rcases hr with hr | hr
      · exact .inl (.inl hr)
      · exact (hmem r hr).imp .inr .inl
    · exact .inr (List.mem_append_right _ hr)

/-- Whether a transaction that begins is new. Some record carries its number exactly if a write to
that number was granted since the last opening. If none was, every record of the transaction in the
log later on was asked for after it began. A granted commit shows every write of the transaction
that is in the log then, unless it is asked to abort: also those from before it began. New segments
and writes may be refused, with nothing left of them (`Shared`). -/
theorem begun_fresh_iff {d : Disk} {vs : List Volume} {settings : Settings}
    {es later : List Event} (h : d.Holds settings.folder vs)
    (hopen : (opening d settings).log.isSome)
    (hroom : ∀ r ∈ (survey vs).records, r.txn.toNat + 1 < 2 ^ 64)
    (ha : (opening d settings).Along (fun s e => Allowed settings.folder s e ∧ Counted s e) es)
    (hbegin : (((opening d settings).run es).serve .begin).1 = .number txn)
    (hlater : (((opening d settings).run es).step (.ask .begin)).Along (Allowed settings.folder)
      later) :
    let s := (opening d settings).run es
    let next := s.step (.ask .begin)
    let last := next.run later
    let log (s : Session) := s.contents settings.folder
    ((∃ r ∈ log s, r.txn = txn) ↔ txn ∈ (opening d settings).written [] es) ∧
    (txn ∉ (opening d settings).written [] es →
      ∀ r ∈ log last, r.txn = txn → r ∈ next.gains later) ∧
    (∀ e₁ e₂, later = e₁ ++ .ask (.commit txn) :: e₂ →
      ((next.run e₁).serve (.commit txn)).1 = .done → .ask (.abort txn) ∉ e₂ →
      ∀ r ∈ log (next.run e₁), r.kind = .write → r.txn = txn →
        r ∈ (log last).filter (shown (log last))) := by
  intro s next last log
  obtain ⟨hfirst, l₀, hl₀, hdesk₀⟩ := rests_opening h hopen
  have hknown : (s.ledger settings.folder).Known ((opening d settings).written [] es) := by
    refine hfirst.known_run ?_ ha
    rw [ledger_of_some hl₀, hdesk₀, hfirst.stands.contents, List.append_nil]
    have hfound : Ledger.Known [] ⟨(survey vs).records, none⟩ := ⟨hroom, nofun⟩
    exact hfound.opened (List.prefix_refl _)
  obtain ⟨S, T, hrests⟩ := hfirst.run (ha.mono fun s e he => he.1)
  obtain ⟨l, hl, rfl⟩ := next_of_begin hbegin
  have hdesk : (s.ledger settings.folder).desk = some l.desk := by rw [ledger_of_some hl]
  have hfresh : (∃ r ∈ log s, r.txn = l.nextTxn) ↔
      l.nextTxn ∈ (opening d settings).written [] es := (hknown.desk _ hdesk).next_iff
  have hallowed : Allowed settings.folder s (.ask .begin) := by
    refine ⟨trivial, wraps_of_same fun l₁ l₂ hl₁ hl₂ => ?_⟩
    rw [serve, onLog_eq hl₁] at hl₂
    cases hl₂
    exact l₁.currentSegment_begin
  obtain ⟨S', T', hnext, hrecords, -, -⟩ := hrests.ask (by simp) hallowed
  refine ⟨hfresh, ?_, ?_⟩
  · intro hnew r hr he
    refine (hnext.mem_contents_run hlater hr).resolve_left fun hold => hnew (hfresh.mp ⟨r, ?_, he⟩)
    rw [hnext.stands.contents, hrecords, gained_begin, List.append_nil] at hold
    rwa [← hrests.stands.contents] at hold
  · rintro e₁ e₂ rfl hdone habort r hr hwrite he
    obtain ⟨hbefore, hrest⟩ := along_append.mp hlater
    obtain ⟨S₁, T₁, hcommitting⟩ := hnext.run hbefore
    have hshown := hcommitting.shown_of_commit hrest hdone habort hr hwrite he
    rwa [← run_cons, ← run_append] at hshown

/-! ## Numbers of others -/

/-- Another process owns transactions 5 and 7. The first write is found by an opening after a crash;
the second comes after that opening, and then a transaction begins. -/
def othersWrite : List Event :=
  [.ask (.write 5 [107] [118]), .ask .sync, .crash, .ask .start, .ask (.write 7 [120] []),
    .ask .begin]

/-- The write that the opening found is passed by. The one after it is met: a transaction begins that
has it, and its commit shows it. -/
theorem begun_fresh_iff_othersWrite :
    let opened := opening emptyFolder (.ofFolder "wal")
    let s := opened.run othersWrite
    let last := (s.step (.ask .begin)).run [.ask (.commit 7)]
    (emptyFolder.Holds "wal" [] ∧ opened.log.isSome ∧
      (∀ r ∈ (survey []).records, r.txn.toNat + 1 < 2 ^ 64) ∧
      opened.Along (fun s e => Allowed "wal" s e ∧ Counted s e) othersWrite ∧
      (s.serve .begin).1 = .number 7 ∧
      (s.step (.ask .begin)).Along (Allowed "wal") [.ask (.commit 7)]) ∧
    (∃ r ∈ s.contents "wal", r.txn = 7) ∧
    Record.write 2 7 [120] [] ∈ (last.contents "wal").filter (shown (last.contents "wal")) := by
  intro opened s last
  have hholds : emptyFolder.Holds (Settings.ofFolder "wal").folder [] := holds_emptyFolder
  have hshared : Along (Shared "wal") { disk := emptyFolder, settings := .ofFolder "wal" }
      (.ask .start :: othersWrite ++ [.ask .begin, .ask (.commit 7)]) := by
    simp [othersWrite, Shared]
  have hallowed := allowed_of_length holds_emptyFolder rfl rfl hshared (by decide)
  obtain ⟨⟨-, hbefore⟩, -, hlater⟩ := along_append.mp hallowed
  have hopen : opened.log.isSome := by decide +kernel
  have hcounted : opened.Along Counted othersWrite := by decide +kernel
  have ha := hbefore.and hcounted
  have hbegin : (s.serve .begin).1 = .number 7 := by decide +kernel
  obtain ⟨hiff, -, hshown⟩ := begun_fresh_iff hholds hopen (by simp [survey]) ha hbegin hlater
  refine ⟨⟨holds_emptyFolder, hopen, by simp [survey], ha, hbegin, hlater⟩, ?_, ?_⟩
  · exact hiff.mpr (by decide +kernel)
  · exact hshown [] [] rfl (by decide +kernel) (by simp) _ (by decide +kernel) rfl rfl

/-- A transaction is written to before it begins, and its commit shows that write. -/
theorem begins_written :
    let s := run { disk := emptyFolder, settings := .ofFolder "wal" }
      [.ask .start, .ask (.write 1 [107] [118])]
    let last := (s.step (.ask .begin)).step (.ask (.commit 1))
    (s.serve .begin).1 = .number 1 ∧
    s.contents "wal" = [Record.write 1 1 [107] [118]] ∧
    ((s.step (.ask .begin)).serve (.commit 1)).1 = .done ∧
    (last.serve .readAll).1 = .records [Record.write 1 1 [107] [118]] := by
  decide +kernel

end Session

end SegmentLog
