import SegmentLog.Proofs.LiveTable
import SegmentLog.Proofs.Repair

/-!
Sequence numbers. A log that began in an empty folder carries the numbers from 1 on without a gap
(`Dense`), and the open log knows the last of them (`Ledger.Counts`). Requests keep this, and what an
opening finds or a crash leaves is a prefix. While no log is open the last segment may be cut short
(`Disk.Tears`). The session then is torn, and nothing but an opening changes that: a strict one is
refused, the others go on behind the last whole record (`Session.Torn`). So whenever a log is open
its records are numbered from 1 on, and the next one gets the number behind them
(`Session.numbered_from_one`).
-/

namespace SegmentLog

/-! ## Numbers without a gap -/

/-- Records that carry the numbers from 1 on, one after the other. -/
def Dense (log : List Record) : Prop :=
  log.map (·.sequence.toNat) = List.range' 1 log.length

theorem dense_nil : Dense [] := rfl

theorem dense_append_iff {log : List Record} {r : Record} :
    Dense (log ++ [r]) ↔ Dense log ∧ r.sequence.toNat = log.length + 1 := by
  unfold Dense
  rw [List.map_append, List.length_append, List.length_singleton, List.range'_1_concat,
    List.map_singleton, Nat.add_comm 1]
  constructor
  · intro h
    obtain ⟨hfront, hlast⟩ := List.append_inj' h rfl
    exact ⟨hfront, List.singleton_inj.mp hlast⟩
  · rintro ⟨hfront, hlast⟩
    rw [hfront, hlast]

theorem Dense.of_isPrefix {log front : List Record} (h : Dense log) (hp : front <+: log) :
    Dense front := by
  obtain ⟨back, rfl⟩ := hp
  rw [Dense, List.map_append, List.length_append, ← List.range'_append_1] at h
  exact List.append_inj_left h (by simp)

namespace Replay

theorem lastSequence_append (log : List Record) (r : Record) :
    (ofRecords (log ++ [r])).lastSequence =
      if (ofRecords log).lastSequence ≤ r.sequence then r.sequence
      else (ofRecords log).lastSequence := by
  rw [ofRecords_append]
  rfl

end Replay

/-- The greatest number on a record is the number of records. -/
theorem Dense.lastSequence {log : List Record} (h : Dense log) :
    (Replay.ofRecords log).lastSequence.toNat = log.length := by
  induction log using List.reverseRecOn with
  | nil => rfl
  | append_singleton log r ih =>
    obtain ⟨hfront, hr⟩ := dense_append_iff.mp h
    have hle : (Replay.ofRecords log).lastSequence ≤ r.sequence := by
      rw [UInt64.le_iff_toNat_le, ih hfront, hr]
      exact Nat.le_succ _
    rw [Replay.lastSequence_append, if_pos hle, hr, List.length_append, List.length_singleton]

/-! ## Ledgers -/

namespace Ledger

/-- The records of a ledger carry the numbers from 1 on, at most so many, and an open desk knows the
last one. -/
structure Counts (n : Nat) (l : Ledger) : Prop where
  dense : Dense l.records
  length : l.records.length ≤ n
  sorted : l.Sorted
  last : ∀ k, l.desk = some k → k.lastSequence.toNat = l.records.length

variable {l : Ledger} {k : Desk} {q : Request} {n : Nat}

theorem Counts.mono (h : l.Counts n) : l.Counts (n + 1) :=
  ⟨h.dense, h.length.trans (Nat.le_succ n), h.sorted, h.last⟩

theorem Counts.opened (h : l.Counts n) {log : List Record} (hp : log <+: l.records) :
    Counts n ⟨log, some (Desk.ofRecords log)⟩ := by
  have hdense := h.dense.of_isPrefix hp
  refine ⟨hdense, hp.length_le.trans h.length, ?_, ?_⟩
  · rintro _ ⟨⟩
    exact Desk.sorted_ofRecords log
  · rintro _ ⟨⟩
    exact hdense.lastSequence

theorem Counts.lost (h : l.Counts n) {log : List Record} (hp : log <+: l.records) :
    Counts n ⟨log, none⟩ :=
  ⟨h.dense.of_isPrefix hp, hp.length_le.trans h.length, nofun, nofun⟩

/-- The number behind the last one. -/
theorem Counts.next (h : l.Counts n) (hk : l.desk = some k) (hn : n + 1 < 2 ^ 64) :
    (k.lastSequence + 1).toNat = l.records.length + 1 := by
  have hlast := h.last k hk
  have hlength := h.length
  rw [toNat_succ (by omega), hlast]

theorem Counts.add (h : l.Counts n) (hk : l.desk = some k) (hn : n + 1 < 2 ^ 64)
    {table : Transactions} (hs : table.Sorted) {r : Record} (hr : r.sequence = k.lastSequence + 1) :
    Counts (n + 1) ⟨l.records ++ [r],
      some { k with lastSequence := k.lastSequence + 1, transactions := table }⟩ := by
  have hnext := h.next hk hn
  refine ⟨dense_append_iff.mpr ⟨h.dense, hr ▸ hnext⟩, ?_, ?_, ?_⟩
  · simpa using h.length
  · rintro _ ⟨⟩
    exact hs
  · rintro _ ⟨⟩
    simpa using hnext

/-- Whatever a request does, numbers stay without a gap. -/
theorem Counts.moves (h : l.Counts n) (hk : l.desk = some k) (hn : n + 1 < 2 ^ 64) {l' : Ledger}
    (hm : l.Moves k q l') : l'.Counts (n + 1) := by
  have hsorted := h.sorted k hk
  cases hm with
  | stays q => exact h.mono
  | begins =>
    refine ⟨h.dense, h.length.trans (Nat.le_succ n), ?_, ?_⟩
    · rintro _ ⟨⟩
      exact hsorted.start
    · rintro _ ⟨⟩
      exact h.last k hk
  | writes txn key value => exact h.add hk hn hsorted rfl
  | checks => exact h.add hk hn hsorted rfl
  | commits txn ha => exact h.add hk hn (hsorted.erase txn) rfl
  | aborts txn ha => exact h.add hk hn (hsorted.erase txn) rfl
  | closes closed =>
    refine ⟨h.dense, h.length.trans (Nat.le_succ n), ?_, ?_⟩
    · rintro _ ⟨⟩
      exact hsorted
    · rintro _ ⟨⟩
      exact h.last k hk

theorem Counts.serve (h : l.Counts n) (hn : n + 1 < 2 ^ 64) (refusal : Option Error)
    (hq : q ≠ .start) : (l.serveRefused refusal q).2.Counts (n + 1) := by
  cases hk : l.desk with
  | none =>
    rw [serveRefused_of_none hk refusal hq]
    exact h.mono
  | some k => exact h.moves hk hn (moves_serveRefused hk (h.sorted k hk) refusal hq)

/-- A number that an append is answered with is that of its record. -/
theorem number_serveRefused (hk : l.desk = some k) {refusal : Option Error} {r : Record}
    (hr : q.record? (k.lastSequence + 1) = some r) {m : UInt64}
    (h : (l.serveRefused refusal q).1 = .number m) : m = r.sequence := by
  have hadd (r' : Record) {answer : Except Error UInt64} (he : (k.add refusal r').1 = answer)
      (ha : Answer.of Answer.number answer = .number m) : m = r'.sequence := by
    subst he
    rcases k.add_eq refusal r' with ⟨e, he⟩ | hok
    · rw [he] at ha
      cases ha
    · rw [hok] at ha
      cases ha
      rfl
  have hdone {answer : Except Error Unit} :
      Answer.of (fun _ => Answer.done) answer ≠ .number m := by
    cases answer <;> nofun
  cases q with
  | write txn key value =>
    rw [serveRefused, Fate.onDesk_eq hk] at h
    cases hr
    exact hadd _ rfl h
  | checkpoint =>
    rw [serveRefused, Fate.onDesk_eq hk] at h
    cases hr
    exact hadd _ rfl h
  | commit txn =>
    rw [serveRefused, Fate.onDesk_eq hk] at h
    exact absurd h hdone
  | abort txn =>
    rw [serveRefused, Fate.onDesk_eq hk] at h
    exact absurd h hdone
  | start | begin | sync | readAll | close => cases hr

end Ledger

/-! ## Last segments that are cut short -/

namespace Disk

/-- The last segment of a folder is cut short, and the others are left alone. -/
def Tears (folder : String) (d d' : Disk) : Prop :=
  ∃ front v n, d.Holds folder (front ++ [v]) ∧
    d'.Holds folder (front ++ [⟨v.segment, v.octets.take n⟩])

/-- Cutting the file of the last segment short does nothing else. -/
theorem Holds.tears {d : Disk} {folder : String} {front : List Volume} {v : Volume}
    (h : d.Holds folder (front ++ [v])) {body : Nat}
    (hb : d.bodyOf? folder v.segment = some body) {n : Nat} (hn : n ≤ (d.bodies body).length) :
    Tears folder d (d.setBody body ((d.bodies body).resize n)) := by
  obtain ⟨-, body', hb', hoctets⟩ := h.shows v (by simp)
  obtain rfl : body = body' := Option.some.inj (hb.symm.trans hb')
  have hcut : ((d.bodies body).resize n).octets = v.octets.take n := by
    rw [Body.octets_resize, hoctets, Nat.sub_eq_zero_of_le hn]
    simp
  refine ⟨front, v, n, h, ?_⟩
  rw [← hcut]
  exact h.setBody hb _

end Disk

/-! ## Closed logs -/

namespace Log

variable {l : Log}

/-- An operation has touched neither the disk nor the appender. -/
def Idle {α : Type} (l : Log) (d : Disk) (result : Except Error α × Log × Disk) : Prop :=
  ∃ answer l', result = (answer, l', d) ∧ l'.closed = l.closed ∧ l'.appender = l.appender

theorem idle_addOutcome (hc : l.closed = true) (d : Disk) (ts : Transactions)
    (refused granted : Transactions → Transactions) (r : Record) (force : Bool) :
    l.Idle d (l.addOutcome d ts refused granted r force) := by
  have hadd := add_of_closed (l := { l with transactions := ts }) hc d r force
  simp only [Log.addOutcome, hadd]
  exact ⟨_, _, rfl, rfl, rfl⟩

theorem idle_commit (hc : l.closed = true) (d : Disk) (txn : UInt64) :
    l.Idle d (l.commit d txn) := by
  cases hs : l.transactions.startCommit txn with
  | error e =>
    simp only [Log.commit, hs]
    exact ⟨_, _, rfl, rfl, rfl⟩
  | ok ts =>
    rw [commit_eq hs]
    exact idle_addOutcome hc d _ _ _ _ _

theorem idle_abort (hc : l.closed = true) (d : Disk) (txn : UInt64) :
    l.Idle d (l.abort d txn) := by
  cases hs : l.transactions.takeForAbort txn with
  | error e =>
    simp only [Log.abort, hs]
    exact ⟨_, _, rfl, rfl, rfl⟩
  | ok taken =>
    rw [abort_eq hs]
    exact idle_addOutcome hc d _ _ _ _ _

end Log

namespace Session

variable {folder : String} {s : Session} {l : Log} {D B : List Record} {n : Nat}

theorem serve_of_idle {α : Type} (hl : s.log = some l) (reply : α → Answer)
    (op : Log → Disk → Except Error α × Log × Disk) (h : l.Idle s.disk (op l s.disk)) :
    ∃ l', (s.onLog reply op).2 = { s with log := some l' } ∧ l'.closed = l.closed ∧
      l'.appender = l.appender := by
  obtain ⟨answer, l', hop, hclosed, happender⟩ := h
  rw [onLog_eq hl, hop]
  exact ⟨l', rfl, hclosed, happender⟩

/-- A request on a closed log other than an opening touches neither the disk nor the appender. -/
theorem serve_of_closed (hl : s.log = some l) (hc : l.closed = true) {q : Request}
    (hq : q ≠ .start) :
    ∃ l', (s.serve q).2 = { s with log := some l' } ∧ l'.closed = l.closed ∧
      l'.appender = l.appender := by
  have hsame {α : Type} (answer : Except Error α) : l.Idle s.disk (answer, l, s.disk) :=
    ⟨answer, l, rfl, rfl, rfl⟩
  cases q with
  | start => exact absurd rfl hq
  | begin =>
    refine serve_of_idle hl _ _ ?_
    simp only [Log.begin, hc, if_true]
    exact hsame _
  | write txn key value =>
    refine serve_of_idle hl _ _ ?_
    simp only [Log.write, Log.add_of_closed hc]
    exact hsame _
  | checkpoint =>
    refine serve_of_idle hl _ _ ?_
    simp only [Log.checkpoint, Log.add_of_closed hc]
    exact hsame _
  | commit txn => exact serve_of_idle hl _ _ (Log.idle_commit hc s.disk txn)
  | abort txn => exact serve_of_idle hl _ _ (Log.idle_abort hc s.disk txn)
  | sync =>
    refine serve_of_idle hl _ _ ?_
    simp only [Log.sync, hc, if_true]
    exact hsame _
  | readAll =>
    refine serve_of_idle hl _ _ ?_
    simp only [Log.readAll, hc, if_true]
    exact hsame _
  | close =>
    refine serve_of_idle hl _ _ ?_
    simp only [Log.close, hc, if_true]
    exact hsame _

/-! ## Torn sessions -/

/-- No log is open: there is none, or it was closed. -/
def Shut (s : Session) : Prop := ∀ l, s.log = some l → l.closed = true

/-- While no log is open, the last segment is cut short. -/
def Cuts (folder : String) (s : Session) : Event → Prop
  | .disturb d => s.Shut ∧ Disk.Tears folder s.disk d
  | _ => False

/-- A session after so many events in which no log is open and the last segment may be torn. The
records that can be read carry the numbers from 1 on. -/
structure Torn (folder : String) (n : Nat) (s : Session) : Prop where
  valid : s.settings.validate = .ok ()
  place : s.settings.folder = folder
  shut : ∀ l, s.log = some l → l.closed = true ∧ l.appender.closed = true
  holds : ∃ front v, s.disk.Holds folder (front ++ [v]) ∧ Intact front ∧
    (∀ w ∈ front ++ [v], w.segment.id.toNat ≤ n + 1) ∧
    Ledger.Counts n ⟨recordsIn front ++ v.octets.records, none⟩

/-- A session after so many events. Its records carry the numbers from 1 on. -/
inductive InOrder (folder : String) (n : Nat) (s : Session) : Prop
  | rests {D B : List Record} (h : s.Rests folder D B) (hw : s.Within folder (n + 1))
    (hc : (s.ledger folder).Counts n) : InOrder folder n s
  | torn (h : s.Torn folder n) : InOrder folder n s

theorem Torn.mono (h : s.Torn folder n) : s.Torn folder (n + 1) := by
  obtain ⟨front, v, hholds, hi, hid, hc⟩ := h.holds
  exact ⟨h.valid, h.place, h.shut, front, v, hholds, hi,
    fun w hw => (hid w hw).trans (Nat.le_succ _), hc.mono⟩

/-- A session in which no log is open counts as torn, whether anything was cut or not. -/
theorem Rests.torn (h : s.Rests folder D B) (hw : s.Within folder (n + 1))
    (hc : (s.ledger folder).Counts n) (hs : s.Shut) {front : List Volume} {v : Volume}
    (hholds : s.disk.Holds folder (front ++ [v])) : s.Torn folder n := by
  refine ⟨h.valid, h.place, fun l hl => ⟨hs l hl, (h.stands.log hl).closed.trans (hs l hl)⟩, ?_⟩
  have hwithin : s.disk.Within folder (n + 1) := hw.crash h.stands
  have hread := h.stands.recordsOf
  rw [hholds.recordsOf] at hread
  cases hx : (survey (front ++ [v])).damage with
  | some x => simp [hx] at hread
  | none =>
    have hi := intact_of_survey hx
    have hrecords : recordsIn (front ++ [v]) = D := by
      simpa [survey_of_intact hi] using hread
    refine ⟨front, v, hholds, (intact_append.mp hi).1, hholds.within_iff.mp hwithin, hc.lost ?_⟩
    rw [ledger, h.stands.contents, ← hrecords, recordsIn_append, recordsIn_cons, recordsIn_nil,
      List.append_nil]
    exact List.prefix_append _ B

/-- A torn segment may be cut again. -/
theorem Torn.tear (h : s.Torn folder n) {d : Disk} (hd : Disk.Tears folder s.disk d) :
    (s.step (.disturb d)).Torn folder n := by
  obtain ⟨front, v, hholds, hi, hid, hc⟩ := h.holds
  obtain ⟨front', v', m, hbefore, hafter⟩ := hd
  have hsame := hholds.volumes_eq.symm.trans hbefore.volumes_eq
  obtain ⟨rfl, hlast⟩ := List.append_inj' hsame rfl
  obtain rfl := List.singleton_inj.mp hlast
  refine ⟨h.valid, h.place, h.shut, front, ⟨v.segment, v.octets.take m⟩, hafter, hi, ?_, ?_⟩
  · intro w hw
    rcases List.mem_append.mp hw with hw | hw
    · exact hid w (List.mem_append_left _ hw)
    · rw [List.mem_singleton.mp hw]
      exact hid v (by simp)
  · refine hc.lost ((List.prefix_append_right_inj _).mpr ?_)
    exact Octets.records_take_prefix v.octets m

theorem Torn.released (h : s.Torn folder n) : s.released = s.disk := by
  cases hl : s.log with
  | none => simp only [Session.released, hl]
  | some l => simp only [Session.released, hl, Log.drop, Appender.close, (h.shut l hl).2, if_true]

/-- Nothing but an opening changes a torn session. -/
theorem Torn.keeps (h : s.Torn folder n) {e : Event} (he : Shared folder s e)
    (hstart : e ≠ .ask .start) : (s.step e).Torn folder n := by
  obtain ⟨hvalid, hplace, hshut, front, v, hholds, hrest⟩ := h
  cases e with
  | ask q =>
    have hq : q ≠ .start := fun hq => hstart (by rw [hq])
    cases hl : s.log with
    | none =>
      rw [Session.step, serve_of_none hl hq]
      exact ⟨hvalid, hplace, hshut, front, v, hholds, hrest⟩
    | some l =>
      obtain ⟨l', hserve, hclosed, happender⟩ := serve_of_closed hl (hshut l hl).1 hq
      rw [Session.step, hserve]
      refine ⟨hvalid, hplace, ?_, front, v, hholds, hrest⟩
      rintro _ ⟨⟩
      rw [hclosed, happender]
      exact hshut l hl
  | configure settings => exact ⟨he.1, he.2, hshut, front, v, hholds, hrest⟩
  | disturb d => exact ⟨hvalid, hplace, hshut, front, v, hholds.spares he, hrest⟩
  | crash => exact ⟨hvalid, hplace, (fun l hl => by cases hl), front, v, hholds, hrest⟩
  | tick =>
    have hstep : s.step .tick = s := by
      obtain ⟨disk, log, settings⟩ := s
      cases log with
      | none => rfl
      | some l => simp only [Session.step, Log.tick, Appender.tick, (hshut l rfl).2, if_true]
    rw [hstep]
    exact ⟨hvalid, hplace, hshut, front, v, hholds, hrest⟩

/-- An event in which others leave the segments alone. -/
theorem Rests.inOrder_step (h : s.Rests folder D B) (hw : s.Within folder (n + 1))
    (hc : (s.ledger folder).Counts n) (hn : n + 2 < 2 ^ 64) {e : Event} (he : Shared folder s e) :
    (s.step e).InOrder folder (n + 1) := by
  have hallowed : Allowed folder s e := by
    refine ⟨he, ?_⟩
    cases e with
    | ask q => exact hw.wraps hn q
    | _ => rfl
  obtain ⟨Y, T, hnext, -⟩ := h.step hallowed
  refine .rests hnext (h.within hw (Nat.le_add_left 1 n) he) ?_
  refine h.ledger_step hallowed ?_ ?_ ?_ hc.mono
  · rintro q refusal rfl hq
    exact hc.serve (by omega) refusal hq
  · exact fun S hp => (hc.opened hp).mono
  · exact fun S hp => (hc.lost hp).mono

/-- An opening of a torn session finds what is whole there and goes on behind it, or it refuses the
damage. -/
theorem Torn.start (h : s.Torn folder n) (hn : n + 2 < 2 ^ 64) :
    (s.step (.ask .start)).InOrder folder (n + 1) := by
  obtain ⟨front, v, hholds, hi, hid, hc⟩ := h.holds
  have hplace := h.place
  have hreleased := h.released
  by_cases hv : v.octets.Whole
  · -- nothing is torn: the opening is one of intact volumes
    have hsame : s.step (.ask .start) = (s.step .crash).step (.ask .start) := by
      simp only [Session.step, serve, hreleased]
      rfl
    have hall : Intact (front ++ [v]) := intact_append.mpr ⟨hi, intact_singleton.mpr hv⟩
    have hcrashed : (s.step .crash).Rests folder (recordsIn (front ++ [v])) [] :=
      ⟨h.valid, hplace, .shut rfl hholds hall⟩
    rw [hsame]
    refine hcrashed.inOrder_step ?_ ?_ hn trivial
    · rw [within_of_none rfl]
      exact hholds.within_iff.mpr hid
    · rw [ledger_of_none rfl, hcrashed.stands.contents]
      simpa using hc
  · have hsurvey : survey (front ++ [v]) = _ := survey_of_torn hi hv
    subst hplace
    cases hp : s.settings.policy with
    | strict =>
      have hstart := Log.start_strict hholds h.valid hp (by rw [hsurvey])
      have hstep : s.step (.ask .start) = s.step .crash := by
        simp only [Session.step, serve, hreleased, hstart]
      rw [hstep]
      exact .torn (h.keeps (e := .crash) trivial (by simp)).mono
    | truncateTail =>
      obtain ⟨loc, hl⟩ := hholds.located
      obtain ⟨body, d', hstart, hcut, hb, -, -, -⟩ :=
        Log.start_of_damage hholds hl h.valid hp (by rw [hsurvey]) rfl
      have hkeeps := Appender.keeps_cut hcut hb hi
      rw [hsurvey] at hstart
      have hstep : s.step (.ask .start) = { s with
          disk := d'
          log := some (Log.ofReport s.settings
            ((Appender.blank s.settings).moveTo v.segment (.file body) v.octets.wholeLength)
            { Replay.ofRecords (recordsIn front ++ v.octets.records) with
              cutAt := some (v.segment.id, v.octets.wholeLength) }) } := by
        simp only [Session.step, serve, hreleased, hstart]
      have hrests : (s.step (.ask .start)).Rests s.settings.folder
          (recordsIn front ++ v.octets.records) [] := by
        rw [hstep]
        exact ⟨h.valid, rfl, .opened rfl ⟨rfl, rfl, rfl, hkeeps⟩⟩
      refine .rests hrests ?_ ?_
      · rw [hstep, within_of_some rfl]
        exact (hid v (by simp)).trans (Nat.le_succ _)
      · rw [ledger, hrests.stands.contents, List.append_nil, hstep]
        exact (hc.opened (List.prefix_refl _)).mono

/-- What one event does. -/
theorem InOrder.step (h : s.InOrder folder n) (hn : n + 2 < 2 ^ 64) {e : Event}
    (he : Shared folder s e ∨ Cuts folder s e) : (s.step e).InOrder folder (n + 1) := by
  rcases he with he | he
  · cases h with
    | rests h hw hc => exact h.inOrder_step hw hc hn he
    | torn h =>
      by_cases hstart : e = .ask .start
      · subst hstart
        exact h.start hn
      · exact .torn (h.keeps he hstart).mono
  · cases e with
    | disturb d =>
      obtain ⟨hshut, htears⟩ := he
      cases h with
      | rests h hw hc =>
        obtain ⟨front, v, -, hholds, -⟩ := id htears
        exact .torn ((h.torn hw hc hshut hholds).tear htears).mono
      | torn h => exact .torn (h.tear htears).mono
    | _ => exact he.elim

theorem InOrder.run (h : s.InOrder folder n) {es : List Event}
    (he : s.Along (fun s e => Shared folder s e ∨ Cuts folder s e) es)
    (hn : n + es.length + 1 < 2 ^ 64) : (s.run es).InOrder folder (n + es.length) := by
  induction es generalizing s n with
  | nil => exact h
  | cons e es ih =>
    rw [List.length_cons] at hn ⊢
    have hnext := h.step (by omega) he.1
    have hlast := ih hnext he.2 (by omega)
    rwa [Nat.add_right_comm, Nat.add_assoc] at hlast

theorem sequence_of_record? {q : Request} {m : UInt64} {r : Record} (h : q.record? m = some r) :
    r.sequence = m := by
  cases q <;> cases h <;> rfl

/-- Sequence numbers. Whenever a log is open, the records on disk and behind them those in its
buffer carry the numbers from 1 on without a gap, and the log knows the last of them. A granted
request that adds a record is answered with the number behind that, if with a number at all. New
segments and writes may be refused, with nothing left of them; the process may be killed; and the
last segment may be cut short while no log is open. A number is given out twice if a record is left
behind that was refused (`Session.left_behind`). -/
theorem numbered_from_one {d : Disk} {settings : Settings} {es : List Event}
    (h : d.Holds folder []) (hv : settings.validate = .ok ()) (hf : settings.folder = folder)
    (ha : Along (fun s e => Shared folder s e ∨ Cuts folder s e) { disk := d, settings } es)
    (hlt : es.length + 2 < 2 ^ 64) :
    let s := run { disk := d, settings } es
    let log := s.contents folder
    ∀ l, s.log = some l → l.closed = false →
      (∃ stored, Log.recordsOf s.disk folder = .ok stored ∧
        log = stored ++ Octets.records l.appender.buffer) ∧
      log.map (·.sequence.toNat) = List.range' 1 log.length ∧
      l.lastSequence.toNat = log.length ∧
      ∀ q r, q.record? l.nextSequence = some r → (s.serve q).1.isFailure = false →
        r.sequence.toNat = log.length + 1 ∧ (∀ m, (s.serve q).1 = .number m → m = r.sequence) ∧
        (s.step (.ask q)).contents folder = log ++ [r] := by
  intro s log l hl hopen
  have hempty : Rests folder { disk := d, settings } (recordsIn []) [] :=
    ⟨hv, hf, .shut rfl h intact_nil⟩
  have hfirst : InOrder folder 0 { disk := d, settings } := by
    refine .rests hempty ?_ ?_
    · rw [within_of_none rfl]
      exact h.within_iff.mpr (by simp)
    · rw [ledger_of_none rfl, hempty.stands.contents]
      exact ⟨dense_nil, Nat.le_refl 0, nofun, nofun⟩
  have hlast := hfirst.run ha (by omega)
  rw [Nat.zero_add] at hlast
  cases hlast with
  | torn htorn => exact absurd ((htorn.shut l hl).1.symm.trans hopen) (by simp)
  | @rests D B hrests hwithin hcounts =>
    have hdesk : (s.ledger folder).desk = some l.desk := by rw [ledger_of_some hl]
    have hcontents : log = D ++ B := hrests.stands.contents
    have hbuffer : Octets.records l.appender.buffer = B := by
      obtain ⟨vs, -, -, -, -, hbuffered⟩ := (hrests.stands.log hl).keeps
      exact hbuffered
    refine ⟨⟨D, hrests.stands.recordsOf, by rw [hbuffer, hcontents]⟩, hcounts.dense,
      hcounts.last _ hdesk, ?_⟩
    intro q r hr hgranted
    have hq : q ≠ .start := by
      rintro rfl
      cases hr
    have hallowed : Allowed folder s (.ask q) := ⟨trivial, hwithin.wraps (by omega) q⟩
    obtain ⟨refusal, hanswer, -⟩ := hrests.ledger_ask hq hallowed
    obtain ⟨S, T, hnext, hrecords, -, -⟩ := hrests.ask hq hallowed
    refine ⟨?_, ?_, ?_⟩
    · rw [sequence_of_record? hr]
      exact hcounts.next hdesk (by omega)
    · intro m hm
      exact Ledger.number_serveRefused hdesk hr (hanswer.symm.trans hm)
    · have hgained : s.gained (.ask q) = [r] := by
        simp only [gained, added, hl, hgranted, hr]
        rfl
      rw [hnext.stands.contents, hrecords, hgained, hcontents]

/-! ## A tail that is lost -/

/-- Three records fill a segment each, and the log is closed. -/
def threeSegments : List Event :=
  [.ask .start, .ask (.write 0 [1] [2]), .ask (.write 0 [3] [4]), .ask (.write 1 [5] [6]), .ask .close]

/-- The disk then, with the third segment cut inside the header of its record. -/
def tornThird : Disk :=
  let d := (run { disk := emptyFolder, settings := cutting } threeSegments).disk
  d.setBody 2 ((d.bodies 2).resize 10)

/-- A strict opening refuses the damage. The next one cuts it off, and a write follows. -/
def reopenTorn : List Event :=
  [.disturb tornThird, .configure { cutting with policy := .strict }, .ask .start,
    .configure cutting, .ask .start, .ask (.write 1 [7] [])]

theorem cuts_tornThird :
    Cuts "wal" (run { disk := emptyFolder, settings := cutting } threeSegments)
      (.disturb tornThird) := by
  have hempty : Rests "wal" { disk := emptyFolder, settings := cutting } (recordsIn []) [] :=
    ⟨rfl, rfl, .shut rfl holds_emptyFolder intact_nil⟩
  have hshared : Along (Shared "wal") { disk := emptyFolder, settings := cutting } threeSegments := by
    simp [threeSegments, Shared]
  obtain ⟨S, T, hrests⟩ :=
    hempty.run (allowed_of_length holds_emptyFolder rfl rfl hshared (by decide))
  obtain ⟨vs, hholds⟩ : ∃ vs,
      (run { disk := emptyFolder, settings := cutting } threeSegments).disk.Holds "wal" vs := by
    cases hrests.crash.stands with
    | shut _ hholds => exact ⟨_, hholds⟩
    | opened hl => cases hl
  have hvolumes : (run { disk := emptyFolder, settings := cutting } threeSegments).disk.volumes "wal" =
      [⟨Segment.ofId 1, (Record.write 1 0 [1] [2]).form⟩,
        ⟨Segment.ofId 2, (Record.write 2 0 [3] [4]).form⟩] ++
        [⟨Segment.ofId 3, (Record.write 3 1 [5] [6]).form⟩] := by decide +kernel
  rw [hholds.volumes_eq] at hvolumes
  subst hvolumes
  have hbody : (run { disk := emptyFolder, settings := cutting } threeSegments).disk.bodyOf? "wal"
      (Segment.ofId 3) = some 2 := by decide +kernel
  refine ⟨?_, hholds.tears hbody (by decide +kernel)⟩
  have hclosed : (run { disk := emptyFolder, settings := cutting } threeSegments).log.all
      (·.closed) = true := by decide +kernel
  intro l hl
  simpa [hl] using hclosed

/-- The number of the lost record is given out once more. -/
theorem numbered_from_one_reopenTorn :
    let s := run { disk := emptyFolder, settings := cutting } (threeSegments ++ reopenTorn)
    (emptyFolder.Holds "wal" [] ∧ cutting.validate = .ok () ∧ cutting.folder = "wal" ∧
      Along (fun s e => Shared "wal" s e ∨ Cuts "wal" s e)
        { disk := emptyFolder, settings := cutting } (threeSegments ++ reopenTorn) ∧
      (threeSegments ++ reopenTorn).length + 2 < 2 ^ 64) ∧
    s.contents "wal" =
      [Record.write 1 0 [1] [2], Record.write 2 0 [3] [4], Record.write 3 1 [7] []] ∧
    ∃ l, s.log = some l ∧ l.closed = false ∧ l.lastSequence.toNat = 3 ∧
      (s.serve .checkpoint).1 = .number 4 ∧
      (s.step (.ask .checkpoint)).contents "wal" =
        s.contents "wal" ++ [Record.marker .checkpoint 4 0] := by
  intro s
  have hused : Along (fun s e => Shared "wal" s e ∨ Cuts "wal" s e)
      { disk := emptyFolder, settings := cutting } threeSegments := by
    simp [threeSegments, Shared]
  have hrest : (run { disk := emptyFolder, settings := cutting } threeSegments).Along
      (fun s e => Shared "wal" s e ∨ Cuts "wal" s e) reopenTorn :=
    ⟨.inr cuts_tornThird, .inl ⟨rfl, rfl⟩, .inl trivial, .inl ⟨rfl, rfl⟩, .inl trivial,
      .inl trivial, trivial⟩
  have ha := along_append.mpr ⟨hused, hrest⟩
  have hcontents : s.contents "wal" =
      [Record.write 1 0 [1] [2], Record.write 2 0 [3] [4], Record.write 3 1 [7] []] := by
    decide +kernel
  have hopen : s.log.any (fun l => !l.closed) = true := by decide +kernel
  have hanswer : (s.serve .checkpoint).1 = .number 4 := by decide +kernel
  obtain ⟨l, hl⟩ : ∃ l, s.log = some l := by
    cases hl : s.log with
    | none =>
      rw [hl] at hopen
      cases hopen
    | some l => exact ⟨l, rfl⟩
  have hclosed : l.closed = false := by simpa [hl] using hopen
  obtain ⟨-, -, hlast, hnext⟩ :=
    numbered_from_one holds_emptyFolder rfl rfl ha (by decide) l hl hclosed
  obtain ⟨-, hnumber, hadded⟩ := hnext .checkpoint _ rfl (by rw [hanswer]; rfl)
  have hsequence : l.nextSequence = 4 := (hnumber 4 hanswer).symm
  rw [hsequence] at hadded
  refine ⟨⟨holds_emptyFolder, rfl, rfl, ha, by decide⟩, hcontents, l, hl, hclosed, ?_, hanswer,
    hadded⟩
  rw [hlast, hcontents]
  rfl

end Session

end SegmentLog
