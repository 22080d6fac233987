import SegmentLog.Proofs.Closing
import SegmentLog.Proofs.Commands

/-!
The end of a transaction on a log that was just opened. It adds its marker if the log leaves the
transaction unresolved and nothing stands in the way, and otherwise nothing (`Log.Concludes`). Once
the marker is granted the closing behind it is refused only while the marker is in the buffer, so
the marker is on disk exactly if the closing is granted, too (`Log.Stands.close_of_concluded`).
-/

namespace SegmentLog

/-! ## Letting go of a file -/

namespace Appender

variable {a : Appender} {d : Disk} {bs : Octets} {force : Bool}

/-- With nothing in its buffer an appender holds no full device open. -/
def Settled (a : Appender) : Prop := a.buffer = [] → a.file ≠ some .full

theorem settled_enqueue (hne : bs ≠ []) (hok : (a.enqueue d bs force).1 = .ok ()) :
    (a.enqueue d bs force).2.1.Settled := by
  have hgrown : a.buffer ++ bs ≠ [] := by simp [hne]
  unfold Appender.enqueue at hok ⊢
  dsimp only at hok ⊢
  split at hok
  · rename_i hflush
    rw [if_pos hflush]
    rcases flush_cases (a := { a with
        buffer := a.buffer ++ bs, offset := a.offset + bs.length }) hgrown d with
      ⟨n, d', hn, hf⟩ | ⟨e, d', hf⟩
    · rw [hf]
      exact fun _ hfull => hn (Option.some.inj hfull)
    · rw [hf] at hok
      cases hok
  · rename_i hflush
    rw [if_neg hflush]
    exact fun hempty => absurd hempty hgrown

/-- A granted append leaves octets in the buffer, or a file that took some. -/
theorem settled_append {r : Record} {n : UInt64} (hok : (a.append d r force).1 = .ok n) :
    (a.append d r force).2.1.Settled := by
  unfold Appender.append at hok ⊢
  cases he : r.encode with
  | error e =>
    rw [he] at hok
    cases hok
  | ok bs =>
    have hne := Record.ne_nil_of_encode he
    rw [he] at hok
    dsimp only at hok ⊢
    split at hok
    · cases hok
    · rename_i hclosed
      rw [if_neg hclosed]
      rcases hm : a.makeRoom d bs.length with ⟨answer, b, d₁⟩
      rw [hm] at hok
      cases answer with
      | error e => cases hok
      | ok _ =>
        dsimp only at hok ⊢
        rcases hq : b.enqueue d₁ bs force with ⟨answer, c, d₂⟩
        rw [hq] at hok
        cases answer with
        | error e => cases hok
        | ok _ =>
          have hset : (b.enqueue d₁ bs force).2.1.Settled := settled_enqueue hne (by rw [hq])
          rw [hq] at hset
          exact hset

/-- What is no full device is let go of. -/
theorem letGo_of_ne_full (hf : a.file ≠ some .full) (ht : d.Tidy) : (a.letGo d).1 = .ok () := by
  unfold Appender.letGo
  cases hn : a.file with
  | none => rfl
  | some n =>
    have hsync : d.sync n = .ok () := by
      cases n with
      | full => exact absurd hn hf
      | file body => simp [Disk.sync, (ht body).syncing]
      | folder => rfl
    cases a.sync <;> simp [hsync]

/-- A flush leaves nothing in the buffer and no full device open, or it leaves the buffer. -/
theorem Settled.flush (h : a.Settled) (d : Disk) :
    (∃ b d', a.flush d = (.ok (), b, d') ∧ b.buffer = [] ∧ b.file ≠ some .full) ∨
    ∃ e d', a.flush d = (.error e, { a with file := none }, d') ∧ a.buffer ≠ [] := by
  by_cases hempty : a.buffer = []
  · exact .inl ⟨a, d, by rw [Appender.flush, if_pos hempty], hempty, h hempty⟩
  · rcases flush_cases hempty d with ⟨n, d', hn, hf⟩ | ⟨e, d', hf⟩
    · exact .inl ⟨_, d', hf, rfl, fun hfull => hn (Option.some.inj hfull)⟩
    · exact .inr ⟨e, d', hf, hempty⟩

/-- Where a closing is refused something was in the buffer, and is still there. -/
theorem Settled.close (h : a.Settled) (hh : a.Held d) (ht : d.Tidy) (hc : a.closed = false)
    {e : Error} (herr : (a.close d).1 = .error e) :
    a.buffer ≠ [] ∧ (a.close d).2.1.buffer = a.buffer := by
  have hshut : Settled { a with closed := true } := h
  have hticked := (hh.of_same rfl rfl hh.file : Held { a with closed := true } d).flush
  unfold Appender.close at herr ⊢
  rw [if_neg (by simp [hc])] at herr ⊢
  rcases hshut.flush d with ⟨b, d', hf, hempty, hfile⟩ | ⟨e₁, d', hf, hne⟩
  · -- the last tick wrote out everything, and the file it leaves is let go of
    have hflush : b.flush d' = (.ok (), b, d') := by rw [Appender.flush, if_pos hempty]
    rw [hf] at herr hticked
    have hgone := letGo_of_ne_full hfile (ht.of_refusals hticked.frames.refusals)
    simp only [hflush, hgone] at herr
    cases herr
  · have hreopens : Settled { a with closed := true, file := none } := fun _ hfile => by cases hfile
    rw [hf] at herr hticked ⊢
    rcases hreopens.flush d' with ⟨b, d'', hf', -, hfile⟩ | ⟨e₂, d'', hf', -⟩
    · have hagain := hticked.trans hticked.held.flush
      rw [hf'] at hagain
      have hgone := letGo_of_ne_full hfile (ht.of_refusals hagain.frames.refusals)
      simp only [hf', hgone] at herr
      cases herr
    · refine ⟨hne, ?_⟩
      simp only [hf']

end Appender

/-! ## The end of a transaction -/

/-- What ending a transaction comes to on the records of a log: its marker is added if the log leaves
the transaction unresolved, and a log that does not know it says so. -/
inductive Concludes (log : List Record) (kind : Kind) (txn : UInt64) :
    Except Error Unit → List Record → Prop
  | marked (hu : unresolved log txn = true) (n : UInt64) :
    Concludes log kind txn (.ok ()) (log ++ [Record.marker kind n txn])
  | unknown (hu : unresolved log txn = false) :
    Concludes log kind txn (.error (.notActive txn)) log
  | refused (e : Error) (he : ∀ other, e ≠ .notActive other) :
    Concludes log kind txn (.error e) log

/-- A closing enters no record. -/
theorem Desk.added_close (k : Desk) (refusal : Option Error) : (k.close refusal).2.2 = [] := by
  unfold Desk.close
  split <;> rfl

namespace Log

variable {l : Log} {d : Disk} {folder : String} {log : List Record} {kind : Kind} {txn : UInt64}
  {result : Except Error Unit × Log × Disk}

/-- The result of an operation on a log that was just opened, by which it ends a transaction. -/
structure Concluded (l : Log) (d : Disk) (folder : String) (log : List Record) (kind : Kind)
    (txn : UInt64) (result : Except Error Unit × Log × Disk) : Prop where
  place : l.appender.folder = folder
  stands : ∃ S T, result.2.1.Stands result.2.2 folder S T ∧ log <+: S ∧
    Concludes log kind txn result.1 (S ++ T)
  opened : result.2.1.closed = false
  settled : result.1 = .ok () → result.2.1.appender.Settled
  granted : unresolved log txn = true → l.appender.Ready d →
    result.1 = .ok () ∧ result.2.1.appender.Ready result.2.2
  confined : l.appender.Confined d result.2.1.appender result.2.2
  segment : Follows l.currentSegment result.2.1.currentSegment

theorem Stands.concluded (h : l.Stands d folder log []) {refusal : Option Error}
    {entry : Desk.Entry Unit} {S T : List Record} (hr : l.Refuses d refusal result.1)
    (hm : l.Mirrors d folder log [] result entry S T)
    (hentry : refusal = none → entry = Desk.settled log kind txn)
    (hundone : (Desk.ofRecords log).Undone entry)
    (hset : result.1 = .ok () → result.2.1.appender.Settled)
    (hc : l.appender.Confined d result.2.1.appender result.2.2)
    (hs : Follows l.currentSegment result.2.1.currentSegment) :
    l.Concluded d folder log kind txn result := by
  have hrecords := hm.records
  rw [List.append_nil] at hrecords
  cases refusal with
  | some e =>
    obtain ⟨hanswer, hio, hnot⟩ := hr e rfl
    have hentered := hundone e (hm.answer.symm.trans hanswer)
    rw [hentered, List.append_nil] at hrecords
    refine ⟨h.appender, ⟨S, T, hm.stands, hm.stored, ?_⟩, ?_, hset, fun _ hready =>
      absurd hready hnot, hc, hs⟩
    · rw [hanswer, hrecords]
      exact .refused e (Error.ne_notActive_of_isIo hio)
    · have hdesk := hm.desk
      rw [hentered] at hdesk
      exact congrArg Desk.closed hdesk
  | none =>
    obtain rfl := hentry rfl
    have hanswer := hm.answer
    have hdesk := hm.desk
    unfold Desk.settled at hanswer hdesk hrecords
    cases hu : unresolved log txn with
    | true =>
      rw [hu, if_pos rfl] at hanswer hdesk hrecords
      refine ⟨h.appender, ⟨S, T, hm.stands, hm.stored, ?_⟩, congrArg Desk.closed hdesk, hset,
        fun _ hready => ⟨hanswer, hm.ready hready⟩, hc, hs⟩
      rw [hanswer, hrecords]
      exact .marked hu _
    | false =>
      rw [hu, if_neg Bool.false_ne_true] at hanswer hdesk hrecords
      rw [List.append_nil] at hrecords
      refine ⟨h.appender, ⟨S, T, hm.stands, hm.stored, ?_⟩, congrArg Desk.closed hdesk, hset,
        fun htrue => absurd (hu.symm.trans htrue) Bool.false_ne_true, hc, hs⟩
      rw [hanswer, hrecords]
      exact .unknown hu

/-! ### Commits and aborts -/

theorem settled_add {r : Record} {force : Bool} {n : UInt64} (hok : (l.add d r force).1 = .ok n) :
    (l.add d r force).2.1.appender.Settled := by
  unfold Log.add at hok ⊢
  split at hok
  · cases hok
  · rename_i hclosed
    rw [if_neg hclosed]
    rcases ha : l.appender.append d r force with ⟨answer, a, d'⟩
    rw [ha] at hok
    cases answer with
    | error e => cases hok
    | ok m =>
      have hset := Appender.settled_append (a := l.appender) (d := d) (r := r) (n := m) (by rw [ha])
      rw [ha] at hset
      exact hset

theorem settled_addOutcome {ts : Transactions} {refused granted : Transactions → Transactions}
    {r : Record} {force : Bool} (hok : (l.addOutcome d ts refused granted r force).1 = .ok ()) :
    (l.addOutcome d ts refused granted r force).2.1.appender.Settled := by
  rcases ha : { l with transactions := ts }.add d r force with ⟨answer, l', d'⟩
  simp only [Log.addOutcome, ha] at hok ⊢
  cases answer with
  | error e => cases hok
  | ok n =>
    have hset := settled_add (l := { l with transactions := ts }) (n := n) (by rw [ha])
    rw [ha] at hset
    exact hset

section Fresh

variable (h : l.Stands d folder log []) (hdesk : l.desk = Desk.ofRecords log)
  (hlt : l.currentSegment.toNat + 1 < 2 ^ 64)
include h hdesk hlt

theorem Stands.commit_concluded (txn : UInt64) :
    l.Concluded d folder log .txnCommit txn (l.commit d txn) := by
  have hfollows := l.follows_commit d txn
  obtain ⟨vs, htracks, -⟩ := h.keeps
  obtain ⟨refusal, S, T, hrefuses, hmirrors, -⟩ := h.commit txn (hfollows.not_lt hlt)
  rw [hdesk] at hmirrors
  refine h.concluded hrefuses hmirrors ?_ ?_ ?_ (confined_commit htracks.held txn) hfollows
  · rintro rfl
    exact Desk.commit_ofRecords log txn
  · exact Desk.undone_commit (Desk.sorted_ofRecords log) refusal txn
  · intro hok
    cases hstart : l.transactions.startCommit txn with
    | error e =>
      simp only [Log.commit, hstart] at hok
      cases hok
    | ok ts =>
      rw [commit_eq hstart] at hok ⊢
      exact settled_addOutcome hok

theorem Stands.abort_concluded (txn : UInt64) :
    l.Concluded d folder log .txnRollback txn (l.abort d txn) := by
  have hfollows := l.follows_abort d txn
  obtain ⟨vs, htracks, -⟩ := h.keeps
  obtain ⟨refusal, S, T, hrefuses, hmirrors, -⟩ := h.abort txn (hfollows.not_lt hlt)
  rw [hdesk] at hmirrors
  refine h.concluded hrefuses hmirrors ?_ ?_ ?_ (confined_abort htracks.held txn) hfollows
  · rintro rfl
    exact Desk.abort_ofRecords log txn
  · exact Desk.undone_abort (Desk.sorted_ofRecords log) refusal txn
  · intro hok
    cases htake : l.transactions.takeForAbort txn with
    | error e =>
      simp only [Log.abort, htake] at hok
      cases hok
    | ok taken =>
      rw [abort_eq htake] at hok ⊢
      exact settled_addOutcome hok

end Fresh

/-! ### The closing behind it -/

/-- The first error of two counts. -/
def firstError : Except Error Unit → Except Error Unit → Except Error Unit
  | .error e, _ => .error e
  | .ok _, answer => answer

/-- Closing an open log closes its appender. -/
theorem close_of_open (hc : l.closed = false) (d : Disk) :
    l.close d = ((l.appender.close d).1,
      { l with appender := (l.appender.close d).2.1, closed := true }, (l.appender.close d).2.2) := by
  rw [Log.close, if_neg (by simp [hc])]

/-- A log with nothing in its buffer is closed with the same records on disk. -/
theorem Stands.logs_close {S : List Record} (h : l.Stands d folder S []) :
    (l.close d).2.2.Logs folder S := by
  obtain ⟨refusal, S', T', -, hmirrors, -⟩ := h.close
  have hrecords := hmirrors.records
  rw [Desk.added_close, List.append_nil, List.append_nil] at hrecords
  obtain rfl := Session.eq_nil_of_isPrefix hrecords hmirrors.stored
  rw [List.append_nil] at hrecords
  exact hrecords ▸ hmirrors.stands.logs

/-- An open log is closed with all its records on disk, or with those that were there: if it is
settled, those in the buffer are not. -/
theorem Stands.close_of_settled {S T : List Record} (h : l.Stands d folder S T)
    (hc : l.closed = false) (hset : l.appender.Settled) :
    ((l.close d).1 = .ok () ∧ (l.close d).2.2.Logs folder (S ++ T)) ∨
    (∃ e, (l.close d).1 = .error e ∧ e.isIo = true ∧ ¬ l.appender.Ready d ∧ T ≠ [] ∧
      (l.close d).2.2.Logs folder S) := by
  obtain ⟨refusal, S', T', hrefuses, hmirrors, hempty⟩ := h.close
  have hrecords : S' ++ T' = S ++ T := by
    rw [hmirrors.records, Desk.added_close, List.append_nil]
  have hlogs := hmirrors.stands.logs
  cases hanswer : (l.close d).1 with
  | ok _ =>
    obtain rfl := hempty (by rw [hanswer]; rfl) hc
    rw [List.append_nil] at hrecords
    exact .inl ⟨rfl, hrecords ▸ hlogs⟩
  | error e =>
    have hrefused : refusal = some e := by
      have hentry := hmirrors.answer
      rw [hanswer] at hentry
      cases refusal with
      | none =>
        simp only [Desk.close, Log.desk, hc] at hentry
        cases hentry
      | some e' =>
        simp only [Desk.close, Log.desk, hc] at hentry
        rw [Except.error.inj hentry]
    obtain ⟨-, hio, hnot⟩ := hrefuses e hrefused
    have hopen : l.appender.closed = false := h.closed.trans hc
    have happender := close_of_open hc d
    rw [happender] at hanswer
    obtain ⟨vs, htracks, -⟩ := h.keeps
    obtain ⟨hne, hsame⟩ := hset.close htracks.held htracks.holds.tidy hopen hanswer
    -- what is in the buffer afterwards are the records that were there
    have hbuffer : T' = T := by
      have hkept : (l.close d).2.1.appender.buffer = l.appender.buffer := by
        rw [happender]
        exact hsame
      obtain ⟨-, -, -, -, -, hafter⟩ := hmirrors.stands.keeps
      obtain ⟨-, -, -, -, -, hbefore⟩ := h.keeps
      rw [← hafter, hkept, hbefore]
    subst hbuffer
    refine .inr ⟨e, rfl, hio, hnot, ?_, List.append_cancel_right hrecords ▸ hlogs⟩
    exact fun hnil => hne (h.keeps.buffer_eq_nil_iff.mpr hnil)

/-- A log that ended a transaction is closed with its marker on disk, or with nothing added. -/
theorem Concluded.close (h : l.Concluded d folder log kind txn result) :
    let closed := result.2.1.close result.2.2
    (∃ log', closed.2.2.Logs folder log' ∧
      Concludes log kind txn (firstError result.1 closed.1) log') ∧
    (unresolved log txn = true → l.appender.Ready d → firstError result.1 closed.1 = .ok ()) ∧
    d.Frames folder closed.2.2 ∧ closed.2.2.Within folder (l.currentSegment.toNat + 1) := by
  intro closed
  obtain ⟨S, T, hstands, hstored, hconcludes⟩ := h.stands
  have hheld := h.confined.held
  have hframes := (h.confined.trans (confined_close hheld)).frames
  rw [h.place] at hframes
  obtain ⟨refusal, S', T', hrefuses, hmirrors, -⟩ := hstands.close
  have hwithin := hmirrors.stands.within
  rw [currentSegment_close] at hwithin
  -- where nothing was added nothing is in the buffer
  have hnothing (hrecords : S ++ T = log) : closed.2.2.Logs folder log := by
    obtain rfl := Session.eq_nil_of_isPrefix hrecords hstored
    rw [List.append_nil] at hrecords
    exact hrecords ▸ hstands.logs_close
  refine ⟨?_, ?_, hframes, hwithin.mono h.segment.toNat_le⟩
  · generalize hrecords : S ++ T = all at hconcludes
    generalize hanswer : result.1 = answer at hconcludes
    cases hconcludes with
    | marked hu n =>
      rcases hstands.close_of_settled h.opened (h.settled hanswer) with
        ⟨hok, hlogs⟩ | ⟨e, herr, hio, -, hne, hlogs⟩
      · refine ⟨_, hlogs, ?_⟩
        rw [hrecords, firstError, hok]
        exact .marked hu n
      · -- the marker is still in the buffer
        have hsame : S = log := by
          obtain ⟨Y, rfl⟩ := hstored
          have hlength := congrArg List.length hrecords
          have hpos := List.length_pos_iff.mpr hne
          simp only [List.length_append, List.length_cons, List.length_nil] at hlength
          have hnil : Y = [] := List.eq_nil_of_length_eq_zero (by omega)
          rw [hnil, List.append_nil]
        subst hsame
        refine ⟨S, hlogs, ?_⟩
        rw [firstError, herr]
        exact .refused e (Error.ne_notActive_of_isIo hio)
    | unknown hu => exact ⟨log, hnothing hrecords, .unknown hu⟩
    | refused e he => exact ⟨log, hnothing hrecords, .refused e he⟩
  · intro hu hready
    obtain ⟨hok, hready'⟩ := h.granted hu hready
    rw [hok]
    rcases hstands.close_of_settled h.opened (h.settled hok) with ⟨hclose, -⟩ | ⟨e, -, -, hnot, -⟩
    · exact hclose
    · exact absurd hready' hnot

end Log

end SegmentLog
