import SegmentLog.Proofs.Numbering

/-!
What outlives a crash. Others may change the disk around the log, new segments may be refused, and
writes of which no octet gets through, and the process may be killed at any time. An opening then
finds a prefix of what was logged, and all of it up to the last granted request that flushes
(`Session.survives_crash`). No crash leaves a later record without an earlier one.
-/

namespace SegmentLog

/-! ## Disks that others change -/

section Spares

variable {d d' : Disk} {folder : String} {D B : List Record}

theorem Appender.OnFile.skips {a : Appender} {front : List Volume} {settled : Octets}
    (h : a.OnFile d front settled) (hd : Disk.Skips a.folder d d') : a.OnFile d' front settled := by
  refine ⟨h.holds.skips hd, h.offset, fun n hn => ?_⟩
  obtain ⟨body, hnb, hb⟩ := h.file n hn
  have hnamed := h.holds.named (v := ⟨a.active, settled⟩) (by simp)
  exact ⟨body, hnb, (hd.body a.active hnamed).trans hb⟩

theorem Appender.OffFile.skips {a : Appender} {vs : List Volume} (h : a.OffFile d vs)
    (hd : Disk.Skips a.folder d d') : a.OffFile d' vs :=
  ⟨h.holds.skips hd, h.above, h.active, h.offset, h.file⟩

theorem Appender.Tracks.skips {a : Appender} {vs : List Volume} (h : a.Tracks d vs)
    (hd : Disk.Skips a.folder d d') : a.Tracks d' vs := by
  cases h with
  | on h => exact .on (h.skips hd)
  | off h => exact .off (h.skips hd)

theorem Appender.Tracks.spares {a : Appender} {vs : List Volume} (h : a.Tracks d vs)
    (hd : Disk.Spares a.folder d d') : a.Tracks d' vs :=
  h.skips hd.skips

theorem Log.Stands.skips {l : Log} (h : l.Stands d folder D B) (hd : Disk.Skips folder d d') :
    l.Stands d' folder D B := by
  obtain ⟨vs, htracks, hrest⟩ := h.keeps
  refine ⟨h.settings, h.appender, h.closed, vs, htracks.skips ?_, hrest⟩
  rw [h.appender]
  exact hd

theorem Log.Stands.spares {l : Log} (h : l.Stands d folder D B) (hd : Disk.Spares folder d d') :
    l.Stands d' folder D B :=
  h.skips hd.skips

end Spares

namespace Session

variable {folder : String} {s : Session} {D B : List Record}

/-! ## The history of an open log -/

/-- A granted request that leaves nothing in the buffer. -/
def acknowledges (s : Session) : Event → Bool
  | .ask q =>
    match s.log with
    | none => false
    | some l => !(s.serve q).1.isFailure && q.flushes l.appender.sync
  | _ => false

/-- What was logged, and what of it was there at the last acknowledgement. -/
structure History where
  logged : List Record
  safe : List Record

/-- The history after one more event. -/
def History.after (h : History) (s : Session) (e : Event) : History where
  logged := h.logged ++ s.gained e
  safe := if s.acknowledges e then h.logged ++ s.gained e else h.safe

def history (s : Session) (h : History) : List Event → History
  | [] => h
  | e :: rest => (s.step e).history (h.after s e) rest

theorem logged_history (s : Session) (h : History) (es : List Event) :
    (s.history h es).logged = h.logged ++ s.gains es := by
  induction es generalizing s h with
  | nil => exact (List.append_nil _).symm
  | cons e es ih => rw [history, ih, History.after, gains, List.append_assoc]

theorem safe_history {h : History} (hh : h.safe <+: h.logged) (es : List Event) :
    h.safe <+: (s.history h es).safe := by
  induction es generalizing s h with
  | nil => exact List.prefix_refl _
  | cons e es ih =>
    have hafter : (h.after s e).safe <+: (h.after s e).logged ∧ h.safe <+: (h.after s e).safe := by
      unfold History.after
      split
      · exact ⟨List.prefix_refl _, hh.trans (List.prefix_append _ _)⟩
      · exact ⟨hh.trans (List.prefix_append _ _), List.prefix_refl _⟩
    exact hafter.2.trans (ih (s := s.step e) hafter.1)

/-! ## One event -/

/-- An event in which others leave the segments of the log alone; the process may be killed. New
segments may be refused, and writes, if nothing is left of them (`Disk.Tidy`). -/
def Shared (folder : String) (s : Session) : Event → Prop
  | .configure settings => settings.validate = .ok () ∧ settings.folder = folder
  | .disturb d => Disk.Spares folder s.disk d
  | .ask _ | .tick | .crash => True

/-- Such an event in which no segment number starts over. -/
def Allowed (folder : String) (s : Session) (e : Event) : Prop :=
  Shared folder s e ∧ s.wraps e = false

/-- The records of a session with valid settings for the next opening. -/
structure Rests (folder : String) (s : Session) (stored buffered : List Record) : Prop where
  valid : s.settings.validate = .ok ()
  place : s.settings.folder = folder
  stands : s.Stands folder stored buffered

/-- A request other than an opening adds its record behind the others; a granted one that flushes
leaves nothing in the buffer. -/
theorem Rests.ask (h : s.Rests folder D B) {q : Request} (hq : q ≠ .start)
    (ha : Allowed folder s (.ask q)) :
    ∃ S T, (s.step (.ask q)).Rests folder S T ∧ S ++ T = D ++ B ++ s.gained (.ask q) ∧ D <+: S ∧
      (s.acknowledges (.ask q) = true → T = []) := by
  obtain ⟨hvalid, hplace, hstands⟩ := h
  cases hl : s.log with
  | none =>
    have hstep : s.step (.ask q) = s := congrArg Prod.snd (serve_of_none hl hq)
    rw [hstep]
    refine ⟨D, B, ⟨hvalid, hplace, hstands⟩, ?_, List.prefix_refl D, ?_⟩
    · simp [gained, added, hl]
    · simp [acknowledges, hl]
  | some l =>
    have hlog : l.Stands s.disk folder D B := hstands.log hl
    obtain ⟨refusal, S, T, -, hserves, hflushed, -⟩ := serve_spec hl hlog hq ha.2
    obtain ⟨hanswer, hsettings, ⟨l', hl', hstands', -, -, -⟩, hrecords, hstored⟩ := hserves
    refine ⟨S, T, ⟨?_, ?_, .opened hl' hstands'⟩, ?_, hstored, ?_⟩
    · rw [step, hsettings]
      exact hvalid
    · rw [step, hsettings]
      exact hplace
    · have hbooks := Ledger.books_serveRefused (l := ⟨D ++ B, some l.desk⟩) rfl refusal hq
      rw [hrecords, hbooks.records, ← hanswer]
      simp only [gained, added, Ledger.added, hl]
      rfl
    · intro hack
      simp only [acknowledges, hl, Bool.and_eq_true, Bool.not_eq_true'] at hack
      exact hflushed hack.1 hack.2

/-- An opening finds what was on disk, and at most what was buffered as well; or it is refused. -/
theorem Rests.start (h : s.Rests folder D B) :
    ∃ S, (s.step (.ask .start)).Rests folder S [] ∧ D <+: S ∧ S <+: D ++ B ∧
      ((∃ l, (s.serve .start).1 = .opened (Replay.ofRecords S) ∧
          (s.step (.ask .start)).log = some l ∧ l.desk = Desk.ofRecords S) ∨
        (s.serve .start).1.isRefused = true ∧ ¬ s.released.Clear folder) := by
  obtain ⟨hvalid, hplace, hstands⟩ := h
  obtain ⟨vs, hholds, hintact, hstored, hall, -, -⟩ := hstands.released
  have hsettings : (s.serve .start).2.settings = s.settings := by
    simp only [serve]
    split <;> rfl
  rcases start_spec hholds hintact hvalid hplace with
    ⟨l, hanswer, hl, hopened, hdesk, -, -⟩ | ⟨e, hanswer, hio, hclear, hafter⟩
  · exact ⟨recordsIn vs, ⟨hsettings ▸ hvalid, hsettings ▸ hplace, .opened hl hopened⟩, hstored, hall,
      .inl ⟨l, hanswer, hl, hdesk⟩⟩
  · refine ⟨recordsIn vs, ⟨?_, ?_, ?_⟩, hstored, hall, .inr ⟨?_, hclear⟩⟩
    · rw [step, hafter]
      exact hvalid
    · rw [step, hafter]
      exact hplace
    · rw [step, hafter]
      exact .shut rfl hholds hintact
    · rw [hanswer]
      exact hio

/-- Where nothing is open an opening finds what is on disk, and it is read; or it is refused. -/
theorem Rests.reopen (h : s.Rests folder D []) (hl : s.log = none) :
    (s.step (.ask .start)).contents folder = D ∧
    ((s.serve .start).1.isRefused = true ∧ ¬ s.disk.Clear folder ∨
      (s.serve .start).1 = .opened (Replay.ofRecords D) ∧
      ((s.step (.ask .start)).serve .readAll).1 = .records (D.filter (shown D))) := by
  obtain ⟨S, hagain, hstored, hall, hcase⟩ := h.start
  rw [List.append_nil] at hall
  obtain rfl : D = S := hstored.eq_of_length (hstored.length_le.antisymm hall.length_le)
  have hcontents := hagain.stands.contents
  rw [List.append_nil] at hcontents
  refine ⟨hcontents, ?_⟩
  rcases hcase with ⟨l, hanswer, hl', hdesk⟩ | ⟨hrefused, hclear⟩
  · have hclosed : l.closed = false := congrArg Desk.closed hdesk
    have hread := (hagain.stands.log hl').readAll_of_nil hclosed
    refine .inr ⟨hanswer, ?_⟩
    rw [serve, onLog_eq hl', hread]
    rfl
  · refine .inl ⟨hrefused, ?_⟩
    simpa only [released, hl] using hclear

/-- What is neither a request nor a crash adds nothing and loses nothing. -/
theorem Rests.quiet (h : s.Rests folder D B) {e : Event} (ha : Shared folder s e)
    (hask : ∀ q, e ≠ .ask q) (hcrash : e ≠ .crash) :
    ∃ S T, (s.step e).Rests folder S T ∧ S ++ T = D ++ B ∧ D <+: S := by
  obtain ⟨hvalid, hplace, hstands⟩ := h
  cases e with
  | ask q => exact absurd rfl (hask q)
  | crash => exact absurd rfl hcrash
  | configure settings =>
    refine ⟨D, B, ⟨ha.1, ha.2, ?_⟩, rfl, List.prefix_refl D⟩
    cases hstands with
    | shut hl hholds hi => exact .shut hl hholds hi
    | opened hl hlog => exact .opened hl hlog
  | disturb d =>
    refine ⟨D, B, ⟨hvalid, hplace, ?_⟩, rfl, List.prefix_refl D⟩
    cases hstands with
    | shut hl hholds hi => exact .shut hl (hholds.spares ha) hi
    | opened hl hlog => exact .opened hl (hlog.spares ha)
  | tick =>
    cases hstands with
    | shut hl hholds hi =>
      have hstep : s.step .tick = s := by simp only [step, hl]
      rw [hstep]
      exact ⟨_, [], ⟨hvalid, hplace, .shut hl hholds hi⟩, rfl, List.prefix_refl _⟩
    | @opened l _ _ hl hlog =>
      obtain ⟨l', S, T, hl', hlog', -, -, -, hsame, hstored⟩ := tick_spec hl hlog
      have hsettings : (s.step .tick).settings = s.settings := by simp only [step, hl]
      exact ⟨S, T, ⟨hsettings ▸ hvalid, hsettings ▸ hplace, .opened hl' hlog'⟩, hsame, hstored⟩

theorem Rests.crash (h : s.Rests folder D B) : (s.step .crash).Rests folder D [] := by
  obtain ⟨hvalid, hplace, hstands⟩ := h
  refine ⟨hvalid, hplace, ?_⟩
  cases hstands with
  | shut hl hholds hi => exact .shut rfl hholds hi
  | @opened l _ _ hl hlog =>
    obtain ⟨vs, htracks, hintact, -, rfl, -⟩ := hlog.keeps
    have hholds := htracks.holds
    rw [hlog.appender] at hholds
    exact .shut rfl hholds hintact

/-! ## Runs -/

theorem Rests.history (h : s.Rests folder D B) {H : History} (hlogged : H.logged = D ++ B)
    (hsafe : H.safe <+: D) {es : List Event} (hes : ∀ e ∈ es, e ≠ .ask .start ∧ e ≠ .crash)
    (ha : s.Along (Allowed folder) es) :
    ∃ S T, (s.run es).Rests folder S T ∧ (s.history H es).logged = S ++ T ∧
      (s.history H es).safe <+: S := by
  induction es generalizing s H D B with
  | nil => exact ⟨D, B, h, hlogged, hsafe⟩
  | cons e es ih =>
    obtain ⟨he, hrest⟩ := ha
    have hlater : ∀ e' ∈ es, e' ≠ .ask .start ∧ e' ≠ .crash :=
      fun e' he' => hes e' (List.mem_cons_of_mem _ he')
    obtain ⟨hstart, hcrash⟩ := hes e List.mem_cons_self
    have hstep : ∃ S T, (s.step e).Rests folder S T ∧ S ++ T = D ++ B ++ s.gained e ∧ D <+: S ∧
        (s.acknowledges e = true → T = []) := by
      cases e with
      | ask q => exact h.ask (fun hq => hstart (by rw [hq])) he
      | crash => exact absurd rfl hcrash
      | _ =>
        obtain ⟨S, T, hquiet, hsame, hstored⟩ := h.quiet he.1 (by simp) (by simp)
        exact ⟨S, T, hquiet, by simpa [gained] using hsame, hstored, by simp [acknowledges]⟩
    obtain ⟨S, T, hnext, hrecords, hstored, hack⟩ := hstep
    refine ih hnext ?_ ?_ hlater hrest
    · rw [History.after, hlogged, hrecords]
    · unfold History.after
      split
      · rename_i hacked
        rw [hlogged, ← hrecords, hack hacked, List.append_nil]
      · exact hsafe.trans hstored

/-- While nothing is open and nothing asked, what is on disk stays. -/
theorem Rests.background (h : s.Rests folder D []) (hl : s.log = none) {es : List Event}
    (hes : ∀ e ∈ es, ∀ q, e ≠ .ask q) (ha : s.Along (Allowed folder) es) :
    (s.run es).Rests folder D [] ∧ (s.run es).log = none := by
  induction es generalizing s with
  | nil => exact ⟨h, hl⟩
  | cons e es ih =>
    obtain ⟨he, hrest⟩ := ha
    have hlater : ∀ e' ∈ es, ∀ q, e' ≠ .ask q := fun e' he' => hes e' (List.mem_cons_of_mem _ he')
    refine ih ?_ ?_ hlater hrest
    · by_cases hcrash : e = .crash
      · rw [hcrash]
        exact h.crash
      · obtain ⟨S, T, hquiet, hsame, hstored⟩ := h.quiet he.1 (hes e List.mem_cons_self) hcrash
        rw [List.append_nil] at hsame
        obtain rfl := eq_nil_of_isPrefix hsame hstored
        rw [List.append_nil] at hsame
        rwa [hsame] at hquiet
    · cases e with
      | ask q => exact absurd rfl (hes _ List.mem_cons_self q)
      | tick => simp only [step, hl]
      | configure settings => exact hl
      | disturb d => exact hl
      | crash => rfl

/-- Whatever happens, what is on disk stays there, and only what was buffered or is added now comes
behind it. -/
theorem Rests.step (h : s.Rests folder D B) {e : Event} (he : Allowed folder s e) :
    ∃ Y T, (s.step e).Rests folder (D ++ Y) T ∧ ∀ r ∈ Y ++ T, r ∈ B ∨ r ∈ s.gained e := by
  by_cases hstart : e = .ask .start
  · subst hstart
    obtain ⟨S, hnext, ⟨Y, rfl⟩, hall, -⟩ := h.start
    have hbuffered : Y <+: B := (List.prefix_append_right_inj D).mp hall
    exact ⟨Y, [], hnext, fun r hr => .inl (hbuffered.mem (by simpa using hr))⟩
  · by_cases hcrash : e = .crash
    · subst hcrash
      exact ⟨[], [], by simpa using h.crash, fun r hr => by cases hr⟩
    · have hes : ∀ e' ∈ [e], e' ≠ .ask .start ∧ e' ≠ .crash := by
        simpa using ⟨hstart, hcrash⟩
      have hsafe : (History.mk (D ++ B) D).safe <+: (History.mk (D ++ B) D).logged :=
        List.prefix_append D B
      obtain ⟨S, T, hnext, hlogged, hstored⟩ :=
        h.history (H := ⟨D ++ B, D⟩) rfl (List.prefix_refl D) hes ⟨he, trivial⟩
      obtain ⟨Y, rfl⟩ := (safe_history hsafe [e]).trans hstored
      refine ⟨Y, T, hnext, fun r hr => ?_⟩
      rw [logged_history, List.append_assoc, List.append_assoc] at hlogged
      rw [← List.append_cancel_left hlogged] at hr
      simpa [gains] using hr

/-- What is on disk stays there along a run, and what comes behind it was buffered or asked for. -/
theorem Rests.extends {P : Record → Prop} (h : s.Rests folder D B) (hP : ∀ r ∈ B, P r)
    {es : List Event} (hq : ∀ q n r, .ask q ∈ es → q.record? n = some r → P r)
    (ha : s.Along (Allowed folder) es) :
    ∃ Y T, (s.run es).Rests folder (D ++ Y) T ∧ ∀ r ∈ Y ++ T, P r := by
  induction es generalizing s D B with
  | nil => exact ⟨[], B, by simpa using h, hP⟩
  | cons e es ih =>
    obtain ⟨he, hrest⟩ := ha
    obtain ⟨Y, T, hnext, hmem⟩ := h.step he
    have hall : ∀ r ∈ Y ++ T, P r := by
      intro r hr
      rcases hmem r hr with hr | hr
      · exact hP r hr
      · obtain ⟨q, n, rfl, hrecord⟩ := exists_of_gained hr
        exact hq q n r List.mem_cons_self hrecord
    obtain ⟨Y', T', hlast, hmem'⟩ := ih hnext (fun r hr => hall r (List.mem_append_right Y hr))
      (fun q n r hqe => hq q n r (List.mem_cons_of_mem _ hqe)) hrest
    refine ⟨Y ++ Y', T', by rwa [← List.append_assoc], fun r hr => ?_⟩
    rw [List.append_assoc, List.mem_append] at hr
    rcases hr with hr | hr
    · exact hall r (List.mem_append_left T hr)
    · exact hmem' r hr

theorem Rests.run (h : s.Rests folder D B) {es : List Event}
    (ha : s.Along (Allowed folder) es) : ∃ S T, (s.run es).Rests folder S T := by
  obtain ⟨Y, T, hlast, -⟩ := h.extends (P := fun _ => True) (by simp) (by simp) ha
  exact ⟨D ++ Y, T, hlast⟩

/-! ## Runs that are not too long -/

theorem Rests.within (h : s.Rests folder D B) {n : Nat} (hn : s.Within folder n) (hpos : 1 ≤ n)
    {e : Event} (he : Shared folder s e) : (s.step e).Within folder (n + 1) := by
  obtain ⟨hvalid, hplace, hstands⟩ := h
  cases e with
  | ask q =>
    by_cases hq : q = .start
    · subst hq
      exact (hn.start hstands hvalid hplace hpos).mono (Nat.le_succ n)
    · exact hn.ask hq
  | configure settings => exact hn.mono (Nat.le_succ n)
  | tick => exact hn.tick.mono (Nat.le_succ n)
  | disturb d => exact (hn.disturb hstands he).mono (Nat.le_succ n)
  | crash => exact (hn.crash hstands).mono (Nat.le_succ n)

/-- Each event begins one segment at most, so a run reaches the last number after that many. -/
theorem Rests.allowed (h : s.Rests folder D B) {n : Nat} (hn : s.Within folder n) (hpos : 1 ≤ n)
    {es : List Event} (hes : s.Along (Shared folder) es) (hlt : n + es.length < 2 ^ 64) :
    s.Along (Allowed folder) es := by
  induction es generalizing s D B n with
  | nil => exact trivial
  | cons e es ih =>
    obtain ⟨he, hrest⟩ := hes
    rw [List.length_cons] at hlt
    have hallowed : Allowed folder s e := by
      refine ⟨he, ?_⟩
      cases e with
      | ask q => exact hn.wraps (by omega) q
      | _ => rfl
    obtain ⟨Y, T, hnext, -⟩ := h.step hallowed
    exact ⟨hallowed, ih hnext (h.within hn hpos he) (Nat.le_add_left 1 n) hrest (by omega)⟩

/-- No run from an empty folder is so long that segment numbers start over, as long as its events
can be counted in a word. -/
theorem allowed_of_length {d : Disk} {settings : Settings} {es : List Event}
    (h : d.Holds folder []) (hv : settings.validate = .ok ()) (hf : settings.folder = folder)
    (hes : Along (Shared folder) { disk := d, settings } es) (hlt : es.length + 1 < 2 ^ 64) :
    Along (Allowed folder) { disk := d, settings } es := by
  have hempty : Rests folder { disk := d, settings } (recordsIn []) [] :=
    ⟨hv, hf, .shut rfl h intact_nil⟩
  have hwithin : Within folder 1 { disk := d, settings } := by
    rw [within_of_none rfl]
    exact h.within_iff.mpr (by simp)
  exact hempty.allowed hwithin (Nat.le_refl 1) hes (by omega)

/-! ## Outcomes after a crash -/

/-- Behind a commit marker only a rollback marker of the same transaction can change its outcome. -/
theorem outcome?_commit {before later : List Record} {txn n : UInt64}
    (h : ∀ r ∈ later, ¬ (r.kind = .txnRollback ∧ r.txn = txn)) :
    outcome? (before ++ [Record.marker .txnCommit n txn] ++ later) txn = some .txnCommit := by
  have hmarker : (Record.marker .txnCommit n txn).decides txn = true := by
    simp [Record.decides, Record.marker]
  rw [outcome?_append, outcome?_append, outcome?_singleton, if_pos hmarker]
  cases ho : outcome? later txn with
  | none => rfl
  | some k =>
    obtain ⟨r, hr, hd, rfl⟩ := exists_of_outcome? ho
    simp only [Record.decides, Bool.decide_and, Bool.and_eq_true, decide_eq_true_eq,
      Bool.decide_or, Bool.or_eq_true] at hd
    rcases hd.2 with hk | hk
    · rw [hk]
      rfl
    · exact absurd ⟨hk, hd.1⟩ (h r hr)

theorem Rests.commit (h : s.Rests folder D B) {txn : UInt64}
    (ha : Allowed folder s (.ask (.commit txn))) (hdone : (s.serve (.commit txn)).1 = .done) :
    ∃ n, (s.step (.ask (.commit txn))).Rests folder
      (s.contents folder ++ [Record.marker .txnCommit n txn]) [] := by
  cases hl : s.log with
  | none =>
    rw [serve_of_none hl (by simp)] at hdone
    cases hdone
  | some l =>
    obtain ⟨S, T, hnext, hrecords, -, hack⟩ := h.ask (by simp) ha
    have hgained : s.gained (.ask (.commit txn)) =
        [Record.marker .txnCommit l.nextSequence txn] := by
      simp only [gained, added, hl, hdone]
      rfl
    have hacked : s.acknowledges (.ask (.commit txn)) = true := by
      simp only [acknowledges, hl, hdone]
      rfl
    rw [hack hacked, List.append_nil] at hrecords
    rw [hack hacked, hrecords, hgained, ← h.stands.contents] at hnext
    exact ⟨_, hnext⟩

theorem shown_write {log : List Record} {r : Record} (hr : r.kind = .write)
    (hs : r.txn = 0 ∨ outcome? log r.txn = some .txnCommit) : shown log r = true := by
  simp only [shown, hr]
  exact decide_eq_true hs

/-- What was logged before a granted commit is on disk from then on, and shown as long as nobody asks
to abort the transaction. -/
theorem Rests.shown_of_commit (h : s.Rests folder D B) {txn : UInt64} {es : List Event}
    (ha : s.Along (Allowed folder) (.ask (.commit txn) :: es))
    (hdone : (s.serve (.commit txn)).1 = .done) (habort : .ask (.abort txn) ∉ es) {r : Record}
    (hr : r ∈ s.contents folder) (hwrite : r.kind = .write) (htxn : r.txn = txn) :
    let rs := ((s.step (.ask (.commit txn))).run es).contents folder
    r ∈ rs.filter (shown rs) := by
  intro rs
  obtain ⟨hcommit, hlater⟩ := ha
  obtain ⟨n, hcommitted⟩ := h.commit hcommit hdone
  have hrequest : ∀ q m r', .ask q ∈ es → q.record? m = some r' →
      ¬ (r'.kind = .txnRollback ∧ r'.txn = txn) := by
    rintro q m r' hq hrecord ⟨hkind, hid⟩
    cases q <;> cases hrecord <;> simp_all [Record.marker, Record.write]
  obtain ⟨Y, T, hlast, hnew⟩ := hcommitted.extends (by simp) hrequest hlater
  have hlist : rs = s.contents folder ++ [Record.marker .txnCommit n txn] ++ (Y ++ T) := by
    rw [← List.append_assoc]
    exact hlast.stands.contents
  have houtcome : outcome? rs txn = some .txnCommit := by
    rw [hlist]
    exact outcome?_commit hnew
  rw [List.mem_filter]
  refine ⟨?_, shown_write hwrite (.inr (htxn ▸ houtcome))⟩
  rw [hlist]
  simp [hr]

/-- In a folder that was empty nothing is shown of a transaction that nobody asked to commit. -/
theorem Rests.hidden_of_no_commit (h : s.Rests folder [] []) {txn : UInt64} (ht : txn ≠ 0)
    {es : List Event} (ha : s.Along (Allowed folder) es) (hcommit : .ask (.commit txn) ∉ es)
    {r : Record} (hwrite : r.kind = .write)
    (hr : r ∈ ((s.run es).contents folder).filter (shown ((s.run es).contents folder))) :
    r.txn ≠ txn := by
  rintro rfl
  have hrequest : ∀ q m r', .ask q ∈ es → q.record? m = some r' →
      ¬ (r'.kind = .txnCommit ∧ r'.txn = r.txn) := by
    rintro q m r' hq hrecord ⟨hkind, hid⟩
    cases q <;> cases hrecord <;> simp_all [Record.marker, Record.write]
  obtain ⟨Y, T, hlast, hnew⟩ := h.extends (by simp) hrequest ha
  have hshown := (List.mem_filter.mp hr).2
  simp only [shown, hwrite, ht, false_or, decide_eq_true_eq] at hshown
  obtain ⟨r', hr', hd, hkind⟩ := exists_of_outcome? hshown
  rw [hlast.stands.contents] at hr'
  simp only [Record.decides, decide_eq_true_eq] at hd
  exact hnew r' hr' ⟨hkind, hd.1⟩

/-! ## Crashes -/

theorem Answer.isFailure_of_isRefused {answer : Answer} (h : answer.isRefused = true) :
    answer.isFailure = true := by
  cases answer with
  | failed e => rfl
  | _ => cases h

/-- A log with nothing in its buffer is used and killed. The next opening finds a prefix of what was
logged, with all that is safe; or it is refused. -/
theorem Rests.crashed (h : s.Rests folder D []) {since background : List Event}
    (hsince : ∀ e ∈ since, e ≠ .ask .start ∧ e ≠ .crash)
    (hbackground : ∀ e ∈ background, ∀ q, e ≠ .ask q)
    (ha : s.Along (Allowed folder) (since ++ .crash :: background)) :
    let left := ((s.run since).step .crash).run background
    let again := left.step (.ask .start)
    let rs := again.contents folder
    (s.history ⟨D, D⟩ since).safe <+: rs ∧ rs <+: (s.history ⟨D, D⟩ since).logged ∧
    ((left.serve .start).1.isRefused = true ∧ ¬ left.disk.Clear folder ∨
      (left.serve .start).1 = .opened (Replay.ofRecords rs) ∧
      (again.serve .readAll).1 = .records (rs.filter (shown rs))) := by
  intro left again rs
  obtain ⟨hused, -, hleft⟩ := along_append.mp ha
  have hlogged₀ : (History.mk D D).logged = D ++ [] := (List.append_nil D).symm
  obtain ⟨S, T, hrests, hlogged, hsafe⟩ := h.history hlogged₀ (List.prefix_refl D) hsince hused
  obtain ⟨hrests', hnone⟩ := hrests.crash.background rfl hbackground hleft
  obtain ⟨hrs, hcase⟩ := hrests'.reopen hnone
  rw [show again.contents folder = rs from rfl] at hrs
  rw [hrs]
  exact ⟨hsafe, ⟨T, hlogged.symm⟩, hcase⟩

/-- What a crash leaves. The next opening is refused, or it finds a prefix of what was logged, with
all that was there at the last acknowledgement. Writes of a transaction that was committed are read,
unless it was asked to abort later; those of one that nobody asked to commit are not. Meanwhile new
segments and writes may be refused, if nothing is left of them (`Shared`); for a record that is left
behind see `Session.left_behind`. -/
theorem survives_crash {d : Disk} {settings : Settings} {before since background : List Event}
    (h : d.Holds folder []) (hv : settings.validate = .ok ()) (hf : settings.folder = folder)
    (ha : Along (Allowed folder) { disk := d, settings }
      (before ++ .ask .start :: (since ++ .crash :: background)))
    (hsince : ∀ e ∈ since, e ≠ .ask .start ∧ e ≠ .crash)
    (hbackground : ∀ e ∈ background, ∀ q, e ≠ .ask q)
    (hopen : ((run { disk := d, settings } before).serve .start).1.isFailure = false) :
    let first := run { disk := d, settings } before
    let opened := first.step (.ask .start)
    let left := ((opened.run since).step .crash).run background
    let again := left.step (.ask .start)
    let found := opened.contents folder
    let history := opened.history ⟨found, found⟩
    let rs := again.contents folder
    (first.serve .start).1 = .opened (Replay.ofRecords found) ∧
    ((left.serve .start).1.isRefused = true ∧ ¬ left.disk.Clear folder ∨
      (left.serve .start).1 = .opened (Replay.ofRecords rs) ∧
      (again.serve .readAll).1 = .records (rs.filter (shown rs)) ∧
      (history since).safe <+: rs ∧ rs <+: (history since).logged ∧
      (∀ e₁ txn e₂, before ++ .ask .start :: since = e₁ ++ .ask (.commit txn) :: e₂ →
        ((run { disk := d, settings } e₁).serve (.commit txn)).1 = .done →
        .ask (.abort txn) ∉ e₂ →
        ∀ r ∈ (run { disk := d, settings } e₁).contents folder, r.kind = .write → r.txn = txn →
          r ∈ rs.filter (shown rs)) ∧
      (∀ txn, txn ≠ 0 → .ask (.commit txn) ∉ before ++ since →
        ∀ r ∈ rs.filter (shown rs), r.kind = .write → r.txn ≠ txn)) := by
  intro first opened left again found history rs
  obtain ⟨hbefore, hstart, hrest⟩ := along_append.mp ha
  have hempty : Rests folder { disk := d, settings } (recordsIn []) [] :=
    ⟨hv, hf, .shut rfl h intact_nil⟩
  -- the opening whose log is killed later
  obtain ⟨D₀, B₀, hfirst⟩ := hempty.run hbefore
  obtain ⟨S, hopened, -, hall, ⟨l, hanswer, -, -⟩ | ⟨hrefused, -⟩⟩ := hfirst.start
  swap
  · exact absurd (Answer.isFailure_of_isRefused hrefused) (by simp [hopen])
  have hfound : found = S := by
    have hcontents := hopened.stands.contents
    rwa [List.append_nil] at hcontents
  refine ⟨hfound ▸ hanswer, ?_⟩
  -- after the crash nothing is asked for but the opening
  let tail : List Event := .crash :: (background ++ [.ask .start])
  have htail : ∀ q, q ≠ .start → .ask q ∉ tail := by
    intro q hq hmem
    simp only [tail, List.mem_cons, List.mem_append, List.not_mem_nil, reduceCtorEq, false_or,
      or_false, Event.ask.injEq] at hmem
    rcases hmem with hmem | rfl
    · exact hbackground _ hmem q rfl
    · exact hq rfl
  have hevents : (before ++ .ask .start :: since) ++ tail =
      (before ++ .ask .start :: (since ++ .crash :: background)) ++ [.ask .start] := by
    simp [tail]
  have hwhole : Along (Allowed folder) { disk := d, settings }
      ((before ++ .ask .start :: since) ++ tail) := by
    rw [hevents]
    exact along_append.mpr ⟨ha, ⟨trivial, rfl⟩, trivial⟩
  have hagainRun : again = run { disk := d, settings } ((before ++ .ask .start :: since) ++ tail) := by
    rw [hevents]
    simp only [again, left, opened, first, run_append, run_cons, run_nil]
  have hcrashed := hopened.crashed hsince hbackground hrest
  rw [← hfound] at hcrashed
  obtain ⟨hsafe, hlogged, hrefused | ⟨hanswer', hread⟩⟩ := hcrashed
  · exact .inl hrefused
  refine .inr ⟨hanswer', hread, hsafe, hlogged, ?_, ?_⟩
  · intro e₁ txn e₂ hsplit hdone habort r hr hwrite htxn
    rw [hsplit, List.append_assoc, List.cons_append] at hwhole hagainRun
    obtain ⟨hbeforeCommit, hcommit⟩ := along_append.mp hwhole
    obtain ⟨S₁, T₁, hcommitting⟩ := hempty.run hbeforeCommit
    have hnever : .ask (.abort txn) ∉ e₂ ++ tail := by
      rw [List.mem_append]
      exact not_or.mpr ⟨habort, htail _ (by simp)⟩
    have hshown := hcommitting.shown_of_commit hcommit hdone hnever hr hwrite htxn
    rwa [← run_cons, ← run_append, ← hagainRun] at hshown
  · intro txn hzero hnever r hr hwrite
    have hnowhere : .ask (.commit txn) ∉ (before ++ .ask .start :: since) ++ tail := by
      have hlast := htail (.commit txn) (by simp)
      simp only [List.mem_append, List.mem_cons, not_or] at hnever ⊢
      exact ⟨⟨hnever.1, by simp, hnever.2⟩, hlast⟩
    refine hempty.hidden_of_no_commit hzero hwhole hnowhere hwrite ?_
    rwa [← hagainRun]

/-! ## A crash on a full device -/

/-- A folder without segments, where a full device stands at the place of the second one. -/
def fullSecond : Disk where
  nodes := [((Location.top.enter "wal").enter "00000000000000000002.wal", .full),
    (Location.top.enter "wal", .folder)]

/-- Settings under which a segment is full after a write and a marker. -/
def shortSegments : Settings := { folder := "wal", segmentLimit := 80, sync := false }

/-- A transaction is committed; the write after it begins the second segment and is refused. -/
def refusedWrite : List Event :=
  [.ask .begin, .ask (.write 1 [3] [4]), .ask (.commit 1), .ask (.write 0 [5] [6]), .tick,
    .ask (.write 2 [7] [])]

theorem holds_fullSecond : fullSecond.Holds "wal" [] := by
  have hsound : fullSecond.Sound :=
    ⟨by decide +kernel, by decide +kernel, by decide +kernel, by decide +kernel⟩
  have hvolumes : fullSecond.volumes "wal" = [] := by decide +kernel
  rw [← hvolumes]
  exact Disk.holds_volumes hsound (fun _ => Refusals.tidy_none) (by decide)
    ⟨Location.top.enter "wal", by decide +kernel⟩ (by decide +kernel)

theorem survives_crash_refusedWrite :
    let opened := step { disk := fullSecond, settings := shortSegments } (.ask .start)
    let left := ((opened.run refusedWrite).step .crash).run [.crash]
    (fullSecond.Holds "wal" [] ∧ shortSegments.validate = .ok () ∧ shortSegments.folder = "wal" ∧
      Along (Allowed "wal") { disk := fullSecond, settings := shortSegments }
        ([] ++ .ask .start :: (refusedWrite ++ .crash :: [.crash])) ∧
      (∀ e ∈ refusedWrite, e ≠ .ask .start ∧ e ≠ .crash) ∧
      (∀ e ∈ [Event.crash], ∀ q, e ≠ .ask q) ∧
      (serve { disk := fullSecond, settings := shortSegments } .start).1.isFailure = false) ∧
    ((opened.run (refusedWrite.take 3)).serve (.write 0 [5] [6])).1.isRefused = true ∧
    ∃ rs, (left.serve .start).1 = .opened (Replay.ofRecords rs) ∧
      ((left.step (.ask .start)).serve .readAll).1 = .records (rs.filter (shown rs)) ∧
      Record.write 1 1 [3] [4] ∈ rs.filter (shown rs) := by
  intro opened left
  have ha : Along (Allowed "wal") { disk := fullSecond, settings := shortSegments }
      ([] ++ .ask .start :: (refusedWrite ++ .crash :: [.crash])) := by
    refine ⟨⟨trivial, ?_⟩, ⟨trivial, ?_⟩, ⟨trivial, ?_⟩, ⟨trivial, ?_⟩, ⟨trivial, ?_⟩,
      ⟨trivial, rfl⟩, ⟨trivial, ?_⟩, ⟨trivial, rfl⟩, ⟨trivial, rfl⟩, trivial⟩ <;>
      decide +kernel
  have hsince : ∀ e ∈ refusedWrite, e ≠ .ask .start ∧ e ≠ .crash := by
    simp [refusedWrite]
  have hbackground : ∀ e ∈ [Event.crash], ∀ q, e ≠ .ask q := by
    simp
  have hopen : (serve { disk := fullSecond, settings := shortSegments } .start).1.isFailure =
      false := by decide +kernel
  refine ⟨⟨holds_fullSecond, rfl, rfl, ha, hsince, hbackground, hopen⟩, by decide +kernel, ?_⟩
  obtain ⟨-, ⟨hrefused, -⟩ | ⟨hanswer, hread, -, -, hcommit, -⟩⟩ :=
    survives_crash holds_fullSecond rfl rfl ha hsince hbackground hopen
  · exact absurd hrefused (by decide +kernel)
  · refine ⟨_, hanswer, hread, ?_⟩
    exact hcommit [.ask .start, .ask .begin, .ask (.write 1 [3] [4])] 1
      [.ask (.write 0 [5] [6]), .tick, .ask (.write 2 [7] [])] rfl (by decide +kernel) (by simp)
      _ (by decide +kernel) rfl rfl

end Session

end SegmentLog
