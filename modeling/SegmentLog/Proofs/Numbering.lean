import SegmentLog.Proofs.Simulation

/-!
The numbers of segments. A request on an open log stays in its segment or goes on in the next one
(`Session.follows_serve`), and an opening goes on in the last one that is there
(`Session.Within.start`). So numbers do not start over while no segment has a number near the last
one (`Session.Within.wraps`).
-/

namespace SegmentLog

/-- A segment number is followed by itself or by the next. -/
def Follows (old new : UInt64) : Prop := new = old ∨ new = old + 1

theorem Follows.toNat_le {old new : UInt64} (h : Follows old new) : new.toNat ≤ old.toNat + 1 := by
  rcases h with rfl | rfl
  · omega
  · rw [UInt64.toNat_add]
    exact Nat.mod_le _ _

/-- Below the last number the next one is not a lower one. -/
theorem Follows.not_lt {old new : UInt64} (h : Follows old new) (hlt : old.toNat + 1 < 2 ^ 64) :
    ¬ new < old := by
  rcases h with rfl | rfl
  · exact UInt64.lt_irrefl _
  · rw [UInt64.lt_iff_toNat_lt, UInt64.toNat_add]
    simp only [UInt64.toNat_one]
    omega

/-! ## One operation -/

namespace Log

theorem follows_add (l : Log) (d : Disk) (r : Record) (force : Bool) :
    Follows l.currentSegment (l.add d r force).2.1.currentSegment := by
  unfold Log.add
  split
  · exact .inl rfl
  · have happend := l.appender.append_active d r force
    rcases ha : l.appender.append d r force with ⟨answer, a, d'⟩
    rw [ha] at happend
    have hfollows : Follows l.currentSegment a.active.id :=
      happend.imp (congrArg Segment.id) (congrArg Segment.id)
    cases answer <;> exact hfollows

theorem follows_addOutcome (l : Log) (d : Disk) (ts : Transactions)
    (refused granted : Transactions → Transactions) (r : Record) (force : Bool) :
    Follows l.currentSegment (l.addOutcome d ts refused granted r force).2.1.currentSegment := by
  have hadd := follows_add { l with transactions := ts } d r force
  rcases ha : { l with transactions := ts }.add d r force with ⟨answer, l', d'⟩
  rw [ha] at hadd
  simp only [Log.addOutcome, ha]
  cases answer <;> exact hadd

theorem follows_commit (l : Log) (d : Disk) (txn : UInt64) :
    Follows l.currentSegment (l.commit d txn).2.1.currentSegment := by
  cases hs : l.transactions.startCommit txn with
  | error e =>
    simp only [Log.commit, hs]
    exact .inl rfl
  | ok ts =>
    rw [commit_eq hs]
    apply follows_addOutcome

theorem follows_abort (l : Log) (d : Disk) (txn : UInt64) :
    Follows l.currentSegment (l.abort d txn).2.1.currentSegment := by
  cases hs : l.transactions.takeForAbort txn with
  | error e =>
    simp only [Log.abort, hs]
    exact .inl rfl
  | ok taken =>
    rw [abort_eq hs]
    apply follows_addOutcome

/-- A transaction begins in the segment that is active. -/
theorem currentSegment_begin (l : Log) : l.begin.2.currentSegment = l.currentSegment := by
  unfold Log.begin
  split <;> rfl

theorem currentSegment_sync (l : Log) (d : Disk) :
    (l.sync d).2.1.currentSegment = l.currentSegment := by
  unfold Log.sync
  split
  · rfl
  · exact congrArg Segment.id (l.appender.flush_active d)

theorem currentSegment_readAll (l : Log) (d : Disk) :
    (l.readAll d).2.1.currentSegment = l.currentSegment := by
  have hflush := l.appender.flush_active d
  unfold Log.readAll
  split
  · rfl
  · rcases hf : l.appender.flush d with ⟨answer, a, d'⟩
    rw [hf] at hflush
    cases answer with
    | error e => exact congrArg Segment.id hflush
    | ok _ =>
      dsimp only
      split <;> exact congrArg Segment.id hflush

theorem currentSegment_close (l : Log) (d : Disk) :
    (l.close d).2.1.currentSegment = l.currentSegment := by
  unfold Log.close
  split
  · rfl
  · exact congrArg Segment.id (l.appender.close_active d)

theorem currentSegment_tick (l : Log) (d : Disk) :
    (l.tick d).1.currentSegment = l.currentSegment := by
  show (l.appender.tick d).1.active.id = l.appender.active.id
  unfold Appender.tick
  split
  · rfl
  · exact congrArg Segment.id (l.appender.flush_active d)

end Log

/-! ## Bounds -/

/-- No segment of a folder has a number above this one. -/
def Disk.Within (d : Disk) (folder : String) (n : Nat) : Prop :=
  ∀ segments, Segment.list d folder = .ok segments → ∀ s ∈ segments, s.id.toNat ≤ n

theorem Disk.Holds.within_iff {d : Disk} {folder : String} {vs : List Volume} {n : Nat}
    (h : d.Holds folder vs) : d.Within folder n ↔ ∀ v ∈ vs, v.segment.id.toNat ≤ n := by
  unfold Disk.Within
  rw [h.list]
  constructor
  · intro hn v hv
    exact hn _ rfl v.segment (List.mem_map_of_mem hv)
  · rintro hn _ ⟨⟩ s hs
    obtain ⟨v, hv, rfl⟩ := List.mem_map.mp hs
    exact hn v hv

theorem Disk.Within.mono {d : Disk} {folder : String} {n m : Nat} (h : d.Within folder n)
    (hle : n ≤ m) : d.Within folder m :=
  fun segments hlist s hs => (h segments hlist s hs).trans hle

/-- The active segment of an appender is the last one of its folder. -/
theorem Appender.Keeps.within {a : Appender} {d : Disk} {D B : List Record} (h : a.Keeps d D B) :
    d.Within a.folder a.active.id.toNat := by
  obtain ⟨vs, htracks, -⟩ := h
  rw [htracks.holds.within_iff]
  exact fun v hv => UInt64.le_iff_toNat_le.mp (htracks.id_le hv)

namespace Log

variable {l : Log} {d : Disk} {folder : String} {D B : List Record}

theorem Stands.within (h : l.Stands d folder D B) : d.Within folder l.currentSegment.toNat := by
  have hwithin := h.keeps.within
  rwa [h.appender] at hwithin

/-- Letting go of a log begins no segment. -/
theorem Stands.within_drop (h : l.Stands d folder D B) :
    (l.drop d).Within folder l.currentSegment.toNat := by
  cases hc : l.closed with
  | true =>
    rw [Log.drop, Appender.close, if_pos (h.closed.trans hc)]
    exact h.within
  | false =>
    obtain ⟨answer, a, d', S, T, hclose, hadv, -, -⟩ := h.keeps.close (h.closed.trans hc)
    have hactive := l.appender.close_active d
    rw [hclose] at hactive
    have hwithin := hadv.keeps.within
    rw [hadv.terms.folder, show a.active = l.appender.active from hactive] at hwithin
    rw [Log.drop, hclose]
    exact h.appender ▸ hwithin

end Log

namespace Session

variable {folder : String} {s : Session} {l : Log} {D B : List Record} {n : Nat}

/-- A request on an open log stays in its segment or goes on in the next one. -/
theorem follows_serve (hl : s.log = some l) {q : Request} (hq : q ≠ .start) :
    ∃ l', (s.serve q).2.log = some l' ∧ Follows l.currentSegment l'.currentSegment := by
  unfold serve
  cases q with
  | start => exact absurd rfl hq
  | begin =>
    dsimp only
    rw [onLog_eq hl]
    exact ⟨_, rfl, .inl l.currentSegment_begin⟩
  | write txn key value =>
    dsimp only
    rw [onLog_eq hl]
    exact ⟨_, rfl, l.follows_add s.disk _ _⟩
  | checkpoint =>
    dsimp only
    rw [onLog_eq hl]
    exact ⟨_, rfl, l.follows_add s.disk _ _⟩
  | commit txn =>
    dsimp only
    rw [onLog_eq hl]
    exact ⟨_, rfl, l.follows_commit s.disk txn⟩
  | abort txn =>
    dsimp only
    rw [onLog_eq hl]
    exact ⟨_, rfl, l.follows_abort s.disk txn⟩
  | sync =>
    dsimp only
    rw [onLog_eq hl]
    exact ⟨_, rfl, .inl (l.currentSegment_sync s.disk)⟩
  | readAll =>
    dsimp only
    rw [onLog_eq hl]
    exact ⟨_, rfl, .inl (l.currentSegment_readAll s.disk)⟩
  | close =>
    dsimp only
    rw [onLog_eq hl]
    exact ⟨_, rfl, .inl (l.currentSegment_close s.disk)⟩

/-- A request that stays in its segment does not start numbers over. -/
theorem wraps_of_same {q : Request}
    (h : ∀ l l', s.log = some l → (s.serve q).2.log = some l' →
      l'.currentSegment = l.currentSegment) : s.wraps (.ask q) = false := by
  by_cases hq : q = .start
  · subst hq
    rfl
  · cases hl : s.log with
    | none =>
      unfold wraps
      cases q with
      | start => exact absurd rfl hq
      | _ => simp only [segment?, hl, Option.map_none]
    | some l =>
      obtain ⟨l', hl', -⟩ := follows_serve hl hq
      rw [wraps_eq hq hl hl', h l l' hl hl']
      exact decide_eq_false (UInt64.lt_irrefl _)

/-- Closing begins no segment. -/
theorem wraps_close (s : Session) : s.wraps (.ask .close) = false := by
  refine wraps_of_same fun l l' hl hl' => ?_
  rw [serve, onLog_eq hl] at hl'
  cases hl'
  exact l.currentSegment_close s.disk

/-- Reading begins no segment. -/
theorem wraps_readAll (s : Session) : s.wraps (.ask .readAll) = false := by
  refine wraps_of_same fun l l' hl hl' => ?_
  rw [serve, onLog_eq hl] at hl'
  cases hl'
  exact l.currentSegment_readAll s.disk

/-! ## Along a run -/

/-- No segment of a session has a number above this one. -/
def Within (folder : String) (n : Nat) (s : Session) : Prop :=
  match s.log with
  | none => s.disk.Within folder n
  | some l => l.currentSegment.toNat ≤ n

theorem within_of_none (hl : s.log = none) : s.Within folder n ↔ s.disk.Within folder n := by
  simp only [Within, hl]

theorem within_of_some (hl : s.log = some l) : s.Within folder n ↔ l.currentSegment.toNat ≤ n := by
  simp only [Within, hl]

theorem Within.mono {m : Nat} (hn : s.Within folder n) (hle : n ≤ m) : s.Within folder m := by
  cases hl : s.log with
  | none =>
    rw [within_of_none hl] at hn ⊢
    exact hn.mono hle
  | some l =>
    rw [within_of_some hl] at hn ⊢
    exact hn.trans hle

/-- Numbers do not start over below the last one. -/
theorem Within.wraps (hn : s.Within folder n) (hlt : n + 1 < 2 ^ 64) (q : Request) :
    s.wraps (.ask q) = false := by
  by_cases hq : q = .start
  · subst hq
    rfl
  · cases hl : s.log with
    | none => exact wraps_of_same fun l l' hl' => by rw [hl] at hl'; cases hl'
    | some l =>
      obtain ⟨l', hl', hfollows⟩ := follows_serve hl hq
      rw [within_of_some hl] at hn
      rw [wraps_eq hq hl hl']
      apply decide_eq_false
      apply hfollows.not_lt
      omega

theorem Within.ask (hn : s.Within folder n) {q : Request} (hq : q ≠ .start) :
    (s.step (.ask q)).Within folder (n + 1) := by
  cases hl : s.log with
  | none =>
    rw [step, serve_of_none hl hq]
    exact hn.mono (Nat.le_succ n)
  | some l =>
    obtain ⟨l', hl', hfollows⟩ := follows_serve hl hq
    rw [within_of_some hl] at hn
    rw [step, within_of_some hl']
    have hnext := hfollows.toNat_le
    omega

theorem Within.released (hn : s.Within folder n) (h : s.Stands folder D B) :
    s.released.Within folder n := by
  cases hl : s.log with
  | none =>
    rw [within_of_none hl] at hn
    simpa only [Session.released, hl] using hn
  | some l =>
    rw [within_of_some hl] at hn
    simpa only [Session.released, hl] using (h.log hl).within_drop.mono hn

/-- An opening goes on in the last segment that is there. -/
theorem Within.start (hn : s.Within folder n) (h : s.Stands folder D B)
    (hv : s.settings.validate = .ok ()) (hf : s.settings.folder = folder) (hpos : 1 ≤ n) :
    (s.step (.ask .start)).Within folder n := by
  subst hf
  obtain ⟨vs, hholds, hintact, -⟩ := h.released
  have hreleased := hn.released h
  rcases Log.start_of_intact hholds hintact hv with ⟨a, d', ws, hstart, -, -, hopens⟩ |
    ⟨e, hstart, -, -⟩
  · have hl : (s.step (.ask .start)).log =
        some (Log.ofReport s.settings a (Replay.ofRecords (recordsIn vs))) := by
      simp only [step, serve, hstart]
    rw [within_of_some hl]
    show a.active.id.toNat ≤ n
    rw [hopens.active]
    rcases List.eq_nil_or_concat vs with rfl | ⟨front, v, rfl⟩
    · exact hpos
    · rw [List.concat_eq_append, Appender.lastOf_append]
      exact hholds.within_iff.mp hreleased v (by simp)
  · have hstep : s.step (.ask .start) = { s with disk := s.released, log := none } := by
      simp only [step, serve, hstart]
    rw [hstep]
    exact hreleased

theorem Within.tick (hn : s.Within folder n) : (s.step .tick).Within folder n := by
  cases hl : s.log with
  | none =>
    have hstep : s.step .tick = s := by simp only [step, hl]
    rwa [hstep]
  | some l =>
    have hstep : (s.step .tick).log = some (l.tick s.disk).1 := by simp only [step, hl]
    rw [within_of_some hl] at hn
    rwa [within_of_some hstep, l.currentSegment_tick]

theorem Within.crash (hn : s.Within folder n) (h : s.Stands folder D B) :
    (s.step .crash).Within folder n := by
  show s.disk.Within folder n
  cases hl : s.log with
  | none => rwa [within_of_none hl] at hn
  | some l =>
    rw [within_of_some hl] at hn
    exact (h.log hl).within.mono hn

theorem Within.disturb (hn : s.Within folder n) (h : s.Stands folder D B) {d : Disk}
    (hd : Disk.Spares folder s.disk d) : (s.step (.disturb d)).Within folder n := by
  cases h with
  | @shut vs hl hholds hi =>
    rw [within_of_none hl, hholds.within_iff] at hn
    have hl' : (s.step (.disturb d)).log = none := hl
    rw [within_of_none hl']
    exact (hholds.spares hd).within_iff.mpr hn
  | @opened l _ _ hl h =>
    have hl' : (s.step (.disturb d)).log = some l := hl
    rw [within_of_some hl] at hn
    rwa [within_of_some hl']

end Session

end SegmentLog
