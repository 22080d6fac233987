import SegmentLog.Proofs.Mirroring

/-!
A session does what its ledger does. One request on an open log gives the answer of the ledger and
leaves the records that the ledger has, whether the disk refuses something or not
(`Session.serve_spec`); an opening finds the records on disk (`Session.start_spec`); a tick adds
nothing (`Session.tick_spec`).
-/

namespace SegmentLog

/-- The requests that leave nothing in the buffer when they are granted. In sync mode every append
is one of them. -/
def Request.flushes (sync : Bool) : Request → Bool
  | .write txn _ _ => txn == 0 || sync
  | .commit _ | .checkpoint | .sync | .readAll => true
  | .abort _ => sync
  | .start | .begin | .close => false

namespace Session

variable {folder : String} {s : Session} {l : Log} {D B S T : List Record}

/-- The result of a request on an open log is what was entered in its ledger. -/
structure Serves (folder : String) (s : Session) (l : Log) (stored : List Record)
    (result : Answer × Session) (entered : Answer × Ledger) (stored' buffered' : List Record) :
    Prop where
  answer : result.1 = entered.1
  settings : result.2.settings = s.settings
  log : ∃ l', result.2.log = some l' ∧ l'.Stands result.2.disk folder stored' buffered' ∧
    entered.2.desk = some l'.desk ∧ l'.appender.sync = l.appender.sync ∧
    (l.appender.Ready s.disk → l'.appender.Ready result.2.disk)
  records : stored' ++ buffered' = entered.2.records
  stored : stored <+: stored'

theorem onLog_eq {α : Type} (hl : s.log = some l) (reply : α → Answer)
    (op : Log → Disk → Except Error α × Log × Disk) :
    s.onLog reply op = (.of reply (op l s.disk).1,
      { s with disk := (op l s.disk).2.2, log := some (op l s.disk).2.1 }) := by
  simp only [onLog, hl]

theorem serves_of_mirrors {α : Type} (hl : s.log = some l) (reply : α → Answer)
    (op : Log → Disk → Except Error α × Log × Disk) (enter : Desk → Desk.Entry α)
    (h : l.Mirrors s.disk folder D B (op l s.disk) (enter l.desk) S T) :
    s.Serves folder l D (s.onLog reply op) (Ledger.onDesk ⟨D ++ B, some l.desk⟩ reply enter) S T := by
  rw [onLog_eq hl]
  refine ⟨?_, rfl, ⟨_, rfl, h.stands, ?_, h.sync, h.ready⟩, h.records, h.stored⟩
  · exact congrArg (Answer.of reply) h.answer
  · exact congrArg some h.desk.symm

theorem wraps_eq {q : Request} (hq : q ≠ .start) (hl : s.log = some l) {l' : Log}
    (hl' : (s.serve q).2.log = some l') :
    s.wraps (.ask q) = decide (l'.currentSegment < l.currentSegment) := by
  have hsegment : s.segment? = some l.currentSegment := by rw [segment?, hl]; rfl
  have hsegment' : (s.serve q).2.segment? = some l'.currentSegment := by rw [segment?, hl']; rfl
  unfold wraps
  cases q with
  | start => exact absurd rfl hq
  | _ => simp only [hsegment, hsegment']

/-- Where numbers do not start over the active segment does not go back. -/
theorem not_lt_of_wraps {q : Request} (hq : q ≠ .start) (hw : s.wraps (.ask q) = false)
    (hl : s.log = some l) {l' : Log} (hl' : (s.serve q).2.log = some l') :
    ¬ l'.currentSegment < l.currentSegment := by
  rw [wraps_eq hq hl hl'] at hw
  exact of_decide_eq_false hw

theorem isFailure_of {α : Type} {reply : α → Answer} {answer : Except Error α}
    (h : (Answer.of reply answer).isFailure = false) : answer.isOk = true := by
  cases answer with
  | error e => cases h
  | ok x => rfl

/-- A request on an open log. -/
theorem serve_spec (hl : s.log = some l) (h : l.Stands s.disk folder D B) {q : Request}
    (hq : q ≠ .start) (hw : s.wraps (.ask q) = false) :
    ∃ refusal S T,
      (∀ e, refusal = some e →
        (s.serve q).1 = .failed e ∧ e.isIo = true ∧ ¬ l.appender.Ready s.disk) ∧
      s.Serves folder l D (s.serve q) (Ledger.serveRefused refusal ⟨D ++ B, some l.desk⟩ q) S T ∧
      ((s.serve q).1.isFailure = false → q.flushes l.appender.sync = true → T = []) ∧
      ((s.serve q).1.isFailure = false → q = .close → l.closed = false → T = []) := by
  have hstep : ∀ l', (s.serve q).2.log = some l' → ¬ l'.currentSegment < l.currentSegment :=
    fun l' hl' => not_lt_of_wraps hq hw hl hl'
  have hanswer {α : Type} {reply : α → Answer} {op : Log → Disk → Except Error α × Log × Disk}
      {refusal : Option Error} (hr : l.Refuses s.disk refusal (op l s.disk).1) :
      ∀ e, refusal = some e →
        (s.onLog reply op).1 = .failed e ∧ e.isIo = true ∧ ¬ l.appender.Ready s.disk := by
    intro e he
    obtain ⟨hop, hio⟩ := hr e he
    rw [onLog_eq hl, hop]
    exact ⟨rfl, hio⟩
  have hok {α : Type} {reply : α → Answer} {op : Log → Disk → Except Error α × Log × Disk}
      (hf : (s.onLog reply op).1.isFailure = false) : (op l s.disk).1.isOk = true := by
    rw [onLog_eq hl] at hf
    exact isFailure_of hf
  cases q with
  | start => exact absurd rfl hq
  | begin =>
    have hm := h.begin
    refine ⟨none, D, B, fun _ he => (by cases he), ?_, fun _ hf => (by cases hf),
      fun _ hc => by cases hc⟩
    exact serves_of_mirrors hl .number (fun l d => (l.begin.1, l.begin.2, d)) (fun k => k.begin) hm
  | write txn key value =>
    have hwl := hstep _ (by rw [serve, onLog_eq hl])
    obtain ⟨refusal, S, T, hr, hm, hforce⟩ := h.write txn key value hwl
    exact ⟨refusal, S, T, hanswer hr,
      serves_of_mirrors hl _ (fun l d => l.write d txn key value)
        (fun k => k.write refusal txn key value) hm,
      fun hf => hforce (hok hf), fun _ hc => by cases hc⟩
  | commit txn =>
    have hwl := hstep _ (by rw [serve, onLog_eq hl])
    obtain ⟨refusal, S, T, hr, hm, hforce⟩ := h.commit txn hwl
    exact ⟨refusal, S, T, hanswer hr,
      serves_of_mirrors hl _ (fun l d => l.commit d txn) (fun k => k.commit refusal txn) hm,
      fun hf _ => hforce (hok hf), fun _ hc => by cases hc⟩
  | abort txn =>
    have hwl := hstep _ (by rw [serve, onLog_eq hl])
    obtain ⟨refusal, S, T, hr, hm, hforce⟩ := h.abort txn hwl
    exact ⟨refusal, S, T, hanswer hr,
      serves_of_mirrors hl _ (fun l d => l.abort d txn) (fun k => k.abort refusal txn) hm,
      fun hf => hforce (hok hf), fun _ hc => by cases hc⟩
  | checkpoint =>
    have hwl := hstep _ (by rw [serve, onLog_eq hl])
    obtain ⟨refusal, S, T, hr, hm, hforce⟩ := h.checkpoint hwl
    exact ⟨refusal, S, T, hanswer hr,
      serves_of_mirrors hl _ _ (fun k => k.checkpoint refusal) hm,
      fun hf _ => hforce (hok hf), fun _ hc => by cases hc⟩
  | sync =>
    obtain ⟨refusal, S, T, hr, hm, hforce⟩ := h.sync
    exact ⟨refusal, S, T, hanswer hr,
      serves_of_mirrors hl _ _ (fun k => k.sync refusal) hm,
      fun hf _ => hforce (hok hf), fun _ hc => by cases hc⟩
  | readAll =>
    obtain ⟨refusal, S, T, hr, hm, hforce⟩ := h.readAll
    exact ⟨refusal, S, T, hanswer hr,
      serves_of_mirrors hl _ _ (fun k => k.readAll refusal (D ++ B)) hm,
      fun hf _ => hforce (hok hf), fun _ hc => by cases hc⟩
  | close =>
    obtain ⟨refusal, S, T, hr, hm, hforce⟩ := h.close
    exact ⟨refusal, S, T, hanswer hr,
      serves_of_mirrors hl _ _ (fun k => k.close refusal) hm,
      fun _ hf => (by cases hf),
      fun hf _ => hforce (hok hf)⟩

/-- A tick of the clock adds nothing. -/
theorem tick_spec (hl : s.log = some l) (h : l.Stands s.disk folder D B) :
    ∃ l' S T, (s.step .tick).log = some l' ∧ l'.Stands (s.step .tick).disk folder S T ∧
      l'.desk = l.desk ∧ l'.appender.sync = l.appender.sync ∧
      (l.appender.Ready s.disk → l'.appender.Ready (s.step .tick).disk) ∧
      S ++ T = D ++ B ∧ D <+: S := by
  obtain ⟨S, T, hm⟩ := h.tick
  have hstep : s.step .tick =
      { s with disk := (l.tick s.disk).2, log := some (l.tick s.disk).1 } := by
    simp only [step, hl]
  rw [hstep]
  exact ⟨_, S, T, rfl, hm.stands, hm.desk, hm.sync, hm.ready, by simpa using hm.records, hm.stored⟩

/-- A log of intact volumes is opened with all their records, or it is refused by the disk and
nothing is open. -/
theorem start_spec {vs : List Volume} (h : s.released.Holds folder vs) (hi : Intact vs)
    (hv : s.settings.validate = .ok ()) (hf : s.settings.folder = folder) :
    (∃ l, (s.serve .start).1 = .opened (Replay.ofRecords (recordsIn vs)) ∧
      (s.serve .start).2.log = some l ∧
      l.Stands (s.serve .start).2.disk folder (recordsIn vs) [] ∧
      l.desk = Desk.ofRecords (recordsIn vs) ∧ l.appender.sync = s.settings.sync ∧
      (s.released.Clear folder → s.released.Willing →
        l.appender.Ready (s.serve .start).2.disk)) ∨
    (∃ e, (s.serve .start).1 = .failed e ∧ e.isIo = true ∧ ¬ s.released.Clear folder ∧
      (s.serve .start).2 = { s with disk := s.released, log := none }) := by
  subst hf
  rcases Log.start_of_intact h hi hv with ⟨a, d', ws, hstart, hkeeps, hterms, hopens⟩ |
    ⟨e, hstart, hio, hclear⟩
  · refine .inl ⟨Log.ofReport s.settings a (Replay.ofRecords (recordsIn vs)), ?_⟩
    have hserve : s.serve .start = (.opened (Replay.ofRecords (recordsIn vs)),
        { s with
          disk := d'
          log := some (Log.ofReport s.settings a (Replay.ofRecords (recordsIn vs))) }) := by
      simp only [serve, hstart, Log.ofReport]
    rw [hserve]
    exact ⟨rfl, rfl, ⟨rfl, hterms.folder, hterms.closed, hkeeps⟩, rfl, hterms.sync,
      hopens.ready⟩
  · have hserve : s.serve .start =
        (.failed e, { s with disk := s.released, log := none }) := by
      simp only [serve, hstart]
    rw [hserve]
    exact .inr ⟨e, rfl, hio, hclear, rfl⟩

/-! ## Between requests -/

/-- The list of records that a session stands for: those on disk, and after them those in the
buffer of the open log. -/
def contents (folder : String) (s : Session) : List Record :=
  (match Log.recordsOf s.disk folder with
    | .ok rs => rs
    | .error _ => []) ++
  match s.log with
  | none => []
  | some l => Octets.records l.appender.buffer

/-- The records that a request adds: the one it asks for if it is granted, otherwise none. -/
def added (s : Session) (q : Request) (answer : Answer) : List Record :=
  match s.log with
  | none => []
  | some l => if answer.isFailure then [] else (q.record? l.nextSequence).toList

/-- The records that an event adds. -/
def gained (s : Session) : Event → List Record
  | .ask q => s.added q (s.serve q).1
  | _ => []

/-- The records that events add one after the other. -/
def gains (s : Session) : List Event → List Record
  | [] => []
  | e :: rest => s.gained e ++ (s.step e).gains rest

theorem exists_of_gained {e : Event} {r : Record} (h : r ∈ s.gained e) :
    ∃ q n, e = .ask q ∧ q.record? n = some r := by
  cases e with
  | ask q =>
    simp only [gained, added] at h
    split at h
    · cases h
    · rename_i l _
      split at h
      · cases h
      · exact ⟨q, l.nextSequence, rfl, Option.mem_toList.mp h⟩
  | _ => cases h

/-- Nothing stands in the way of writing. -/
def Ready (folder : String) (s : Session) : Prop :=
  match s.log with
  | none => s.disk.Clear folder ∧ s.disk.Willing
  | some l => l.appender.Ready s.disk

/-- Where nothing stands in the way a request is served without a refusal. -/
theorem serve_of_ready (hl : s.log = some l) (h : l.Stands s.disk folder D B) (hr : s.Ready folder)
    {q : Request} (hq : q ≠ .start) (hw : s.wraps (.ask q) = false) :
    ∃ S T, s.Serves folder l D (s.serve q) (Ledger.serveRefused none ⟨D ++ B, some l.desk⟩ q) S T := by
  simp only [Ready, hl] at hr
  obtain ⟨refusal, S, T, hrefusal, hserves, -, -⟩ := serve_spec hl h hq hw
  cases refusal with
  | none => exact ⟨S, T, hserves⟩
  | some e => exact absurd hr (hrefusal e rfl).2.2

/-- Of the records of a session these stand on disk, and those in the buffer of the open log. -/
inductive Stands (folder : String) (s : Session) : List Record → List Record → Prop
  | shut {vs : List Volume} (hl : s.log = none) (h : s.disk.Holds folder vs) (hi : Intact vs) :
    Stands folder s (recordsIn vs) []
  | opened {l : Log} {D B : List Record} (hl : s.log = some l) (h : l.Stands s.disk folder D B) :
    Stands folder s D B

theorem Stands.log (h : s.Stands folder D B) (hl : s.log = some l) :
    l.Stands s.disk folder D B := by
  cases h with
  | shut hnone =>
    rw [hl] at hnone
    cases hnone
  | @opened l' _ _ hl' h =>
    obtain rfl : l = l' := Option.some.inj (hl.symm.trans hl')
    exact h

theorem Stands.contents (h : s.Stands folder D B) : s.contents folder = D ++ B := by
  cases h with
  | shut hl h hi =>
    simp only [Session.contents, hl, h.recordsOf, survey_of_intact hi]
  | @opened l _ _ hl h =>
    have hread := Log.recordsOf_of_keeps h.keeps
    rw [h.appender] at hread
    obtain ⟨vs, -, -, -, -, hbuffered⟩ := h.keeps
    simp only [Session.contents, hl, hread, hbuffered]

/-- Letting go of the open log loses nothing but what is in its buffer, and not even that where
nothing stands in the way. -/
theorem Stands.released (h : s.Stands folder D B) :
    ∃ vs, s.released.Holds folder vs ∧ Intact vs ∧ D <+: recordsIn vs ∧ recordsIn vs <+: D ++ B ∧
      (s.letsGo = true → (∀ l, s.log = some l → l.closed = true → B = []) →
        recordsIn vs = D ++ B) ∧
      (s.Ready folder → s.released.Clear folder ∧ s.released.Willing ∧ s.letsGo = true) := by
  cases h with
  | @shut vs hl h hi =>
    refine ⟨vs, ?_, hi, List.prefix_refl _, List.prefix_append _ _, fun _ _ => by simp, ?_⟩
    · simpa only [Session.released, hl] using h
    · intro hr
      simp only [Ready, hl] at hr
      simpa only [Session.released, letsGo, hl, and_true] using hr
  | @opened l _ _ hl h =>
    obtain ⟨vs, hholds, hintact, hstored, hall, hopen, hshut, hready⟩ := h.drop
    refine ⟨vs, ?_, hintact, hstored, hall, ?_, ?_⟩
    · simpa only [Session.released, hl] using hholds
    · intro hg hc
      simp only [letsGo, hl] at hg
      cases hcl : l.closed with
      | true => rw [hshut hcl, hc l hl hcl, List.append_nil]
      | false => exact hopen hg hcl
    · intro hr
      simp only [Ready, hl] at hr
      simpa only [Session.released, letsGo, hl] using hready hr

theorem eq_nil_of_isPrefix {D S T : List Record} (h : S ++ T = D) (hp : D <+: S) : T = [] := by
  obtain ⟨X, rfl⟩ := hp
  rw [List.append_assoc] at h
  have hnil := List.append_right_eq_self.mp h
  exact (List.append_eq_nil_iff.mp hnil).2

/-- Where nothing is open a request other than an opening is not served. -/
theorem serve_of_none (hl : s.log = none) {q : Request} (hq : q ≠ .start) :
    s.serve q = (.absent, s) := by
  cases q with
  | start => exact absurd rfl hq
  | _ => simp only [serve, onLog, hl]

end Session

end SegmentLog
