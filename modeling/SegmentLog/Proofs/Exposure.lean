import SegmentLog.Proofs.Concluding

/-!
What an appender may lose at any time is what stands in its buffer, and that is little. Between
operations the buffer is below its limit, and empty in sync mode; it is a row of whole records; and
together with the file that is open it makes up the offset (`Appender.Bounded`). The disk under the
appender may be anything, and refuse anything, for good or for once. A flush gives the buffer to the file, or it lets go of the file and keeps
the buffer (`Appender.flush_spec`), and either way every operation keeps the bounds
(`Appender.Preserves`). So they hold in every state that an appender comes to, whatever is refused on
the way (`Writing.Reaches.bounded`).
-/

namespace SegmentLog

namespace Appender

variable {a b c : Appender} {d d' d'' : Disk}

/-! ## Bounds -/

/-- The offset tells what the open file holds and what the buffer adds to it. -/
structure Aligned (a : Appender) (d : Disk) : Prop where
  within : a.buffer.length ≤ a.offset
  held : ∀ body, a.file = some (.file body) → d.size (.file body) = a.settled

/-- The bounds of what stands in the buffer only. -/
structure Bounded (a : Appender) (d : Disk) : Prop extends a.Aligned d where
  short : a.buffer = [] ∨ a.buffer.length < a.bufferLimit
  synced : a.sync = true → a.buffer = []
  whole : a.buffer.Whole

/-- Of an empty buffer nothing can be lost. -/
theorem Aligned.bounded (h : a.Aligned d) (hb : a.buffer = []) : a.Bounded d :=
  ⟨h, .inl hb, fun _ => hb, hb ▸ Octets.whole_nil⟩

/-- Which file is open, and whether the appender is closed, counts for nothing but the length of the
file. -/
theorem Bounded.refiled (h : a.Bounded d) {f : Option Node}
    (hf : ∀ body, f = some (.file body) → d'.size (.file body) = a.settled) (closed : Bool) :
    Bounded { a with file := f, closed } d' :=
  ⟨⟨h.within, hf⟩, h.short, h.synced, h.whole⟩

/-- A segment that was just opened holds all that the offset tells. -/
theorem bounded_moveTo (a : Appender) (s : Segment) (n : Node) (d : Disk) :
    (a.moveTo s n (d.size n)).Bounded d := by
  refine Aligned.bounded ⟨Nat.zero_le _, ?_⟩ rfl
  intro body hbody
  rw [← Option.some.inj hbody]
  rfl

/-- An operation has kept the terms of an appender, and its bounds. -/
structure Preserves (a : Appender) (d : Disk) (b : Appender) (d' : Disk) : Prop where
  terms : SameTerms a b
  bounded : a.Bounded d → b.Bounded d'

namespace Preserves

theorem refl (a : Appender) (d : Disk) : Preserves a d a d := ⟨.refl a, id⟩

theorem trans (h : Preserves a d b d') (h' : Preserves b d' c d'') : Preserves a d c d'' :=
  ⟨h.terms.trans h'.terms, h'.bounded ∘ h.bounded⟩

theorem drop_file (a : Appender) (d d' : Disk) : Preserves a d { a with file := none } d' :=
  ⟨⟨rfl, rfl, rfl, rfl, rfl⟩, fun h => h.refiled (fun _ hbody => by cases hbody) a.closed⟩

theorem moveTo (h : Preserves a d b d') (s : Segment) (n : Node) (d'' : Disk) :
    Preserves a d (b.moveTo s n (d''.size n)) d'' :=
  ⟨h.terms.trans ⟨rfl, rfl, rfl, rfl, rfl⟩, fun _ => b.bounded_moveTo s n d''⟩

end Preserves

/-! ## Flushing -/

theorem size_of_openSegment {folder : String} {s : Segment} {n : Node} {length : Nat}
    (h : openSegment d folder s = .ok (n, length, d')) : length = d'.size n := by
  unfold openSegment at h
  split at h
  · cases h
  · cases h
    rfl

/-- A file that is opened again has the length that is known to be written. -/
theorem size_of_reopen {body : Nat} (h : a.reopen d = (.ok (.file body), d')) :
    d'.size (.file body) = a.settled := by
  unfold Appender.reopen at h
  split at h
  · cases h
  · split at h
    · cases h
    · rename_i hresize
      cases h
      rw [Disk.eq_of_resize hresize, Disk.size, Disk.bodies_setBody_self, Body.length_resize]

/-- A file of that length takes the buffer behind it. -/
theorem aligned_writeOut {n : Node} (hwithin : a.buffer.length ≤ a.offset)
    (hsize : ∀ body, n = .file body → d.size n = a.settled) (hne : a.buffer ≠ [])
    (hok : (a.writeOut d n).1 = .ok ()) : (a.writeOut d n).2.1.Aligned (a.writeOut d n).2.2 := by
  cases n with
  | file body =>
    rw [writeOut_of_ok hok]
    refine ⟨Nat.zero_le _, ?_⟩
    intro body' hbody
    obtain rfl : body = body' := by simpa using hbody
    have hlength := hsize body rfl
    simp only [Disk.size] at hlength
    rw [Disk.size, Disk.bodies_setBody_self, ← Body.length_octets, Body.octets_append,
      List.length_append, Body.length_octets, hlength, Appender.settled, Appender.settled]
    simp only [List.length_nil]
    omega
  | full =>
    rw [writeOut_full hne] at hok
    cases hok
  | folder => cases hok

theorem Aligned.flush (h : a.Aligned d) (hok : (a.flush d).1 = .ok ()) :
    (a.flush d).2.1.Aligned (a.flush d).2.2 := by
  by_cases hempty : a.buffer = []
  · rw [Appender.flush, if_pos hempty]
    exact h
  · cases hf : a.file with
    | some n =>
      have hflush : a.flush d = a.writeOut d n := by simp only [Appender.flush, if_neg hempty, hf]
      rw [hflush] at hok ⊢
      refine aligned_writeOut h.within ?_ hempty hok
      rintro body rfl
      exact h.held body hf
    | none =>
      rcases hr : a.reopen d with ⟨answer, d₁⟩
      cases answer with
      | error e =>
        simp only [Appender.flush, if_neg hempty, hf, hr] at hok
        cases hok
      | ok n =>
        have hflush : a.flush d = a.writeOut d₁ n := by
          simp only [Appender.flush, if_neg hempty, hf, hr]
        rw [hflush] at hok ⊢
        refine aligned_writeOut h.within ?_ hempty hok
        rintro body rfl
        exact size_of_reopen hr

/-- What a flush leaves, on either way. -/
theorem preserves_flush (a : Appender) (d : Disk) :
    Preserves a d (a.flush d).2.1 (a.flush d).2.2 := by
  rcases a.flush_spec d with ⟨f, d', hflush⟩ | ⟨e, d', hflush⟩
  · refine ⟨?_, fun h => ?_⟩
    · rw [hflush]
      exact ⟨rfl, rfl, rfl, rfl, rfl⟩
    · have haligned := h.toAligned.flush (by rw [hflush])
      rw [hflush] at haligned ⊢
      exact haligned.bounded rfl
  · rw [hflush]
    exact .drop_file a d d'

theorem preserves_tick (a : Appender) (d : Disk) : Preserves a d (a.tick d).1 (a.tick d).2 := by
  unfold Appender.tick
  split
  · exact .refl a d
  · exact preserves_flush a d

/-! ## Appending -/

theorem preserves_rotate (a : Appender) (d : Disk) :
    Preserves a d (a.rotate d).2.1 (a.rotate d).2.2 := by
  have hkept := preserves_flush a d
  unfold Appender.rotate
  rcases a.flush_spec d with ⟨f, d', hflush⟩ | ⟨e, d', hflush⟩
  · rw [hflush] at hkept ⊢
    dsimp only at hkept ⊢
    split
    · exact hkept.trans (.drop_file _ _ _)
    · rename_i hopen
      rw [size_of_openSegment hopen]
      exact hkept.moveTo _ _ _
  · rw [hflush] at hkept ⊢
    exact hkept

theorem preserves_makeRoom (a : Appender) (d : Disk) (length : Nat) :
    Preserves a d (a.makeRoom d length).2.1 (a.makeRoom d length).2.2 := by
  unfold Appender.makeRoom
  split
  · exact preserves_rotate a d
  · exact .refl a d

theorem Aligned.holding (h : a.Aligned d) (bs : Octets) : (a.holding bs).Aligned d := by
  have hwithin := h.within
  constructor
  · simp only [Appender.holding, List.length_append]
    omega
  · intro body hbody
    rw [h.held body hbody]
    simp only [Appender.holding, Appender.settled, List.length_append]
    omega

/-- The octets of records go to the file or stay in the buffer; refused, they leave the buffer as it
was. -/
theorem preserves_enqueue (a : Appender) (d : Disk) {bs : Octets} (hw : bs.Whole) (force : Bool) :
    Preserves a d (a.enqueue d bs force).2.1 (a.enqueue d bs force).2.2 := by
  by_cases hflushes : (a.holding bs).Flushes force
  · rcases (a.holding bs).flush_spec d with ⟨f, d', hflush⟩ | ⟨e, d', hflush⟩
    · rw [enqueue_of_flush hflushes hflush]
      refine ⟨⟨rfl, rfl, rfl, rfl, rfl⟩, fun h => ?_⟩
      have haligned := (h.holding bs).flush (by rw [hflush])
      rw [hflush] at haligned
      exact haligned.bounded rfl
    · rw [enqueue_of_refused hflushes hflush]
      exact .drop_file a d d'
  · rw [enqueue_of_buffer hflushes]
    simp only [Flushes, Bool.or_eq_true, decide_eq_true_eq, not_or] at hflushes
    obtain ⟨⟨-, hsync⟩, hlimit⟩ := hflushes
    exact ⟨⟨rfl, rfl, rfl, rfl, rfl⟩, fun h => ⟨h.holding bs, .inr (Nat.not_le.mp hlimit),
      fun hs => absurd hs hsync, h.whole.append hw⟩⟩

theorem preserves_append (a : Appender) (d : Disk) (r : Record) (force : Bool) :
    Preserves a d (a.append d r force).2.1 (a.append d r force).2.2 := by
  unfold Appender.append
  split
  · exact .refl a d
  · rename_i bs hencode
    obtain ⟨hfits, rfl⟩ := Record.encode_eq_ok_iff.mp hencode
    split
    · exact .refl a d
    · have hroom := preserves_makeRoom a d r.form.length
      rcases hm : a.makeRoom d r.form.length with ⟨answer, b, d₁⟩
      rw [hm] at hroom
      cases answer with
      | error e => exact hroom
      | ok _ =>
        have hadded := preserves_enqueue b d₁ (Octets.whole_form hfits) force
        rcases he : b.enqueue d₁ r.form force with ⟨answer, c, d₂⟩
        rw [he] at hadded
        cases answer with
        | error e =>
          simp only [he]
          exact hroom.trans hadded
        | ok _ =>
          simp only [he]
          exact hroom.trans hadded

/-! ## Closing and cutting -/

theorem preserves_letGo (a : Appender) (d : Disk) :
    Preserves a d (a.letGo d).2.1 (a.letGo d).2.2 := by
  unfold Appender.letGo
  split
  · exact .refl a d
  · split <;> exact .drop_file a d d

/-- A closing keeps everything else. -/
theorem preserves_close (a : Appender) (d : Disk) :
    Preserves { a with closed := true } d (a.close d).2.1 (a.close d).2.2 := by
  cases hc : a.closed with
  | true =>
    have hsame : { a with closed := true } = a := by rw [← hc]
    rw [close_of_closed hc, hsame]
    exact .refl a d
  | false =>
    have hlast := preserves_flush { a with closed := true } d
    rcases hf : { a with closed := true }.flush d with ⟨answer, b, d₁⟩
    rw [hf] at hlast
    have hagain := preserves_flush b d₁
    rcases hg : b.flush d₁ with ⟨answer', c, d₂⟩
    rw [hg] at hagain
    cases answer' with
    | error e =>
      simp only [Appender.close, hc, hf, hg, Bool.false_eq_true, if_false]
      exact hlast.trans hagain
    | ok _ =>
      simp only [Appender.close, hc, hf, hg, Bool.false_eq_true, if_false]
      exact (hlast.trans hagain).trans (preserves_letGo c d₂)

theorem closed_close (a : Appender) (d : Disk) : (a.close d).2.1.closed = true :=
  (preserves_close a d).terms.closed

/-- A cut drops the buffer before it does anything that may be refused. -/
theorem preserves_cut (a : Appender) (d : Disk) (id : UInt64) (offset : Nat) :
    Preserves a d (a.cut d id offset).2.1 (a.cut d id offset).2.2 := by
  have hdropped (d' : Disk) : Preserves a d { a with buffer := [], file := none } d' :=
    ⟨⟨rfl, rfl, rfl, rfl, rfl⟩,
      fun _ => Aligned.bounded ⟨Nat.zero_le _, fun _ hbody => by cases hbody⟩ rfl⟩
  unfold Appender.cut
  split
  · exact .refl a d
  · dsimp only
    split
    · exact hdropped _
    · split
      · exact hdropped _
      · split
        · exact hdropped _
        · split
          · exact hdropped _
          · rename_i hopen
            rw [size_of_openSegment hopen]
            exact (hdropped d).moveTo _ _ _

/-! ## Opening -/

/-- An appender that was just opened is set to the end of a segment. -/
theorem eq_moveTo_of_start {settings : Settings} (h : Appender.start d settings = (.ok a, d')) :
    ∃ s n, a = (blank settings).moveTo s n (d'.size n) := by
  unfold Appender.start at h
  split at h
  · cases h
  · split at h
    · cases h
    · split at h
      · cases h
      · rename_i hopen
        cases h
        rw [size_of_openSegment hopen]
        exact ⟨_, _, rfl⟩

end Appender

namespace Writing

variable {w v : Writing} {settings : Settings}

/-! ## Refusals -/

/-- The appender, where the file that it holds open takes nothing. -/
def jammed (w : Writing) : Writing :=
  { w with appender := { w.appender with file := w.appender.file.map fun _ => .full } }

/-- What happens to an appender while the file that it holds open takes nothing, for this one event;
what a disk refuses for good is told by itself. Where it comes to writing to this file the write is
refused and the file let go; otherwise nothing is different. -/
def stepRefused (w : Writing) (e : Event) : Writing :=
  if (w.jammed.step e).appender.file = none then w.jammed.step e else w.step e

/-- Others change the length of no file that the appender holds open. Apart from that they may change
the disk as they like, and what it refuses later. -/
def Untouched (w : Writing) : Event → Prop
  | .disturb d =>
    ∀ body, w.appender.file = some (.file body) → d.size (.file body) = w.disk.size (.file body)
  | _ => True

/-- What becomes of an appender between operations, whatever is refused on the way. -/
inductive Reaches (w : Writing) : Writing → Prop
  | refl : Reaches w w
  | step {v : Writing} {e : Event} (h : Reaches w v) (he : v.Untouched e) : Reaches w (v.step e)
  | refused {v : Writing} {e : Event} (h : Reaches w v) (he : v.Untouched e) :
    Reaches w (v.stepRefused e)

/-! ## Bounds along a run -/

/-- An appender with these settings is within its bounds. -/
structure BoundedBy (settings : Settings) (w : Writing) : Prop where
  bounded : w.appender.Bounded w.disk
  limit : w.appender.bufferLimit = settings.bufferLimit
  sync : w.appender.sync = settings.sync

namespace BoundedBy

theorem preserves (h : w.BoundedBy settings) {a : Appender} {d : Disk}
    (hp : w.appender.Preserves w.disk a d) : BoundedBy settings ⟨a, d⟩ :=
  ⟨hp.bounded h.bounded, hp.terms.bufferLimit.trans h.limit, hp.terms.sync.trans h.sync⟩

theorem refiled (h : w.BoundedBy settings) {f : Option Node} {d : Disk}
    (hf : ∀ body, f = some (.file body) → d.size (.file body) = w.appender.settled) (closed : Bool) :
    BoundedBy settings ⟨{ w.appender with file := f, closed }, d⟩ :=
  ⟨h.bounded.refiled hf closed, h.limit, h.sync⟩

theorem step (h : w.BoundedBy settings) {e : Event} (he : w.Untouched e) :
    (w.step e).BoundedBy settings := by
  cases e with
  | append r force => exact h.preserves (w.appender.preserves_append w.disk r force)
  | flush => exact h.preserves (w.appender.preserves_flush w.disk)
  | tick => exact h.preserves (w.appender.preserves_tick w.disk)
  | cut id offset => exact h.preserves (w.appender.preserves_cut w.disk id offset)
  | close =>
    -- that it is closed is none of the bounds
    have hclosed : BoundedBy settings ⟨{ w.appender with closed := true }, w.disk⟩ :=
      h.refiled h.bounded.held true
    exact hclosed.preserves (w.appender.preserves_close w.disk)
  | disturb d =>
    exact h.refiled (fun body hbody => (he body hbody).trans (h.bounded.held body hbody)) _

theorem stepRefused (h : w.BoundedBy settings) {e : Event} (he : w.Untouched e) :
    (w.stepRefused e).BoundedBy settings := by
  have hnone : ∀ body, w.jammed.appender.file ≠ some (.file body) := by
    simp [Writing.jammed]
  -- of a file that takes nothing no length is told
  have hjammed : w.jammed.BoundedBy settings :=
    h.refiled (fun body hbody => absurd hbody (hnone body)) _
  have hfree : w.jammed.Untouched e := by
    cases e with
    | disturb d => exact fun body hbody => absurd hbody (hnone body)
    | _ => trivial
  unfold Writing.stepRefused
  split
  · exact hjammed.step hfree
  · exact h.step he

end BoundedBy

/-- An appender that was just opened has nothing in its buffer. -/
theorem boundedBy_start {d d' : Disk} {a : Appender}
    (hstart : Appender.start d settings = (.ok a, d')) : BoundedBy settings ⟨a, d'⟩ := by
  obtain ⟨s, n, rfl⟩ := Appender.eq_moveTo_of_start hstart
  exact ⟨Appender.bounded_moveTo _ s n d', rfl, rfl⟩

theorem Reaches.bounded (h : w.Reaches v) (hw : w.BoundedBy settings) : v.BoundedBy settings := by
  induction h with
  | refl => exact hw
  | step _ he ih => exact ih.step he
  | refused _ he ih => exact ih.stepRefused he

/-- What an appender exposes. It is opened with any settings on any disk and used in any way, while
anything may be refused and others may change the disk. Between its operations the buffer is empty
or below its limit, empty in sync mode, no longer than the offset, and a row of records in their
form on disk. A regular file that is open as the active segment is as long as the offset less the
buffer. -/
theorem exposure_bounded {d d' : Disk} {a : Appender}
    (hstart : Appender.start d settings = (.ok a, d')) (hw : Reaches ⟨a, d'⟩ w) :
    let b := w.appender
    (b.buffer = [] ∨ b.buffer.length < settings.bufferLimit) ∧
    (settings.sync = true → b.buffer = []) ∧
    b.buffer.length ≤ b.offset ∧
    (∃ rs : List Record, (∀ r ∈ rs, r.encode = .ok r.form) ∧ b.buffer = rs.flatMap Record.form) ∧
    ∀ body, b.file = some (.file body) →
      (w.disk.bodies body).octets.length = b.offset - b.buffer.length := by
  intro b
  obtain ⟨hbounded, hlimit, hsync⟩ := hw.bounded (boundedBy_start hstart)
  refine ⟨hlimit ▸ hbounded.short, hsync ▸ hbounded.synced, hbounded.within, ?_, ?_⟩
  · obtain ⟨rs, hfits, hrow⟩ := Octets.whole_iff.mp hbounded.whole
    exact ⟨rs, fun r hr => Record.encode_of_fits (hfits r hr), hrow⟩
  · intro body hbody
    rw [Body.length_octets]
    exact hbounded.held body hbody

/-- A limit that three short records reach. -/
def tight : Settings := { folder := "wal", sync := false, bufferLimit := 60 }

/-- The first segment of a folder was opened. -/
def atFirst : Writing where
  appender := (Appender.blank tight).moveTo (Segment.ofId 1) (.file 0) 0
  disk := (Appender.start Session.emptyFolder tight).2

/-- Two records are buffered. The third would be written out, which is refused. -/
def thirdRefused : Writing :=
  let short (sequence : UInt64) : Event := .append (Record.write sequence 1 [1] [2]) false
  ((atFirst.step (short 1)).step (short 2)).stepRefused (short 3)

/-- Something of what was refused is on disk. The next flush repairs that, and another record is
buffered. -/
def repaired : Writing :=
  let left := thirdRefused.disk.setBody 0 (.ofOctets [0, 0, 0])
  ((thirdRefused.step (.disturb left)).step .flush).step
    (.append (Record.write 3 1 [1] [2]) false)

theorem exposure_bounded_repaired :
    (Appender.start Session.emptyFolder tight = (.ok atFirst.appender, atFirst.disk) ∧
      Reaches atFirst thirdRefused ∧ Reaches atFirst repaired) ∧
    (thirdRefused.appender.file = none ∧ thirdRefused.appender.buffer.length = 56) ∧
    (thirdRefused.appender.buffer = [] ∨ thirdRefused.appender.buffer.length < 60) ∧
    (repaired.appender.file = some (.file 0) ∧ repaired.appender.offset = 84 ∧
      repaired.appender.buffer.length = 28) ∧
    (repaired.disk.bodies 0).octets.length = 84 - 28 := by
  have hstart : Appender.start Session.emptyFolder tight = (.ok atFirst.appender, atFirst.disk) := by
    have hopened : (Appender.start Session.emptyFolder tight).1 = .ok atFirst.appender := by
      decide +kernel
    rw [← hopened]
    rfl
  have hthird : Reaches atFirst thirdRefused := by
    refine .refused (.step (.step .refl ?_) ?_) ?_ <;> exact trivial
  have hgone : thirdRefused.appender.file = none := by decide +kernel
  have hrepaired : Reaches atFirst repaired := by
    unfold repaired
    refine .step (.step (hthird.step ?_) ?_) ?_
    · intro body hbody
      rw [hgone] at hbody
      cases hbody
    · trivial
    · trivial
  have hfile : repaired.appender.file = some (.file 0) := by decide +kernel
  have hoffset : repaired.appender.offset = 84 := by decide +kernel
  have hbuffer : repaired.appender.buffer.length = 28 := by decide +kernel
  obtain ⟨hshort, -⟩ := exposure_bounded hstart hthird
  obtain ⟨-, -, -, -, hheld⟩ := exposure_bounded hstart hrepaired
  have hlength := hheld 0 hfile
  rw [hoffset, hbuffer] at hlength
  exact ⟨⟨hstart, hthird, hrepaired⟩, ⟨hgone, by decide +kernel⟩, hshort, ⟨hfile, hoffset, hbuffer⟩,
    hlength⟩

end Writing

end SegmentLog
