import Mathlib.Algebra.Order.Floor.Div
import SegmentLog.Proofs.Offsets

/-!
A cursor comes to an end, whatever the segments hold and however often it fails on the way. The offset
it tells stays where it is when a call fails, so it is no measure of what is left. The stream does
move, by a header at least or to the end of its segment, whether the call gives a record or an error;
so each answer takes a header off what the cursor may still read (`Readable.next`). There are no more
answers than headers, and once there are none left there will be none (`Cursor.ends_within`).
-/

namespace SegmentLog

/-- How many headers there is room for in so many octets, one that is cut short included. -/
def headersIn (length : Nat) : Nat := length ⌈/⌉ Header.size

theorem headersIn_eq (length : Nat) : headersIn length = (length + 25) / 26 :=
  Nat.ceilDiv_eq_add_pred_div _ _

/-- Behind a header, or at the end, there is room for fewer. -/
theorem headersIn_lt {left length : Nat} (hpos : 0 < length)
    (h : left = 0 ∨ left + Header.size ≤ length) : headersIn left < headersIn length := by
  have hsize : Header.size = 26 := rfl
  rw [headersIn_eq, headersIn_eq]
  omega

/-- What is left behind a reading has room for fewer headers. -/
theorem headersIn_drop_recordLength {bs : Octets} (h : bs ≠ []) :
    headersIn (bs.drop (Header.ofOctets bs).recordLength).length < headersIn bs.length := by
  have hpos := List.length_pos_iff.mpr h
  apply headersIn_lt hpos
  rw [List.length_drop, Header.recordLength]
  omega

namespace Cursor

variable {d : Disk} {c : Cursor} {folder : String}

/-! ## What may still be read -/

/-- The segments that a cursor has before it can be opened, and what it holds open is a file. -/
structure Readable (d : Disk) (c : Cursor) : Prop where
  opens : ∀ s ∈ c.rest, ∃ body, d.openRead (s.place c.folder) = .ok (.file body)
  holds : ∀ stream, c.stream = some stream → ∃ body, stream.node = .file body

theorem readable_of_none
    (hopens : ∀ s ∈ c.rest, ∃ body, d.openRead (s.place c.folder) = .ok (.file body))
    (hnone : c.stream = none) : c.Readable d := by
  refine ⟨hopens, ?_⟩
  intro stream hstream
  rw [hnone] at hstream
  cases hstream

/-- How many headers may still be read of a list of segments, the first of which may be open. -/
def headersOf (d : Disk) (folder : String) : List Segment → Option Stream → Nat
  | [], _ => 0
  | _ :: rest, some stream =>
    headersIn (stream.remaining d).length + headersOf d folder rest none
  | s :: rest, none => headersIn (sizeOf d folder s) + headersOf d folder rest none

/-- How many headers a cursor may still read. -/
def headers (d : Disk) (c : Cursor) : Nat := headersOf d c.folder c.rest c.stream

/-- Of segments that are not open all headers may still be read. -/
theorem headersOf_none (segments : List Segment) :
    headersOf d folder segments none = (segments.map fun s => headersIn (sizeOf d folder s)).sum := by
  induction segments with
  | nil => rfl
  | cons s rest ih => rw [headersOf, ih, List.map_cons, List.sum_cons]

/-! ## Calls -/

/-- Behind its last segment a cursor finds nothing, and stays there. -/
theorem next_of_rest_nil (h : c.rest = []) :
    (c.next d).1 = .ok none ∧ (c.next d).2.rest = [] := by
  rw [next, h]
  exact ⟨rfl, rfl⟩

/-- What a call comes to: the cursor is behind its last segment, or it answers with something and may
read fewer headers. -/
def Spends (d : Disk) (budget : Nat) (call : Except Error (Option Record) × Cursor) : Prop :=
  call.1 = .ok none ∧ call.2.rest = [] ∨
    call.1 ≠ .ok none ∧ call.2.Readable d ∧ call.2.headers d < budget

theorem Spends.mono {budget more : Nat} {call : Except Error (Option Record) × Cursor}
    (h : Spends d budget call) (hle : budget ≤ more) : Spends d more call := by
  rcases h with hend | ⟨hanswer, hreadable, hlt⟩
  · exact .inl hend
  · exact .inr ⟨hanswer, hreadable, Nat.lt_of_lt_of_le hlt hle⟩

/-- An open segment gives an answer as long as octets remain of it. -/
theorem spends_of_stream {s : Segment} {rest : List Segment} {stream : Stream} {body : Nat}
    (hopens : ∀ s' ∈ s :: rest, ∃ body, d.openRead (s'.place c.folder) = .ok (.file body))
    (hnode : stream.node = .file body) (offset : Nat) (hne : stream.remaining d ≠ []) :
    Spends d (headersOf d c.folder (s :: rest) (some stream))
      ((c.setTo (s :: rest) (some stream) offset).next d) := by
  -- the stream has moved past the reading, whatever became of it
  have hmoved {t : Stream} (told : Nat) (htn : t.node = .file body)
      (htr : t.remaining d =
        (stream.remaining d).drop (Header.ofOctets (stream.remaining d)).recordLength) :
      (c.setTo (s :: rest) (some t) told).Readable d ∧
        (c.setTo (s :: rest) (some t) told).headers d <
          headersOf d c.folder (s :: rest) (some stream) := by
    constructor
    · refine ⟨hopens, ?_⟩
      intro u hu
      exact ⟨body, (Option.some.inj hu) ▸ htn⟩
    · have hless := headersIn_drop_recordLength hne
      rw [← htr] at hless
      exact Nat.add_lt_add_right hless _
  right
  cases hr : Record.decode (stream.remaining d) with
  | ok r =>
    obtain ⟨t, hcall, htn, htr⟩ := next_of_ok (c := c) s rest offset hnode hr
    have hlength : (Header.ofOctets (stream.remaining d)).recordLength = r.encodedLength := by
      obtain ⟨-, -, -, hhead⟩ := Record.form_of_decode hr
      rw [hhead, Record.recordLength_header]
    rw [hcall]
    exact ⟨by simp, hmoved _ htn (hlength ▸ htr)⟩
  | error e =>
    obtain ⟨t, hcall, htn, htr⟩ := next_of_error (c := c) s rest offset hnode hne hr
    rw [hcall]
    exact ⟨by simp, hmoved _ htn htr⟩

/-- Segments in which nothing remains are passed over, at no cost. -/
theorem spends_next (segments : List Segment) (stream : Option Stream) (offset : Nat)
    (h : (c.setTo segments stream offset).Readable d) :
    Spends d (headersOf d c.folder segments stream) ((c.setTo segments stream offset).next d) := by
  induction segments generalizing stream offset with
  | nil => exact .inl (next_of_rest_nil rfl)
  | cons s rest ih =>
    have hopened (t : Stream) (told : Nat) {body : Nat} (hnode : t.node = .file body) :
        Spends d (headersOf d c.folder (s :: rest) (some t))
          ((c.setTo (s :: rest) (some t) told).next d) := by
      by_cases hnil : t.remaining d = []
      · have hlater : (c.setTo rest none told).Readable d :=
          readable_of_none (fun s' hs' => h.opens s' (List.mem_cons_of_mem _ hs')) rfl
        rw [next_of_nil s rest told hnode hnil]
        exact (ih none told hlater).mono (Nat.le_add_left _ _)
      · exact spends_of_stream h.opens hnode told hnil
    cases stream with
    | some t =>
      obtain ⟨body, hnode⟩ := h.holds t rfl
      exact hopened t offset hnode
    | none =>
      obtain ⟨body, hread⟩ := h.opens s List.mem_cons_self
      have hread' : d.openRead (s.place c.folder) = .ok (.file body) := hread
      have hbegin : (c.setTo (s :: rest) none offset).next d =
          (c.setTo (s :: rest) (some { node := .file body }) 0).next d := by
        rw [next_setTo, next_setTo, nextOf, nextOf]
        simp only [openStream, hread']
      have hsize : headersOf d c.folder (s :: rest) none =
          headersOf d c.folder (s :: rest) (some { node := .file body }) := by
        simp only [headersOf, sizeOf, hread', Stream.remaining, List.nil_append, List.drop_zero,
          Body.length_octets, Disk.size]
      rw [hbegin, hsize]
      exact hopened _ 0 rfl

/-- A call finds the end of the folder, or it answers with something and takes a header off what may
still be read. -/
theorem Readable.next (h : c.Readable d) : Spends d (c.headers d) (c.next d) :=
  spends_next c.rest c.stream c.offset h

/-! ## The end -/

theorem after_succ (d : Disk) (c : Cursor) (k : Nat) : c.after d (k + 1) = (c.next d).2.after d k := by
  induction k with
  | zero => rfl
  | succ k ih => rw [after, ih, after]

/-- A cursor answers with something so many times, and never again. -/
def EndsAfter (d : Disk) (c : Cursor) (n : Nat) : Prop :=
  ∀ k, ((c.after d k).next d).1 = .ok none ↔ n ≤ k

theorem endsAfter_zero (h : c.rest = []) : c.EndsAfter d 0 := by
  have hrest (k : Nat) : (c.after d k).rest = [] := by
    induction k with
    | zero => exact h
    | succ k ih => exact (next_of_rest_nil ih).2
  intro k
  simp [(next_of_rest_nil (hrest k)).1]

theorem EndsAfter.succ {n : Nat} (h : (c.next d).2.EndsAfter d n) (hne : (c.next d).1 ≠ .ok none) :
    c.EndsAfter d (n + 1) := by
  intro k
  cases k with
  | zero => simp [after, hne]
  | succ k =>
    rw [after_succ, Nat.add_le_add_iff_right]
    exact h k

/-- A readable cursor comes to an end, after no more answers than there are headers. -/
theorem Readable.ends (h : c.Readable d) : ∃ n ≤ c.headers d, c.EndsAfter d n := by
  induction hn : c.headers d using Nat.strongRecOn generalizing c with
  | ind n ih =>
    rcases h.next with ⟨hnone, hrest⟩ | ⟨hne, hreadable, hlt⟩
    · refine ⟨0, Nat.zero_le _, ?_⟩
      intro k
      cases k with
      | zero => simp [after, hnone]
      | succ k =>
        rw [after_succ, endsAfter_zero hrest k]
        simp
    · obtain ⟨m, hm, hends⟩ := ih _ (hn ▸ hlt) hreadable rfl
      exact ⟨m + 1, by omega, hends.succ hne⟩

theorem take_of_none (h : (c.next d).1 = .ok none) (m : Nat) : (c.take d m).1 = [] := by
  cases m with
  | zero => rfl
  | succ m =>
    rcases hnext : c.next d with ⟨answer, c'⟩
    rw [hnext] at h
    obtain rfl : answer = .ok none := h
    simp only [take, hnext]

theorem length_take_succ (h : (c.next d).1 ≠ .ok none) (m : Nat) :
    (c.take d (m + 1)).1.length = ((c.next d).2.take d m).1.length + 1 := by
  rcases hnext : c.next d with ⟨answer, c'⟩
  rw [hnext] at h
  cases answer with
  | error e => simp only [take, hnext, List.length_cons]
  | ok found =>
    cases found with
    | none => exact absurd rfl h
    | some r => simp only [take, hnext, List.length_cons]

/-- What is taken of a cursor at once are its answers up to the end. -/
theorem EndsAfter.length_take {n : Nat} (h : c.EndsAfter d n) (m : Nat) :
    (c.take d m).1.length = min m n := by
  induction m generalizing c n with
  | zero => simp [take]
  | succ m ih =>
    have hfirst : (c.next d).1 = .ok none ↔ n ≤ 0 := h 0
    by_cases hnone : (c.next d).1 = .ok none
    · have hzero := hfirst.mp hnone
      rw [take_of_none hnone, List.length_nil]
      omega
    · have hpos : ¬ n ≤ 0 := fun hle => hnone (hfirst.mpr hle)
      have hlater : (c.next d).2.EndsAfter d (n - 1) := by
        intro k
        rw [← after_succ, h (k + 1)]
        omega
      rw [length_take_succ hnone, ih hlater]
      omega

/-- A cursor before the first record of a folder, whose segments can be opened and hold anything,
answers with records and errors no more often than headers have room in the segments. From then on it
finds nothing, however often it is asked, and whoever takes its answers one after the other gets all
of them. -/
theorem ends_within {segments : List Segment} (hc : Fresh d folder c)
    (hlist : Segment.list d folder = .ok segments)
    (hopens : ∀ s ∈ segments, ∃ body, d.openRead (s.place folder) = .ok (.file body)) :
    ∃ n ≤ (segments.map fun s => sizeOf d folder s ⌈/⌉ Header.size).sum,
      (∀ k, ((c.after d k).next d).1 = .ok none ↔ n ≤ k) ∧
      ∀ m, (c.take d m).1.length = min m n := by
  have hstart := hc.start_eq
  simp only [start, hlist, Except.ok.injEq] at hstart
  subst hstart
  have hreadable : Readable d { folder, rest := segments, count := segments.length } :=
    readable_of_none hopens rfl
  obtain ⟨n, hn, hends⟩ := hreadable.ends
  refine ⟨n, ?_, hends, hends.length_take⟩
  have hheaders : headersOf d folder segments none = _ := headersOf_none segments
  exact hheaders ▸ hn

/-- In the damaged folder five answers are given, where there is room for six headers: the spoiled
record is longer than its header. -/
theorem ends_within_damagedFolder :
    let segments : List Segment := [⟨0, "0.wal"⟩, Segment.ofId 1, ⟨2, "2.wal"⟩]
    (Fresh damagedFolder "wal" beforeDamage ∧ Segment.list damagedFolder "wal" = .ok segments ∧
      ∀ s ∈ segments, ∃ body, damagedFolder.openRead (s.place "wal") = .ok (.file body)) ∧
    segments.map (fun s => sizeOf damagedFolder "wal" s ⌈/⌉ Header.size) = [0, 4, 2] ∧
    (∀ k, ((beforeDamage.after damagedFolder k).next damagedFolder).1 = .ok none ↔ 5 ≤ k) ∧
    ∀ m, (beforeDamage.take damagedFolder m).1.length = min m 5 := by
  intro segments
  have hfresh : Fresh damagedFolder "wal" beforeDamage := .opened start_damagedFolder
  have hlist : Segment.list damagedFolder "wal" = .ok segments := by decide +kernel
  have hopens : ∀ s ∈ segments,
      ∃ body, damagedFolder.openRead (s.place "wal") = .ok (.file body) := by
    simp only [segments, List.forall_mem_cons, List.not_mem_nil, false_imp_iff, implies_true,
      and_true]
    exact ⟨⟨2, by decide +kernel⟩, ⟨1, by decide +kernel⟩, ⟨0, by decide +kernel⟩⟩
  refine ⟨⟨hfresh, hlist, hopens⟩, by decide +kernel, ?_⟩
  obtain ⟨n, -, hends, htake⟩ := ends_within hfresh hlist hopens
  have hfifth : ¬ n ≤ 4 := fun hle => absurd ((hends 4).mpr hle) (by decide +kernel)
  have hsixth : n ≤ 5 := (hends 5).mp (by decide +kernel)
  obtain rfl : n = 5 := by omega
  exact ⟨hends, htake⟩

end Cursor

end SegmentLog
