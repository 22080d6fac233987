import SegmentLog.Proofs.Passes

/-!
Where a cursor says that it is, when its caller goes on after errors. Every call reads a record off
the octets of a segment, or what a header announces as one (`Volume.readingsFrom`), and the stream
moves past it whether it decodes or not. The offset that is told moves past good records only.
So it falls behind by the octets of every reading that failed in the same segment (`lost`), up to
the end of that segment (`Cursor.tells_of_calls`): what errors and positions tell is true exactly
as long as no earlier call failed in the segment.
-/

namespace SegmentLog

/-! ## Readings -/

/-- A record that is read: its segment, and the offset where its header begins. -/
structure Reading where
  volume : Volume
  start : Nat
  deriving DecidableEq, Repr

namespace Reading

def rest (x : Reading) : Octets := x.volume.octets.drop x.start

def result (x : Reading) : Except Error Record := Record.decode x.rest

/-- How many octets are read: as many as the header announces, or all that are left. -/
def taken (x : Reading) : Nat := min (Header.ofOctets x.rest).recordLength x.rest.length

def failed (x : Reading) : Bool := !x.result.isOk

end Reading

theorem Reading.taken_pos {v : Volume} {start : Nat} (h : start < v.octets.length) :
    0 < taken ⟨v, start⟩ := by
  have hrest : (rest ⟨v, start⟩).length = v.octets.length - start := List.length_drop
  have hsize : 0 < Header.size := by decide
  rw [taken, Header.recordLength]
  omega

/-- What is read of a segment from an offset on: each reading begins where the last one ended. -/
def Volume.readingsFrom (v : Volume) (start : Nat) : List Reading :=
  if h : start < v.octets.length then
    have : 0 < Reading.taken ⟨v, start⟩ := Reading.taken_pos h
    ⟨v, start⟩ :: v.readingsFrom (start + Reading.taken ⟨v, start⟩)
  else []
termination_by v.octets.length - start

/-- What is read of a row of segments, of each from its first octet. -/
def readings (vs : List Volume) : List Reading := vs.flatMap (·.readingsFrom 0)

/-- The octets of a segment that failed readings went past. -/
def lost (past : List Reading) (s : Segment) : Nat :=
  ((past.filter fun x => x.volume.segment = s ∧ x.failed).map (·.taken)).sum

section Readings

variable {v : Volume} {start : Nat} {past : List Reading} {x : Reading} {s : Segment}

theorem Volume.readingsFrom_of_lt (h : start < v.octets.length) :
    v.readingsFrom start = ⟨v, start⟩ :: v.readingsFrom (start + Reading.taken ⟨v, start⟩) := by
  rw [readingsFrom, dif_pos h]

theorem Volume.readingsFrom_length : v.readingsFrom v.octets.length = [] := by
  rw [readingsFrom, dif_neg (Nat.lt_irrefl _)]

theorem Reading.taken_of_ok {r : Record} (h : x.result = .ok r) : x.taken = r.encodedLength := by
  obtain ⟨-, hlen, -, hhead⟩ := Record.form_of_decode h
  rw [taken, hhead, Record.recordLength_header, Nat.min_eq_left hlen]

theorem Reading.failed_of_ok {r : Record} (h : x.result = .ok r) : x.failed = false := by
  rw [failed, h]
  rfl

theorem Reading.failed_of_error {e : Error} (h : x.result = .error e) : x.failed = true := by
  rw [failed, h]
  rfl

theorem Reading.start_add_taken_le (h : x.start < x.volume.octets.length) :
    x.start + x.taken ≤ x.volume.octets.length := by
  have hrest : x.rest.length = x.volume.octets.length - x.start := List.length_drop
  have htaken : x.taken ≤ x.rest.length := Nat.min_le_right _ _
  omega

theorem Reading.drop_recordLength (x : Reading) :
    x.rest.drop (Header.ofOctets x.rest).recordLength =
      x.volume.octets.drop (x.start + x.taken) := by
  rw [← List.drop_drop]
  rcases Nat.le_total (Header.ofOctets x.rest).recordLength x.rest.length with hle | hle
  · rw [taken, Nat.min_eq_left hle]
    rfl
  · rw [taken, Nat.min_eq_right hle, List.drop_of_length_le hle]
    exact List.drop_length.symm

theorem lost_append (past : List Reading) (x : Reading) (s : Segment) :
    lost (past ++ [x]) s =
      lost past s + if x.volume.segment = s ∧ x.failed = true then x.taken else 0 := by
  unfold lost
  by_cases h : x.volume.segment = s ∧ x.failed = true
  · simp [List.filter_append, h]
  · simp [List.filter_append, h]

theorem lost_of_new (h : ∀ x ∈ past, x.volume.segment ≠ s) : lost past s = 0 := by
  have hnone : (past.filter fun x => x.volume.segment = s ∧ x.failed) = [] := by
    rw [List.filter_eq_nil_iff]
    intro x hx hfailed
    exact h x hx (of_decide_eq_true hfailed).1
  rw [lost, hnone]
  rfl

end Readings

theorem lost_eq_zero_iff {past : List Reading} {s : Segment}
    (hinside : ∀ y ∈ past, y.start < y.volume.octets.length) :
    lost past s = 0 ↔ ∀ y ∈ past, y.volume.segment = s → y.failed = false := by
  induction past using List.reverseRecOn with
  | nil =>
    constructor
    · intro _ y hy
      cases hy
    · intro _
      rfl
  | append_singleton past x ih =>
    have hpos : 0 < x.taken := Reading.taken_pos (hinside x (by simp))
    have hfront := ih fun y hy => hinside y (List.mem_append_left _ hy)
    rw [lost_append]
    constructor
    · intro hzero y hy hseg
      have hsplit : lost past s = 0 ∧ ¬ (x.volume.segment = s ∧ x.failed = true) := by
        constructor
        · omega
        · intro hfailed
          rw [if_pos hfailed] at hzero
          omega
      rcases List.mem_append.mp hy with hy | hy
      · exact hfront.mp hsplit.1 y hy hseg
      · obtain rfl := List.mem_singleton.mp hy
        exact Bool.eq_false_iff.mpr fun hfailed => hsplit.2 ⟨hseg, hfailed⟩
    · intro hall
      have hlast : ¬ (x.volume.segment = s ∧ x.failed = true) := by
        rintro ⟨hseg, hfailed⟩
        rw [hall x (by simp) hseg] at hfailed
        cases hfailed
      rw [if_neg hlast, hfront.mpr fun y hy => hall y (List.mem_append_left _ hy)]

theorem start_lt_of_mem_readings {vs : List Volume} {x : Reading} (h : x ∈ readings vs) :
    x.start < x.volume.octets.length := by
  have hfrom (v : Volume) (start : Nat) (hx : x ∈ v.readingsFrom start) :
      x.start < x.volume.octets.length := by
    induction hn : v.octets.length - start using Nat.strongRecOn generalizing start with
    | ind n ih =>
      by_cases hlt : start < v.octets.length
      · rw [Volume.readingsFrom_of_lt hlt] at hx
        have hpos := Reading.taken_pos hlt
        rcases List.mem_cons.mp hx with rfl | hx
        · exact hlt
        · exact ih _ (by omega) _ hx rfl
      · rw [Volume.readingsFrom, dif_neg hlt] at hx
        cases hx
  obtain ⟨v, -, hx⟩ := List.mem_flatMap.mp h
  exact hfrom v 0 hx

/-! ## Streams -/

namespace Stream

variable {d : Disk} {s : Stream} {body : Nat}

/-- What is pending of a file are the octets that remain. -/
theorem pending_eq (h : s.node = .file body) : s.pending d = (s.remaining d).length := by
  rw [pending, remaining_file h, h, List.length_append, List.length_drop, Body.length_octets]
  rfl

end Stream

/-! ## Calls -/

namespace Cursor

variable {d : Disk} {c : Cursor} {past : List Reading} {v : Volume} {vs later : List Volume}

def after (d : Disk) (c : Cursor) : Nat → Cursor
  | 0 => c
  | k + 1 => ((c.after d k).next d).2

/-- Where the open stream stands in its segment: the next header is read from there. -/
def standing (d : Disk) (c : Cursor) : Nat :=
  match c.stream with
  | none => 0
  | some s => d.size s.node - s.pending d

/-- What a call tells of the reading that it makes, behind the readings that were made before. -/
structure Tells (d : Disk) (folder : String) (past : List Reading) (x : Reading)
    (call : Except Error (Option Record) × Cursor) : Prop where
  segment : call.2.rest.head? = some x.volume.segment
  standing : call.2.standing d = x.start + x.taken
  record : ∀ r, x.result = .ok r → call.1 = .ok (some r) ∧
    ∃ told, call.2.position = some (x.volume.segment.id, told) ∧
      told + lost past x.volume.segment = x.start + x.taken
  error : ∀ e, x.result = .error e →
    ∃ told, call.1 = .error (e.reported (x.volume.segment.path folder) told x.rest.length) ∧
      call.2.position = some (x.volume.segment.id, told) ∧
      told + lost past x.volume.segment = x.start

/-- Volumes that are still to be opened. -/
structure Ahead (d : Disk) (folder : String) (past : List Reading) (vs : List Volume) : Prop where
  shows : ∀ v ∈ vs, d.Shows folder v
  distinct : (vs.map (·.segment)).Nodup
  new : ∀ x ∈ past, x.volume.segment ∉ vs.map (·.segment)

/-- A cursor that is to open the first of these volumes. -/
structure Waits (d : Disk) (past : List Reading) (c : Cursor) (vs : List Volume) : Prop where
  segments : c.rest = vs.map (·.segment)
  stream : c.stream = none
  ahead : Ahead d c.folder past vs

/-- A cursor that has read a volume up to a mark. Its offset is short of the mark by what failed
readings of the volume went past. -/
structure Reads (d : Disk) (past : List Reading) (c : Cursor) (v : Volume) (later : List Volume)
    (mark : Nat) : Prop where
  segments : c.rest = v.segment :: later.map (·.segment)
  stream : ∃ s body, c.stream = some s ∧ s.node = .file body ∧
    d.size s.node = v.octets.length ∧ s.remaining d = v.octets.drop mark
  inside : mark ≤ v.octets.length
  offset : c.offset + lost past v.segment = mark
  last : v.segment ∉ later.map (·.segment)
  ahead : Ahead d c.folder past later

theorem Reads.waits (h : Reads d past c v later v.octets.length) :
    ∃ c', c'.next d = c.next d ∧ c'.folder = c.folder ∧ Waits d past c' later := by
  obtain ⟨s, body, hs, hnode, -, hremaining⟩ := h.stream
  rw [List.drop_length] at hremaining
  have hset : c = c.setTo (v.segment :: later.map (·.segment)) (some s) c.offset := by
    rw [← h.segments, ← hs]
    rfl
  refine ⟨c.setTo (later.map (·.segment)) none c.offset, ?_, rfl, rfl, rfl, h.ahead⟩
  rw [← next_of_nil v.segment (later.map (·.segment)) c.offset hnode hremaining, ← hset]

theorem Waits.reads (h : Waits d past c (v :: later)) :
    ∃ c', c'.next d = c.next d ∧ c'.folder = c.folder ∧ Reads d past c' v later 0 := by
  obtain ⟨s, body, hnode, hsize, hremaining, hopen⟩ :=
    next_of_shows (later.map (·.segment)) c.offset (h.ahead.shows v List.mem_cons_self)
  obtain ⟨hlast, hdistinct⟩ := List.nodup_cons.mp h.ahead.distinct
  have hnew : lost past v.segment = 0 := by
    apply lost_of_new
    intro x hx hseg
    apply h.ahead.new x hx
    rw [hseg]
    exact List.mem_cons_self
  have hset : c = c.setTo (v.segment :: later.map (·.segment)) none c.offset := by
    rw [← List.map_cons, ← h.segments, ← h.stream]
    rfl
  refine ⟨c.setTo (v.segment :: later.map (·.segment)) (some s) 0, ?_, rfl, ?_⟩
  · rw [← hopen, ← hset]
  · constructor
    · rfl
    · exact ⟨s, body, rfl, hnode, hsize, hremaining⟩
    · exact Nat.zero_le _
    · rw [hnew]
      rfl
    · exact hlast
    · constructor
      · exact fun w hw => h.ahead.shows w (List.mem_cons_of_mem _ hw)
      · exact hdistinct
      · exact fun x hx hmem => h.ahead.new x hx (List.mem_cons_of_mem _ hmem)

/-- A cursor whose stream has moved past the next reading goes on behind it, if the offset told is
short of that place by what is lost. -/
theorem Reads.moved {mark : Nat} (h : Reads d past c v later mark) (hlt : mark < v.octets.length)
    {t : Stream} {body : Nat} (hn : t.node = .file body) (hsize : d.size t.node = v.octets.length)
    (hr : t.remaining d = v.octets.drop (mark + Reading.taken ⟨v, mark⟩)) (told : Nat)
    (ht : told + lost (past ++ [⟨v, mark⟩]) v.segment = mark + Reading.taken ⟨v, mark⟩) :
    let moved := c.setTo (v.segment :: later.map (·.segment)) (some t) told
    moved.standing d = mark + Reading.taken ⟨v, mark⟩ ∧
      Reads d (past ++ [⟨v, mark⟩]) moved v later (mark + Reading.taken ⟨v, mark⟩) := by
  intro moved
  have hend : mark + Reading.taken ⟨v, mark⟩ ≤ v.octets.length :=
    Reading.start_add_taken_le (x := ⟨v, mark⟩) hlt
  constructor
  · have hpending : t.pending d = v.octets.length - (mark + Reading.taken ⟨v, mark⟩) := by
      rw [Stream.pending_eq hn, hr, List.length_drop]
    show d.size t.node - t.pending d = mark + Reading.taken ⟨v, mark⟩
    omega
  · constructor
    · rfl
    · exact ⟨t, body, rfl, hn, hsize, hr⟩
    · exact hend
    · exact ht
    · exact h.last
    · constructor
      · exact h.ahead.shows
      · exact h.ahead.distinct
      · intro y hy
        rcases List.mem_append.mp hy with hy | hy
        · exact h.ahead.new y hy
        · rw [List.mem_singleton.mp hy]
          exact h.last

/-- Before the end of a volume a call makes one reading, and the mark moves past it. The offset
moves with it only if the reading gives a record. -/
theorem Reads.step {mark : Nat} (h : Reads d past c v later mark) (hlt : mark < v.octets.length) :
    Tells d c.folder past ⟨v, mark⟩ (c.next d) ∧
      Reads d (past ++ [⟨v, mark⟩]) (c.next d).2 v later (mark + Reading.taken ⟨v, mark⟩) := by
  obtain ⟨s, body, hs, hnode, hsize, hremaining⟩ := h.stream
  have hoffset := h.offset
  have hlost := lost_append past ⟨v, mark⟩ v.segment
  have hset : c = c.setTo (v.segment :: later.map (·.segment)) (some s) c.offset := by
    rw [← h.segments, ← hs]
    rfl
  have hsame {t : Stream} (hn : t.node = .file body) : d.size t.node = v.octets.length := by
    rw [hn, ← hnode]
    exact hsize
  cases hr : Reading.result ⟨v, mark⟩ with
  | ok r =>
    have hdecode : Record.decode (s.remaining d) = .ok r := by
      rw [hremaining]
      exact hr
    have htaken := Reading.taken_of_ok hr
    obtain ⟨t, hcall, htn, htr⟩ :=
      next_of_ok (c := c) v.segment (later.map (·.segment)) c.offset hnode hdecode
    rw [← hset] at hcall
    rw [hremaining, List.drop_drop, ← htaken] at htr
    rw [if_neg (by simp [Reading.failed_of_ok hr])] at hlost
    obtain ⟨hstanding, hreads⟩ := h.moved hlt htn (hsame htn) htr
      (c.offset + r.encodedLength) (by omega)
    rw [hcall]
    refine ⟨⟨rfl, hstanding, ?_, ?_⟩, hreads⟩
    · intro r' hr'
      obtain rfl : r = r' := Except.ok.inj (hr.symm.trans hr')
      refine ⟨rfl, c.offset + r.encodedLength, rfl, ?_⟩
      show c.offset + r.encodedLength + lost past v.segment = mark + Reading.taken ⟨v, mark⟩
      omega
    · intro e he
      rw [hr] at he
      cases he
  | error e =>
    have hdecode : Record.decode (s.remaining d) = .error e := by
      rw [hremaining]
      exact hr
    have hne : s.remaining d ≠ [] := by
      rw [hremaining]
      apply List.ne_nil_of_length_pos
      rw [List.length_drop]
      omega
    obtain ⟨t, hcall, htn, htr⟩ :=
      next_of_error (c := c) v.segment (later.map (·.segment)) c.offset hnode hne hdecode
    rw [← hset] at hcall
    have hdrop : t.remaining d = v.octets.drop (mark + Reading.taken ⟨v, mark⟩) := by
      rw [htr, hremaining]
      exact Reading.drop_recordLength ⟨v, mark⟩
    rw [if_pos ⟨rfl, Reading.failed_of_error hr⟩] at hlost
    obtain ⟨hstanding, hreads⟩ := h.moved hlt htn (hsame htn) hdrop c.offset (by omega)
    rw [hcall]
    refine ⟨⟨rfl, hstanding, ?_, ?_⟩, hreads⟩
    · intro r hr'
      rw [hr] at hr'
      cases hr'
    · intro e' he
      obtain rfl : e = e' := Except.error.inj (hr.symm.trans he)
      refine ⟨c.offset, ?_, rfl, hoffset⟩
      rw [Error.reported_eq_foundAt hr]

/-- Where a cursor is between two calls: what it has read is past, the rest is to come. -/
inductive Follows (d : Disk) (past : List Reading) (c : Cursor) : List Reading → Prop
  | waits {vs : List Volume} (h : Waits d past c vs) : Follows d past c (readings vs)
  | reads {v : Volume} {later : List Volume} {mark : Nat} (h : Reads d past c v later mark) :
    Follows d past c (v.readingsFrom mark ++ readings later)

/-- What a call comes to: it makes the first of the readings to come, or finds that there are
none. -/
def Makes (d : Disk) (folder : String) (past : List Reading)
    (call : Except Error (Option Record) × Cursor) : List Reading → Prop
  | [] => call.1 = .ok none ∧ Follows d past call.2 []
  | x :: rest => Tells d folder past x call ∧ Follows d (past ++ [x]) call.2 rest

theorem Reads.makes {mark : Nat} (h : Reads d past c v later mark)
    (hlater : ∀ c', Waits d past c' later → Makes d c'.folder past (c'.next d) (readings later)) :
    Makes d c.folder past (c.next d) (v.readingsFrom mark ++ readings later) := by
  by_cases hlt : mark < v.octets.length
  · obtain ⟨htells, hreads⟩ := h.step hlt
    rw [Volume.readingsFrom_of_lt hlt]
    exact ⟨htells, .reads hreads⟩
  · obtain rfl : mark = v.octets.length := Nat.le_antisymm h.inside (Nat.not_lt.mp hlt)
    obtain ⟨c', hnext, hfolder, hwaits⟩ := h.waits
    rw [Volume.readingsFrom_length, List.nil_append, ← hnext, ← hfolder]
    exact hlater c' hwaits

/-- Segments in which nothing is left are passed over, so that the call makes a reading of the first
one that holds something. -/
theorem Waits.makes (h : Waits d past c vs) : Makes d c.folder past (c.next d) (readings vs) := by
  induction vs generalizing c with
  | nil =>
    have hnext : c.next d = (.ok none, c.setTo [] none c.offset) := by
      rw [next, h.segments]
      rfl
    have hwaits : Waits d past (c.setTo [] none c.offset) [] := ⟨rfl, rfl, h.ahead⟩
    rw [hnext]
    exact ⟨rfl, .waits hwaits⟩
  | cons v later ih =>
    obtain ⟨c', hnext, hfolder, hreads⟩ := h.reads
    have hmakes := hreads.makes fun c'' => ih
    rw [hnext, hfolder] at hmakes
    exact hmakes

/-- A call makes the reading that comes next. -/
theorem Follows.call {future : List Reading} (h : Follows d past c future) :
    Makes d c.folder past (c.next d) future := by
  cases h with
  | waits h => exact h.makes
  | reads h => exact h.makes fun c' => Waits.makes

theorem folder_next (d : Disk) (c : Cursor) : (c.next d).2.folder = c.folder := by
  have hnext (segments : List Segment) (stream : Option Stream) (offset : Nat) :
      (c.nextOf d segments stream offset).2.folder = c.folder := by
    induction segments generalizing stream offset with
    | nil => rfl
    | cons s rest ih =>
      unfold nextOf
      split
      · rfl
      · split
        · rfl
        · exact ih none _
        · rfl
  exact hnext c.rest c.stream c.offset

/-- After any number of calls as many readings are past, and the others are to come. -/
theorem Follows.after {xs : List Reading} (h : Follows d [] c xs) (k : Nat) :
    (c.after d k).folder = c.folder ∧ Follows d (xs.take k) (c.after d k) (xs.drop k) := by
  induction k with
  | zero => exact ⟨rfl, h⟩
  | succ k ih =>
    obtain ⟨hfolder, hfollows⟩ := ih
    have hcall := hfollows.call
    constructor
    · exact (folder_next d _).trans hfolder
    · cases hdrop : xs.drop k with
      | nil =>
        have hle : xs.length ≤ k := List.drop_eq_nil_iff.mp hdrop
        rw [hdrop] at hcall
        rw [List.take_of_length_le (Nat.le_succ_of_le hle),
          List.drop_of_length_le (Nat.le_succ_of_le hle)]
        rw [List.take_of_length_le hle] at hcall
        exact hcall.2
      | cons x rest =>
        have htake : xs.take (k + 1) = xs.take k ++ [x] := by
          rw [List.take_add, hdrop]
          rfl
        have hrest : xs.drop (k + 1) = rest := by
          rw [← List.drop_drop, hdrop]
          rfl
        rw [hdrop] at hcall
        rw [htake, hrest]
        exact hcall.2

/-- Every call makes the next reading, and tells where it is up to the octets that failed readings
of the same segment went past. So what it tells is true exactly if no earlier reading of the segment
failed. -/
theorem tells_of_calls {folder : String} (hs : d.Sound) (hne : folder ≠ "") (hc : Fresh d folder c)
    (k : Nat) :
    let xs := readings (d.volumes folder)
    let call := (c.after d k).next d
    d.Lists folder (d.volumes folder) ∧
    (xs[k]? = none → call.1 = .ok none) ∧
    ∀ x, xs[k]? = some x → Tells d folder (xs.take k) x call ∧
      (lost (xs.take k) x.volume.segment = 0 ↔
        ∀ y ∈ xs.take k, y.volume.segment = x.volume.segment → y.failed = false) := by
  intro xs call
  obtain ⟨hlists, rfl, hset⟩ := hc.lists hs hne
  have hwaits : Waits d [] c (d.volumes c.folder) := by
    constructor
    · exact congrArg Cursor.rest hset
    · exact congrArg Cursor.stream hset
    · exact ⟨hlists.shows, hlists.distinct, nofun⟩
  obtain ⟨hfolder, hfollows⟩ := (Follows.waits hwaits).after k
  have hcall := hfollows.call
  rw [hfolder] at hcall
  refine ⟨hlists, ?_, ?_⟩
  · intro hnone
    have hdrop : xs.drop k = [] := List.drop_eq_nil_iff.mpr (List.getElem?_eq_none_iff.mp hnone)
    rw [hdrop] at hcall
    exact hcall.1
  · intro x hx
    have hdrop : xs.drop k = x :: xs.drop (k + 1) := by
      obtain ⟨hk, rfl⟩ := List.getElem?_eq_some_iff.mp hx
      exact List.drop_eq_getElem_cons hk
    rw [hdrop] at hcall
    refine ⟨hcall.1, lost_eq_zero_iff ?_⟩
    intro y hy
    exact start_lt_of_mem_readings (List.mem_of_mem_take hy)

/-! ## Behind damage -/

theorem start_damagedFolder : start damagedFolder "wal" = .ok beforeDamage := by decide +kernel

/-- The damaged segment is read in four pieces, the second of which is spoiled. -/
theorem readings_damagedFolder :
    let damaged : Volume := ⟨Segment.ofId 1, damagedSegment⟩
    let good : Volume := ⟨⟨2, "2.wal"⟩, (Record.write 8 0 [4] []).form⟩
    readings (damagedFolder.volumes "wal") =
      [⟨damaged, 0⟩, ⟨damaged, 28⟩, ⟨damaged, 56⟩, ⟨damaged, 83⟩, ⟨good, 0⟩] := by
  intro damaged good
  have hvolumes : damagedFolder.volumes "wal" = [⟨⟨0, "0.wal"⟩, []⟩, damaged, good] := by
    decide +kernel
  have hread (v : Volume) (start : Nat) (stop : Nat) (h : start < v.octets.length)
      (ht : start + Reading.taken ⟨v, start⟩ = stop) :
      v.readingsFrom start = ⟨v, start⟩ :: v.readingsFrom stop := by
    rw [Volume.readingsFrom_of_lt h, ht]
  have hempty : Volume.readingsFrom ⟨⟨0, "0.wal"⟩, []⟩ 0 = [] := Volume.readingsFrom_length
  have hdamaged : damaged.readingsFrom 0 =
      [⟨damaged, 0⟩, ⟨damaged, 28⟩, ⟨damaged, 56⟩, ⟨damaged, 83⟩] := by
    rw [hread damaged 0 28 (by decide +kernel) (by decide +kernel),
      hread damaged 28 56 (by decide +kernel) (by decide +kernel),
      hread damaged 56 83 (by decide +kernel) (by decide +kernel),
      hread damaged 83 86 (by decide +kernel) (by decide +kernel)]
    have hend : damaged.readingsFrom 86 = [] := Volume.readingsFrom_length
    rw [hend]
  have hgood : good.readingsFrom 0 = [⟨good, 0⟩] := by
    rw [hread good 0 27 (by decide +kernel) (by decide +kernel)]
    have hend : good.readingsFrom 27 = [] := Volume.readingsFrom_length
    rw [hend]
  rw [hvolumes]
  simp only [readings, List.flatMap_cons, List.flatMap_nil, hempty, hdamaged, hgood]
  rfl

theorem tells_of_calls_damagedFolder :
    let damaged : Volume := ⟨Segment.ofId 1, damagedSegment⟩
    let past : List Reading := [⟨damaged, 0⟩, ⟨damaged, 28⟩, ⟨damaged, 56⟩]
    (damagedFolder.Sound ∧ "wal" ≠ "" ∧ Fresh damagedFolder "wal" beforeDamage) ∧
    Tells damagedFolder "wal" past ⟨damaged, 83⟩
      ((beforeDamage.after damagedFolder 3).next damagedFolder) ∧
    lost past damaged.segment = 28 := by
  intro damaged past
  have hfresh : Fresh damagedFolder "wal" beforeDamage := .opened start_damagedFolder
  obtain ⟨-, -, hcalls⟩ := tells_of_calls sound_damagedFolder (by decide) hfresh 3
  rw [readings_damagedFolder] at hcalls
  obtain ⟨htells, -⟩ := hcalls ⟨damaged, 83⟩ rfl
  exact ⟨⟨sound_damagedFolder, by decide, hfresh⟩, htells, by decide +kernel⟩

/-- Behind a spoiled record of 28 octets the record at 56 is given out. Its end is told as 55 and
not as 83, where the stream stands and the next header is read, and the error for what stands there
names 55, too. -/
theorem misplaced_damagedFolder :
    let third := (beforeDamage.after damagedFolder 2).next damagedFolder
    let fourth := (beforeDamage.after damagedFolder 3).next damagedFolder
    start damagedFolder "wal" = .ok beforeDamage ∧
    third.1 = .ok (some (Record.write 7 0 [3] [])) ∧ third.2.position = some (1, 55) ∧
    third.2.standing damagedFolder = 83 ∧
    fourth.1 = .error (.truncated "wal/00000000000000000001.wal" 55 26 3) ∧
    damagedSegment.length = 83 + 3 := by
  decide +kernel

end Cursor

end SegmentLog
