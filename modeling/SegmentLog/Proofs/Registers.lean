import SegmentLog.Proofs.Runs
import SegmentLog.Proofs.Storing

/-!
A ticket is a register on disk. Every call reads the file of the ticket and may replace it, whoever
makes the call and by whatever path of the folder. As long as no file operation is refused, what is
answered is what a register in memory answers that knows the number given out last and the one that
is open (`Ticket.Register`). If others replace the file, the register is the one that they wrote; if
their octets say nothing, there is none, and every call is refused. One lemma says what a call comes
to, and that it does not touch the file if it is refused (`Ticket.serve_serves`); the answers of a run
are read off it by induction (`Ticket.answers_eq_replies`), and so is that numbers go up
(`Ticket.begun_ascending`).
-/

namespace SegmentLog.Ticket

/-! ## The register -/

/-- What is asked of a ticket. -/
inductive Call
  | begin (floor : UInt64)
  | finish (txn : UInt64)
  | current

inductive Answer
  | begun (id : UInt64)
  | finished
  | current (openId : Option UInt64)
  | refused (e : Error)
  deriving DecidableEq

def Answer.isIo : Answer → Bool
  | refused e => e.isIo
  | _ => false

/-- The number that was given out last, and the one that is open. -/
structure Register where
  last : UInt64 := 0
  openId : Option UInt64 := none
  deriving DecidableEq

/-- A number is given out when none is open. It is above the last one and not below `floor`. The open
number is closed by its name. -/
def Register.serve (m : Register) : Call → Answer × Register
  | .begin floor =>
    match m.openId with
    | some id => (.refused (.ticket (.alreadyOpen id)), m)
    | none =>
      let id := max (m.last + 1) floor
      (.begun id, ⟨id, some id⟩)
  | .finish txn =>
    if m.openId = some txn then (.finished, { m with openId := none })
    else (.refused (.ticket (.notOpen txn)), m)
  | .current => (.current m.openId, m)

/-- The answer where there may be no register, but octets that say nothing. -/
def reply (m : Except TicketFlaw Register) (c : Call) : Answer × Except TicketFlaw Register :=
  match m with
  | .error flaw => (.refused (.undecodable flaw), .error flaw)
  | .ok r => ((r.serve c).1, .ok (r.serve c).2)

/-! ## The ticket in its place -/

def Answer.of {α : Type} (granted : α → Answer) : Except Error α → Answer
  | .ok a => granted a
  | .error e => .refused e

/-- The answer of the ticket in a folder, with the disk after it. -/
def serve (d : Disk) (folder : String) : Call → Answer × Disk
  | .begin floor => (.of .begun (begin d folder floor).1, (begin d folder floor).2)
  | .finish txn => (.of (fun _ => .finished) (finish d folder txn).1, (finish d folder txn).2)
  | .current => (.of .current (current d folder), d)

def register (t : Ticket) : Register := ⟨t.last, if t.isOpen then some t.last else none⟩

def registerAt (d : Disk) (loc : Location) : Except TicketFlaw Register :=
  (recorded d (d.node? (loc.enter fileName))).map register

/-- In the place of the ticket stands a regular file, or nothing. -/
def Regular (d : Disk) (loc : Location) : Prop :=
  d.node? (loc.enter fileName) ≠ some .folder ∧ d.node? (loc.enter fileName) ≠ some .full

variable {d d' : Disk} {folder : String} {loc : Location} {t : Ticket}

/-- What is read is what stands in the place of the ticket, or reading is refused. -/
theorem load_cases (hl : d.locate folder = .ok loc) (hr : Regular d loc) :
    (∃ f, load d folder = .error (.io .readTicket (place folder).path f)) ∨
    load d folder = (recorded d (d.node? (loc.enter fileName))).mapError .undecodable := by
  rcases Disk.look_cases (p := place folder) hl with ⟨f, hf, hne⟩ | hfound
  · left
    refine ⟨f, ?_⟩
    unfold load
    simp only [Disk.readStart, Disk.openRead, hf]
  · exact .inr (load_of_look hfound hr.1 hr.2)

theorem registerAt_of_octets {body : Nat} (hn : d.node? (loc.enter fileName) = some (.file body))
    (hoctets : (d.bodies body).octets = t.toOctets) : registerAt d loc = .ok t.register := by
  have hback := ofOctets_toOctets t []
  rw [List.append_nil] at hback
  rw [registerAt, hn, recorded, hoctets, hback]
  rfl

theorem registerAt_congr (hu : d.Untouched d' (loc.enter fileName)) :
    registerAt d' loc = registerAt d loc := by
  have hsame : recorded d' (d.node? (loc.enter fileName)) =
      recorded d (d.node? (loc.enter fileName)) := by
    cases hn : d.node? (loc.enter fileName) with
    | none => rfl
    | some n =>
      cases n with
      | folder => rfl
      | full => rfl
      | file body => simp only [recorded, hu.octets body hn]
  rw [registerAt, registerAt, hu.node, hsame]

theorem Regular.congr (h : Regular d loc) (hu : d.Untouched d' (loc.enter fileName)) :
    Regular d' loc := by
  unfold Regular
  rw [hu.node]
  exact h

/-! ## Calls -/

/-- What a call comes to. It is refused for a file operation, or the register in the file answers and
the one after it is in the file then. The file is not touched if the call is refused for whatever
reason. -/
structure Serves (d : Disk) (loc : Location) (c : Call) (answer : Answer) (d' : Disk) : Prop where
  sound : d'.Sound
  regular : Regular d' loc
  untouched : ∀ e, answer = .refused e → d.Untouched d' (loc.enter fileName)
  answers : answer.isIo = true ∨
    answer = (reply (registerAt d loc) c).1 ∧ registerAt d' loc = (reply (registerAt d loc) c).2

theorem serves_same (hs : d.Sound) (hr : Regular d loc) {c : Call} {answer : Answer}
    (hreply : reply (registerAt d loc) c = (answer, registerAt d loc)) :
    Serves d loc c answer d :=
  ⟨hs, hr, fun _ _ => Disk.Untouched.refl d _, .inr (by rw [hreply]; exact ⟨rfl, rfl⟩)⟩

theorem serves_store {α : Type} (granted : α → Answer) (a : α) (hs : d.Sound)
    (hl : d.locate folder = .ok loc) (hr : Regular d loc) {c : Call}
    (hreply : reply (registerAt d loc) c = (granted a, .ok t.register))
    (hgranted : ∀ e, granted a ≠ .refused e) :
    Serves d loc c (.of granted ((store d folder t).1.map fun _ => a)) (store d folder t).2 := by
  obtain ⟨answer, d', hstore, hskips, hstored, hrefused⟩ := store_spec hs hl t
  rw [hstore]
  cases answer with
  | ok _ =>
    obtain ⟨body, hnode, hoctets⟩ := hstored rfl
    have hregular : Regular d' loc := by simp [Regular, hnode]
    refine ⟨hskips.sound, hregular, fun e he => absurd he (hgranted e), .inr ?_⟩
    rw [hreply]
    exact ⟨rfl, registerAt_of_octets hnode hoctets⟩
  | error e =>
    obtain ⟨hcause, huntouched⟩ := hrefused e rfl
    have hio : e.isIo = true := by cases hcause <;> rfl
    exact ⟨hskips.sound, hr.congr huntouched, fun _ _ => huntouched, .inl hio⟩

/-- A file that cannot be read, or says nothing, refuses every call. -/
theorem serve_of_error {e : Error} (h : load d folder = .error e) (c : Call) :
    serve d folder c = (.refused e, d) := by
  cases c with
  | begin floor =>
    unfold serve Ticket.begin
    rw [h]
    rfl
  | finish txn =>
    unfold serve Ticket.finish
    rw [h]
    rfl
  | current =>
    unfold serve Ticket.current
    rw [h]
    rfl

theorem begin_serves (hs : d.Sound) (hl : d.locate folder = .ok loc) (hr : Regular d loc)
    (hload : load d folder = .ok t) (hat : registerAt d loc = .ok t.register) (floor : UInt64) :
    Serves d loc (.begin floor) (serve d folder (.begin floor)).1
      (serve d folder (.begin floor)).2 := by
  unfold serve Ticket.begin
  rw [hload]
  dsimp only
  split
  · -- one is open, and the disk is left alone
    rename_i hopen
    apply serves_same hs hr
    rw [hat, reply, Register.serve, register, hopen]
    rfl
  · rename_i hopen
    have hreply : reply (registerAt d loc) (.begin floor) =
        (.begun (max (t.last + 1) floor), .ok (register ⟨true, max (t.last + 1) floor⟩)) := by
      rw [hat, reply, Register.serve, register, if_neg hopen]
      rfl
    have hserves := serves_store .begun _ hs hl hr hreply nofun
    rcases hstore : store d folder ⟨true, max (t.last + 1) floor⟩ with ⟨e | _, d'⟩
    · rw [hstore] at hserves
      exact hserves
    · rw [hstore] at hserves
      exact hserves

theorem finish_serves (hs : d.Sound) (hl : d.locate folder = .ok loc) (hr : Regular d loc)
    (hload : load d folder = .ok t) (hat : registerAt d loc = .ok t.register) (txn : UInt64) :
    Serves d loc (.finish txn) (serve d folder (.finish txn)).1
      (serve d folder (.finish txn)).2 := by
  unfold serve Ticket.finish
  rw [hload]
  dsimp only
  split
  · -- it is not the open one, if any is
    rename_i hnot
    have hother : t.register.openId ≠ some txn := by
      rcases hnot with hclosed | hother
      · simp [register, hclosed]
      · simp [register, hother]
    apply serves_same hs hr
    rw [hat, reply, Register.serve, if_neg hother]
    rfl
  · rename_i hnot
    obtain ⟨hopen, hlast⟩ : t.isOpen = true ∧ t.last = txn := by simpa using hnot
    have hreply : reply (registerAt d loc) (.finish txn) =
        (.finished, .ok (register { t with isOpen := false })) := by
      simp [hat, reply, Register.serve, register, hopen, hlast]
    have hserves := serves_store (fun _ : Unit => .finished) () hs hl hr hreply nofun
    rcases hstore : store d folder { t with isOpen := false } with ⟨e | _, d'⟩
    · rw [hstore] at hserves
      exact hserves
    · rw [hstore] at hserves
      exact hserves

theorem serve_serves (hs : d.Sound) (hl : d.locate folder = .ok loc) (hr : Regular d loc) (c : Call) :
    Serves d loc c (serve d folder c).1 (serve d folder c).2 := by
  rcases load_cases hl hr with ⟨f, hload⟩ | hload
  · rw [serve_of_error hload]
    exact ⟨hs, hr, fun _ _ => Disk.Untouched.refl d _, .inl rfl⟩
  cases hrecorded : recorded d (d.node? (loc.enter fileName)) with
  | error flaw =>
    have hat : registerAt d loc = .error flaw := by
      rw [registerAt, hrecorded]
      rfl
    rw [hrecorded] at hload
    rw [serve_of_error hload]
    exact serves_same hs hr (by rw [hat]; rfl)
  | ok t =>
    have hat : registerAt d loc = .ok t.register := by
      rw [registerAt, hrecorded]
      rfl
    rw [hrecorded] at hload
    cases c with
    | begin floor => exact begin_serves hs hl hr hload hat floor
    | finish txn => exact finish_serves hs hl hr hload hat txn
    | current =>
      unfold serve Ticket.current
      rw [hload]
      apply serves_same hs hr
      rw [hat]
      rfl

/-! ## Many calls -/

inductive Event
  /-- Someone who knows the folder by this path makes a call. -/
  | call (folder : String) (c : Call)
  /-- Others change the disk. -/
  | disturb (d : Disk)

def step (d : Disk) : Event → Disk
  | .call folder c => (serve d folder c).2
  | .disturb d' => d'

def run (d : Disk) (es : List Event) : Disk := es.foldl step d

def answers (d : Disk) : List Event → List Answer
  | [] => []
  | .call folder c :: rest => (serve d folder c).1 :: answers (step d (.call folder c)) rest
  | .disturb d' :: rest => answers d' rest

/-- The answers of a register. Where others changed the disk it is the one that they left. -/
def replies (loc : Location) (m : Except TicketFlaw Register) : List Event → List Answer
  | [] => []
  | .call _ c :: rest => (reply m c).1 :: replies loc (reply m c).2 rest
  | .disturb d :: rest => replies loc (registerAt d loc) rest

abbrev Along (P : Disk → Event → Prop) (d : Disk) (es : List Event) : Prop :=
  SegmentLog.Along step P d es

/-- Calls are made by paths of one folder, and none is refused for a file operation. What others leave
in the place of the ticket is a regular file, or nothing. -/
def Quiet (loc : Location) (d : Disk) : Event → Prop
  | .call folder c =>
    d.locate folder = .ok loc ∧ (serve d folder c).1.isIo = false
  | .disturb d' => d'.Sound ∧ Regular d' loc

/-- Others leave the ticket alone. -/
def Alone (loc : Location) (d : Disk) : Event → Prop
  | .call _ _ => True
  | .disturb d' => d.Untouched d' (loc.enter fileName)

/-- The register that has given out the last of all numbers. -/
def Register.exhausted : Register := ⟨18446744073709551615, none⟩

/-- There are numbers left whenever one is to be given out. -/
def Counts (loc : Location) (d : Disk) : Event → Prop
  | .call _ (.begin _) => registerAt d loc ≠ .ok Register.exhausted
  | .call _ _ | .disturb _ => True

def begun (as : List Answer) : List UInt64 :=
  as.filterMap fun
    | .begun id => some id
    | _ => none

variable {es : List Event}

theorem serves_of_quiet (hs : d.Sound) (hr : Regular d loc) {c : Call}
    (hq : Quiet loc d (.call folder c)) :
    Serves d loc c (serve d folder c).1 (serve d folder c).2 ∧
      (serve d folder c).1 = (reply (registerAt d loc) c).1 ∧
      registerAt (serve d folder c).2 loc = (reply (registerAt d loc) c).2 := by
  have hserves := serve_serves hs hq.1 hr c
  refine ⟨hserves, hserves.answers.resolve_left ?_⟩
  rw [hq.2]
  exact Bool.false_ne_true

theorem step_quiet (hs : d.Sound) (hr : Regular d loc) {e : Event} (hq : Quiet loc d e) :
    (step d e).Sound ∧ Regular (step d e) loc := by
  cases e with
  | call folder c =>
    obtain ⟨hserves, -⟩ := serves_of_quiet hs hr hq
    exact ⟨hserves.sound, hserves.regular⟩
  | disturb d' => exact hq

theorem run_quiet (hs : d.Sound) (hr : Regular d loc) (hq : Along (Quiet loc) d es) :
    (run d es).Sound ∧ Regular (run d es) loc := by
  induction es generalizing d with
  | nil => exact ⟨hs, hr⟩
  | cons e es ih =>
    obtain ⟨hs', hr'⟩ := step_quiet hs hr hq.1
    exact ih hs' hr' hq.2

theorem answers_eq_replies (hs : d.Sound) (hr : Regular d loc) (hq : Along (Quiet loc) d es) :
    answers d es = replies loc (registerAt d loc) es := by
  induction es generalizing d with
  | nil => rfl
  | cons e es ih =>
    obtain ⟨hs', hr'⟩ := step_quiet hs hr hq.1
    have hrest := ih hs' hr' hq.2
    cases e with
    | call folder c =>
      obtain ⟨-, hanswer, hnext⟩ := serves_of_quiet hs hr hq.1
      rw [answers, replies, hrest, hanswer]
      rw [step, hnext]
    | disturb d' =>
      rw [answers, replies]
      exact hrest

theorem lt_max_of_lt_left {last next floor : UInt64} (h : last < next) : last < max next floor := by
  show last < if next ≤ floor then floor else next
  split
  · rename_i hle
    exact UInt64.lt_of_lt_of_le h hle
  · exact h

theorem Register.lt_succ {m : Register} (h : m ≠ exhausted) (hopen : m.openId = none) :
    m.last < m.last + 1 := by
  have hlast : m.last ≠ 18446744073709551615 := by
    intro he
    apply h
    obtain ⟨last, openId⟩ := m
    dsimp only at he hopen
    rw [he, hopen]
    rfl
  have hbound := m.last.toNat_lt
  rw [← UInt64.toNat_inj.ne] at hlast
  rw [UInt64.lt_iff_toNat_lt, UInt64.toNat_add]
  simp only [UInt64.toNat_one]
  have hlit : (18446744073709551615 : UInt64).toNat = 18446744073709551615 := rfl
  omega

/-- A call gives out a number above the last one, or it gives out none and the last one stays. -/
theorem Register.serve_cases (m : Register) {c : Call}
    (hroom : ∀ floor, c = .begin floor → m ≠ exhausted) :
    (∃ id, begun [(m.serve c).1] = [id] ∧ (m.serve c).2.last = id ∧ m.last < id) ∨
    begun [(m.serve c).1] = [] ∧ (m.serve c).2.last = m.last := by
  cases c with
  | begin floor =>
    cases hopen : m.openId with
    | some id =>
      right
      simp [Register.serve, hopen, begun]
    | none =>
      left
      have hserve : m.serve (.begin floor) =
          (.begun (max (m.last + 1) floor),
            ⟨max (m.last + 1) floor, some (max (m.last + 1) floor)⟩) := by
        rw [Register.serve, hopen]
      rw [hserve]
      exact ⟨_, rfl, rfl, lt_max_of_lt_left (lt_succ (hroom floor rfl) hopen)⟩
  | finish txn =>
    right
    unfold Register.serve
    dsimp only
    split
    · exact ⟨rfl, rfl⟩
    · exact ⟨rfl, rfl⟩
  | current => exact .inr ⟨rfl, rfl⟩

/-- The numbers that are given out go up from the last one. -/
theorem begun_ascending {m : Register} (hs : d.Sound) (hr : Regular d loc)
    (hat : registerAt d loc = .ok m) (hq : Along (Quiet loc) d es) (halone : Along (Alone loc) d es)
    (hcounts : Along (Counts loc) d es) :
    (m.last :: begun (answers d es)).Pairwise (· < ·) := by
  induction es generalizing d m with
  | nil => exact List.pairwise_singleton _ _
  | cons e es ih =>
    obtain ⟨hs', hr'⟩ := step_quiet hs hr hq.1
    cases e with
    | call folder c =>
      obtain ⟨-, hanswer, hnext⟩ := serves_of_quiet hs hr hq.1
      rw [hat] at hanswer hnext
      have hrest := ih hs' hr' hnext hq.2 halone.2 hcounts.2
      have hsplit : begun (answers d (.call folder c :: es)) =
          begun [(m.serve c).1] ++ begun (answers (step d (.call folder c)) es) := by
        rw [answers, hanswer, begun, begun, begun, ← List.filterMap_append]
        rfl
      have hroom : ∀ floor, c = .begin floor → m ≠ Register.exhausted := by
        rintro floor rfl rfl
        exact hcounts.1 hat
      rw [hsplit]
      rcases m.serve_cases (c := c) hroom with
        ⟨id, hid, hlast, hlt⟩ | ⟨hnone, hlast⟩
      · rw [hlast] at hrest
        rw [hid, List.singleton_append]
        refine List.pairwise_cons.mpr ⟨?_, hrest⟩
        intro n hn
        rcases List.mem_cons.mp hn with rfl | hn
        · exact hlt
        · exact UInt64.lt_trans hlt ((List.pairwise_cons.mp hrest).1 n hn)
      · rw [hlast] at hrest
        rw [hnone, List.nil_append]
        exact hrest
    | disturb d' =>
      have hsame := registerAt_congr halone.1
      exact ih hs' hr' (hsame.trans hat) hq.2 halone.2 hcounts.2

/-- Calls are made on a ticket in any order by anybody who knows a path of its folder, and no file
operation is refused. The answers are those of a register that starts at 0 with nothing open; where
others replace the file it is the register that they wrote, and if their octets say nothing every
call is refused for that. Left to the calls, the numbers that are given out go up. A call that is
refused, be it for a file operation, leaves the file as it is. -/
theorem register_of_calls (hs : d.Sound) (hnew : d.node? (loc.enter fileName) = none)
    (hq : Along (Quiet loc) d es) :
    answers d es = replies loc (.ok {}) es ∧
    (Along (Alone loc) d es → Along (Counts loc) d es →
      (begun (answers d es)).Pairwise (· < ·)) ∧
    ∀ folder c e, (run d es).locate folder = .ok loc → (serve (run d es) folder c).1 = .refused e →
      (run d es).Untouched (serve (run d es) folder c).2 (loc.enter fileName) := by
  have hr : Regular d loc := by simp [Regular, hnew]
  have hat : registerAt d loc = .ok {} := by
    rw [registerAt, hnew]
    rfl
  refine ⟨?_, ?_, ?_⟩
  · rw [← hat]
    exact answers_eq_replies hs hr hq
  · intro halone hcounts
    exact (begun_ascending hs hr hat hq halone hcounts).of_cons
  · intro folder c e hl hrefused
    obtain ⟨hs', hr'⟩ := run_quiet hs hr hq
    exact (serve_serves hs' hl hr' c).untouched e hrefused

/-! ## Two who know the folder -/

def overwritten : Disk where
  nodes := [((Location.top.enter "wal").enter ".txstate", .file 0),
    (Location.top.enter "wal", .folder)]
  bodies := fun _ => .ofOctets [1, 0]
  nextBody := 1

def unused : Disk where
  nodes := [(Location.top.enter "wal", .folder)]

def turns : List Event :=
  [.call "wal" (.begin 5), .call "./wal" (.begin 0), .call "wal" (.finish 4),
    .call "./wal" (.finish 5), .call "wal" (.begin 3), .call "./wal" .current]

/-- The octets that others left refuse the next call, and stay. -/
theorem register_of_calls_turns :
    let loc := Location.top.enter "wal"
    let es := turns ++ [.disturb overwritten]
    (unused.Sound ∧ unused.node? (loc.enter fileName) = none ∧ Along (Quiet loc) unused turns ∧
      Along (Quiet loc) unused es ∧ Along (Alone loc) unused turns ∧
      Along (Counts loc) unused turns ∧ (run unused es).locate "./wal" = .ok loc ∧
      (serve (run unused es) "./wal" (.begin 0)).1 =
        .refused (.undecodable .unexpectedEnd)) ∧
    answers unused es =
      [.begun 5, .refused (.ticket (.alreadyOpen 5)), .refused (.ticket (.notOpen 4)), .finished,
        .begun 6, .current (some 6)] ∧
    (begun (answers unused turns)).Pairwise (· < ·) ∧
    overwritten.Untouched (serve overwritten "./wal" (.begin 0)).2 (loc.enter fileName) := by
  intro loc es
  have hs : unused.Sound :=
    ⟨by decide +kernel, by decide +kernel, by decide +kernel, by decide +kernel⟩
  have hs' : overwritten.Sound :=
    ⟨by decide +kernel, by decide +kernel, by decide +kernel, by decide +kernel⟩
  have hnew : unused.node? (loc.enter fileName) = none := by decide +kernel
  have hq : Along (Quiet loc) unused turns := by
    simp only [turns, Along.cons, Along.nil, Quiet]
    decide +kernel
  have hq' : Along (Quiet loc) unused es := by
    simp only [es, turns, List.cons_append, List.nil_append, Along.cons, Along.nil, Quiet, Regular, hs']
    decide +kernel
  have halone : Along (Alone loc) unused turns := by simp [turns, Alone]
  have hcounts : Along (Counts loc) unused turns := by
    simp only [turns, Along.cons, Along.nil, Counts]
    decide +kernel
  have hl : (run unused es).locate "./wal" = .ok loc := by decide +kernel
  have hrefused : (serve (run unused es) "./wal" (.begin 0)).1 =
      .refused (.undecodable .unexpectedEnd) := by decide +kernel
  obtain ⟨-, hascending, -⟩ := register_of_calls hs hnew hq
  obtain ⟨hanswers, -, huntouched⟩ := register_of_calls hs hnew hq'
  refine ⟨⟨hs, hnew, hq, hq', halone, hcounts, hl, hrefused⟩, hanswers.trans ?_,
    hascending halone hcounts, huntouched "./wal" (.begin 0) _ hl hrefused⟩
  decide +kernel

end SegmentLog.Ticket
