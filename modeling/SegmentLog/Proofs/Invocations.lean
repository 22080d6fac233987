import SegmentLog.Proofs.Accounts

/-!
Command lines run one after the other in one folder. Each does one of the few things that words can
do (`Shell.Stands.run`), so that all of them together keep the account of their transcript
(`Shell.Stands.runAll`), and from a folder that was empty each does what can be told from those
before it (`Shell.transcript_explains`).
-/

namespace SegmentLog.Shell

/-! ## Running command lines -/

def command? (words : List String) : Option Command :=
  match parse words with
  | .ok i => some i.command
  | .error _ => none

/-- Words that ask for a command ask for it in this folder. -/
def asksIn (folder : String) (d : Disk) (words : List String) : Bool :=
  match parse words with
  | .ok i => d.resolve i.options.folderText = .ok folder
  | .error _ => true

/-- The records in the segments of a folder. -/
def logged (folder : String) (d : Disk) : List Record :=
  match Log.recordsOf d folder with
  | .ok log => log
  | .error _ => []

def visit (folder : String) (d : Disk) (words : List String) : Visit where
  command := command? words
  result := (run d words).1
  added := (logged folder (run d words).2).drop (logged folder d).length

def runAll (d : Disk) (past : List (List String)) : Disk :=
  past.foldl (fun d words => (run d words).2) d

/-- What is seen of some invocations. -/
def transcript (folder : String) (d : Disk) : List (List String) → List Visit
  | [] => []
  | words :: rest => visit folder d words :: transcript folder (run d words).2 rest

abbrev Along (P : Disk → List String → Prop) (d : Disk) (lines : List (List String)) : Prop :=
  SegmentLog.Along (fun d words => (run d words).2) P d lines

/-- An invocation finds no number at its limit: none of a segment if it may add a record, and not
that of the last transaction if it may begin one. -/
structure Spare (folder : String) (d : Disk) (words : List String) : Prop where
  segments : ∀ c, command? words = some c → c.adds = true → d.Within folder (2 ^ 64 - 2)
  ticket : command? words = some .beginTx → ∀ t, Ticket.load d folder = .ok t → t.isOpen = false →
    t.last.toNat + 1 < 2 ^ 64

inductive Runs (log : List Record) (t : Ticket) :
    Option Command → Result → List Record → Ticket → Prop
  | stops (result : Result) : Runs log t none result log t
  | does {c : Command} {outcome : Outcome} {log' : List Record} {t' : Ticket}
    (hd : Does log t c outcome log' t') : Runs log t (some c) outcome.result log' t'

variable {d : Disk} {folder : String} {log log' : List Record} {t t' : Ticket} {n : Nat}
  {words : List String} {past : List Visit}

/-- Records are only ever added, and the number of the ticket goes up by one at most. -/
theorem Does.grows {c : Command} {outcome : Outcome} (h : Does log t c outcome log' t') :
    log <+: log' ∧ t'.last.toNat ≤ t.last.toNat + 1 := by
  cases h with
  | begins hopen id hid hnew => exact ⟨List.prefix_refl log, Nat.le_of_eq hid⟩
  | _ => exact ⟨by simp, Nat.le_succ _⟩

theorem Runs.grows {c : Option Command} {result : Result} (h : Runs log t c result log' t') :
    log <+: log' ∧ t'.last.toNat ≤ t.last.toNat + 1 := by
  cases h with
  | stops => exact ⟨List.prefix_refl log, Nat.le_succ _⟩
  | does hd => exact hd.grows

theorem runInvocation_eq (d : Disk) (i : Invocation) :
    runInvocation d i = ((runIn d i).1.result, (runIn d i).2) := by
  unfold runInvocation
  rcases runIn d i with ⟨⟨answer, output⟩, d'⟩
  cases answer <;> rfl

theorem run_of_asksIn {i : Invocation} (hp : parse words = .ok i)
    (hasks : asksIn folder d words = true) :
    run d words = ((runCommand d folder (i.options.toSettings folder) i.command).1.result,
      (runCommand d folder (i.options.toSettings folder) i.command).2) := by
  have hresolve : d.resolve i.options.folderText = .ok folder := by
    rw [asksIn, hp] at hasks
    exact of_decide_eq_true hasks
  have hmake : d.makeFolders i.options.folderText = (.ok (), d) := by
    cases hl : d.locate i.options.folderText with
    | error f =>
      rw [Disk.resolve, hl] at hresolve
      cases hresolve
    | ok loc => exact Disk.makeFolders_of_locate hl
  simp only [run, hp, runInvocation_eq, runIn, hmake, hresolve]

/-- Segments are numbered in 64 bits. -/
theorem Stands.within (h : Stands d folder log t) : d.Within folder (2 ^ 64 - 1) := by
  obtain ⟨vs, hholds, -⟩ := h.volumes
  rw [hholds.within_iff]
  intro v _
  have hlt := v.segment.id.toNat_lt
  omega

theorem Stands.run (h : Stands d folder log t) (hn : d.Within folder n) (hpos : 1 ≤ n)
    (hlog : ∀ r ∈ log, r.txn ≤ t.last)
    (hlt : ∀ c, command? words = some c → c.adds = true → n + 1 < 2 ^ 64)
    (hlast : command? words = some .beginTx → t.isOpen = false → t.last.toNat + 1 < 2 ^ 64)
    (hasks : asksIn folder d words = true) :
    ∃ log' t', Runs log t (command? words) (Shell.run d words).1 log' t' ∧
      Reaches d folder n log' t' (Shell.run d words).2 := by
  unfold command? at hlt hlast ⊢
  cases hp : parse words with
  | error stop =>
    have hrun : Shell.run d words = (stop.result, d) := by rw [Shell.run, hp]
    rw [hrun]
    exact ⟨log, t, .stops _, h.reaches hn⟩
  | ok i =>
    rw [hp] at hlt hlast
    have hfolder : (i.options.toSettings folder).folder = folder := rfl
    obtain ⟨outcome, d', log', t', hrun, hdoes, hreaches⟩ :=
      h.runCommand hfolder hn hpos hlog (hlt i.command rfl) fun hc => hlast (congrArg some hc)
    rw [run_of_asksIn hp hasks, hrun]
    exact ⟨log', t', .does hdoes, hreaches⟩

theorem Stands.logged (h : Stands d folder log t) : logged folder d = log := by
  rw [Shell.logged, h.recordsOf]

/-- The records that an invocation adds come behind those that were there. -/
theorem Runs.added {c : Option Command} {result : Result} (h : Runs log t c result log' t')
    (hs : Stands d folder log t) (hs' : Stands (Shell.run d words).2 folder log' t') :
    log' = log ++ (visit folder d words).added := by
  obtain ⟨added, rfl⟩ := h.grows.1
  rw [visit, hs.logged, hs'.logged, List.drop_left]

theorem Accounts.runs {v : Visit} (h : Accounts past log t)
    (hr : Runs log t v.command v.result log' t') (ha : log' = log ++ v.added) :
    Accounts (past ++ [v]) log' t' := by
  generalize hc : v.command = c at hr
  generalize hresult : v.result = result at hr
  cases hr with
  | stops =>
    refine h.quiet ?_ ?_ ?_
    · simp [Visit.begins, hc]
    · simp [Visit.ends, hc]
    · simp [Visit.lists, hc]
  | does hd => exact h.does hd hc hresult ha

theorem Stands.step (h : Stands d folder log t) (ha : Accounts past log t)
    (hn : d.Within folder n) (hpos : 1 ≤ n)
    (hlt : ∀ c, command? words = some c → c.adds = true → n + 1 < 2 ^ 64)
    (hlast : command? words = some .beginTx → t.isOpen = false → t.last.toNat + 1 < 2 ^ 64)
    (hasks : asksIn folder d words = true) :
    let v := visit folder d words
    ∃ t', Runs log t v.command v.result (log ++ v.added) t' ∧
      Reaches d folder n (log ++ v.added) t' (Shell.run d words).2 ∧
      Accounts (past ++ [v]) (log ++ v.added) t' := by
  obtain ⟨log', t', hruns, hreaches⟩ := h.run hn hpos ha.numbered hlt hlast hasks
  obtain rfl := hruns.added h hreaches.stands
  exact ⟨t', hruns, hreaches, ha.runs hruns rfl⟩

theorem Stands.step_of_spare (h : Stands d folder log t) (ha : Accounts past log t)
    (hspare : Spare folder d words) (hasks : asksIn folder d words = true) :
    let v := visit folder d words
    ∃ t', Runs log t v.command v.result (log ++ v.added) t' ∧
      Stands (Shell.run d words).2 folder (log ++ v.added) t' ∧ d.Leads (Shell.run d words).2 ∧
      Accounts (past ++ [v]) (log ++ v.added) t' := by
  intro v
  have hlast (hc : command? words = some .beginTx) := hspare.ticket hc t h.load
  by_cases hadds : ∃ c, command? words = some c ∧ c.adds = true
  · obtain ⟨c, hc, hadds⟩ := hadds
    obtain ⟨t', hruns, hreaches, haccounts⟩ := h.step ha (hspare.segments c hc hadds) (by decide)
      (fun _ _ _ => by decide) hlast hasks
    exact ⟨t', hruns, hreaches.stands, hreaches.leads, haccounts⟩
  · obtain ⟨t', hruns, hreaches, haccounts⟩ := h.step ha h.within (by decide)
      (fun c hc hadd => absurd ⟨c, hc, hadd⟩ hadds) hlast hasks
    exact ⟨t', hruns, hreaches.stands, hreaches.leads, haccounts⟩

theorem asksIn_of_leads {d' : Disk} (hd : d.Leads d') (h : asksIn folder d words = true) :
    asksIn folder d' words = true := by
  unfold asksIn at h ⊢
  split
  · rename_i i hp
    rw [hp] at h
    exact decide_eq_true (hd.resolve (of_decide_eq_true h))
  · rfl

theorem Stands.runAll {lines : List (List String)} (h : Stands d folder log t)
    (ha : Accounts past log t) (hspare : Along (Spare folder) d lines)
    (hasks : ∀ line ∈ lines, asksIn folder d line = true) :
    ∃ log' t', Stands (Shell.runAll d lines) folder log' t' ∧
      Accounts (past ++ transcript folder d lines) log' t' ∧ d.Leads (Shell.runAll d lines) := by
  induction lines generalizing d log t past with
  | nil => exact ⟨log, t, h, by simpa [transcript] using ha, Disk.Leads.refl d⟩
  | cons words rest ih =>
    obtain ⟨hhere, hlater⟩ := hspare
    obtain ⟨t₁, -, hafter, hmoves, hnext⟩ :=
      h.step_of_spare ha hhere (hasks words List.mem_cons_self)
    obtain ⟨log', t', hstands, haccounts, hleads⟩ := ih hafter hnext hlater
      fun line hl => asksIn_of_leads hmoves (hasks line (List.mem_cons_of_mem _ hl))
    refine ⟨log', t', hstands, ?_, hmoves.trans hleads⟩
    rwa [transcript, List.append_cons]

/-- No number is at its limit as long as there are not that many invocations. -/
theorem Stands.along_spare {lines : List (List String)} (h : Stands d folder log t)
    (ha : Accounts past log t) (hn : d.Within folder n) (hpos : 1 ≤ n) (hlast : t.last.toNat ≤ n)
    (hlength : n + lines.length < 2 ^ 64 - 1)
    (hasks : ∀ line ∈ lines, asksIn folder d line = true) : Along (Spare folder) d lines := by
  induction lines generalizing d log t past n with
  | nil => trivial
  | cons words rest ih =>
    rw [List.length_cons] at hlength
    refine ⟨⟨fun _ _ _ => hn.mono (by omega), fun _ t' ht _ => ?_⟩, ?_⟩
    · obtain rfl := Except.ok.inj (h.load.symm.trans ht)
      omega
    · obtain ⟨t₁, hruns, hreaches, hnext⟩ := h.step ha hn hpos (fun _ _ _ => by omega)
        (fun _ _ => by omega) (hasks words List.mem_cons_self)
      have hgrows := hruns.grows.2
      exact ih hreaches.stands hnext hreaches.within (by omega) (by omega) (by omega)
        fun line hl => asksIn_of_leads hreaches.leads (hasks line (List.mem_cons_of_mem _ hl))

/-! ## A folder that was empty -/

section Vacant

variable {loc : Location} (hs : d.Sound) (hg : d.Grants) (hne : folder ≠ "")
  (hl : d.locate folder = .ok loc) (hroom : folder.utf8ByteSize + 25 < Disk.pathLimit)
  (hvacant : ∀ name, d.node? (loc.enter name) = none)
include hs hg hne hl hvacant

theorem holds_of_vacant : d.Holds folder [] := by
  refine ⟨hs, hg.tidy, hne, ⟨loc, hl⟩, nofun, ?_, List.Pairwise.nil⟩
  intro s _ hsome
  obtain ⟨body, hb⟩ := Option.isSome_iff_exists.mp hsome
  have hnode := ((Disk.bodyOf?_eq_some hl).mp hb).2
  rw [hvacant] at hnode
  cases hnode

include hroom

theorem stands_of_vacant : Stands d folder [] {} :=
  ⟨⟨[], holds_of_vacant hs hg hne hl hvacant, intact_nil, rfl⟩,
    Disk.clear_of_nodes hl hroom fun name => by simp [hvacant name], hg.willing, loc,
    .of_vacant hl hroom hvacant⟩

/-- From an empty folder no number runs out before there are nearly as many command lines. -/
theorem spare_of_length {lines : List (List String)} (hlength : lines.length < 2 ^ 64 - 2)
    (hasks : ∀ line ∈ lines, asksIn folder d line = true) : Along (Spare folder) d lines := by
  have hwithin : d.Within folder 1 :=
    (holds_of_vacant hs hg hne hl hvacant).within_iff.mpr (by simp)
  exact (stands_of_vacant hs hg hne hl hroom hvacant).along_spare accounts_nil hwithin
    (Nat.le_refl 1) (Nat.zero_le 1) (by omega) hasks

end Vacant

/-! ## What a transcript tells -/

/-- An invocation, of which `v` is seen, does to the records and to the ticket what the visits
before it tell. -/
structure Explained (visits : List Visit) (v : Visit) (log : List Record) (t : Ticket)
    (log' : List Record) (t' : Ticket) : Prop where
  read : v.command = some .read → v.result.exit = 0 → v.result.output = table (listed visits)
  write : ∀ key value, v.command = some (.write key value) → v.result.exit = 0 →
    ∃ n, v.added = [Record.write n 0 (Text.toOctets key) (Text.toOctets value)] ∧
      v.result.output = lines [s!"Wrote record: LSN={n}, key={key}, value={value}"]
  txWrite : ∀ key value, v.command = some (.txWrite key value) → v.result.exit = 0 →
    ∃ n txn u, lastBegun? visits = some u ∧ u.result.output = startedText txn ∧
      v.added = [Record.write n txn (Text.toOctets key) (Text.toOctets value)] ∧
      v.result.output =
        lines [s!"Wrote record: LSN={n}, TxID={txn}, key={key}, value={value}"]
  failed : v.result.exit ≠ 0 → log' = log ∧ t' = t
  /-- Only in an open transaction something is written, and only such a one is ended. -/
  opened : v.result.exit = 0 → ∀ c, v.command = some c →
    (∃ key value, c = .txWrite key value) ∨ c = .commit ∨ c = .abort → openIn visits = true
  /-- A transaction gets a number above those of all transactions before it, in the log and in what
  was printed. -/
  begun : v.command = some .beginTx → v.result.exit = 0 →
    ∃ id, v.result.output = startedText id ∧ (∀ r ∈ log, r.txn < id) ∧
      ∀ u ∈ visits, u.command = some .beginTx → u.result.exit = 0 →
        ∃ id', u.result.output = startedText id' ∧ id' < id

namespace Does

variable {output : String} {key value : String}

theorem of_read (h : Does log t .read ⟨.ok (), output⟩ log' t') :
    output = table (log.filter (shown log)) := by
  cases h with
  | read => rfl
  | ends hc => cases hc
  | discards hc => cases hc

theorem of_write (h : Does log t (.write key value) ⟨.ok (), output⟩ log' t') :
    ∃ n, log' = log ++ [Record.write n 0 (Text.toOctets key) (Text.toOctets value)] ∧
      output = lines [s!"Wrote record: LSN={n}, key={key}, value={value}"] := by
  cases h with
  | write _ _ n => exact ⟨n, rfl, rfl⟩
  | ends hc => cases hc
  | discards hc => cases hc

theorem of_txWrite (h : Does log t (.txWrite key value) ⟨.ok (), output⟩ log' t') :
    t.isOpen = true ∧
    ∃ n, log' = log ++ [Record.write n t.last (Text.toOctets key) (Text.toOctets value)] ∧
      output = lines [s!"Wrote record: LSN={n}, TxID={t.last}, key={key}, value={value}"] := by
  cases h with
  | txWrite hopen _ _ n => exact ⟨hopen, n, rfl, rfl⟩
  | ends hc => cases hc
  | discards hc => cases hc

theorem of_beginTx (h : Does log t .beginTx ⟨.ok (), output⟩ log' t') :
    ∃ id, output = startedText id ∧ t.last < id ∧ ∀ r ∈ log, r.txn < id := by
  cases h with
  | begins hopen id hid hnew =>
    refine ⟨id, rfl, ?_, hnew⟩
    rw [UInt64.lt_iff_toNat_lt]
    omega
  | ends hc => cases hc
  | discards hc => cases hc

theorem isOpen_of_ending {c : Command} {kind : Kind} (hc : c.ending? = some kind)
    (h : Does log t c ⟨.ok (), output⟩ log' t') : t.isOpen = true := by
  cases h with
  | ends _ hopen => exact hopen
  | discards _ hopen => exact hopen
  | _ => cases hc

theorem of_error {c : Command} {e : Error} (h : Does log t c ⟨.error e, output⟩ log' t') :
    log' = log ∧ t' = t := by
  cases h with
  | refused => exact ⟨rfl, rfl⟩

end Does

theorem Accounts.explained {v : Visit} (h : Accounts past log t)
    (hr : Runs log t v.command v.result log' t') (ha : log' = log ++ v.added) :
    Explained past v log t log' t' := by
  generalize hc : v.command = command at hr
  generalize hresult : v.result = result at hr
  cases hr with
  | stops =>
    refine ⟨?_, ?_, ?_, fun _ => ⟨rfl, rfl⟩, ?_, ?_⟩ <;>
    · rw [hc]
      nofun
  | @does c outcome _ _ hd =>
    obtain ⟨answer, output⟩ := outcome
    cases answer with
    | error e =>
      have hexit : v.result.exit ≠ 0 := by
        rw [hresult]
        exact Nat.one_ne_zero
      exact ⟨fun _ he => absurd he hexit, fun _ _ _ he => absurd he hexit,
        fun _ _ _ he => absurd he hexit, fun _ => hd.of_error, fun he => absurd he hexit,
        fun _ he => absurd he hexit⟩
    | ok _ =>
      have hexit : v.result.exit = 0 := by rw [hresult]; rfl
      obtain rfl : v.result.output = output := by rw [hresult]; rfl
      refine ⟨?_, ?_, ?_, fun he => absurd hexit he, ?_, ?_⟩
      · intro hcommand _
        cases hc.symm.trans hcommand
        rw [hd.of_read, Shell.listed, h.listed, h.filter_open]
      · intro key value hcommand _
        cases hc.symm.trans hcommand
        obtain ⟨n, hlog, hout⟩ := hd.of_write
        exact ⟨n, List.append_cancel_left (ha.symm.trans hlog), hout⟩
      · intro key value hcommand _
        cases hc.symm.trans hcommand
        obtain ⟨hopen, n, hlog, hout⟩ := hd.of_txWrite
        obtain ⟨u, hu, hstarted⟩ := h.named hopen
        exact ⟨n, t.last, u, hu, hstarted, List.append_cancel_left (ha.symm.trans hlog), hout⟩
      · intro _ c' hcommand hneeds
        cases hc.symm.trans hcommand
        rw [h.opened]
        rcases hneeds with ⟨key, value, rfl⟩ | rfl | rfl
        · exact hd.of_txWrite.1
        · exact Does.isOpen_of_ending rfl hd
        · exact Does.isOpen_of_ending rfl hd
      · intro hcommand _
        cases hc.symm.trans hcommand
        obtain ⟨id, hout, hlast, hnew⟩ := hd.of_beginTx
        refine ⟨id, hout, hnew, fun u hu hcu heu => ?_⟩
        have hbegins : u.begins = true := by simp [Visit.begins, Visit.granted, hcu, heu]
        obtain ⟨id', hle, hout'⟩ := h.begun u hu hbegins
        exact ⟨id', hout', UInt64.lt_of_le_of_lt hle hlast⟩

/-- The command line in one folder, which is empty at first and changed by nobody else, on a disk
that refuses nothing of its files. Whatever lines are run, with any options, each does what can be
told from those before it (`Explained`). Numbers would have to run out, for which there have to be
at least `2 ^ 64 - 2` lines (`spare_of_length`). -/
theorem transcript_explains {loc : Location} {lines : List (List String)} {words : List String}
    (hs : d.Sound) (hg : d.Grants) (hne : folder ≠ "") (hl : d.locate folder = .ok loc)
    (hroom : folder.utf8ByteSize + 25 < Disk.pathLimit)
    (hvacant : ∀ name, d.node? (loc.enter name) = none)
    (hasks : ∀ line ∈ lines ++ [words], asksIn folder d line = true)
    (hspare : Along (Spare folder) d (lines ++ [words])) :
    let before := runAll d lines
    let v := visit folder before words
    ∃ log t t', (Log.recordsOf before folder = .ok log ∧ Ticket.load before folder = .ok t) ∧
      (Log.recordsOf (run before words).2 folder = .ok (log ++ v.added) ∧
        Ticket.load (run before words).2 folder = .ok t') ∧
      Explained (transcript folder d lines) v log t (log ++ v.added) t' := by
  intro before v
  have hstart := stands_of_vacant hs hg hne hl hroom hvacant
  obtain ⟨hbefore, hlast, -⟩ := Along.append.mp hspare
  obtain ⟨log, t, hstands, haccounts, hleads⟩ := hstart.runAll accounts_nil hbefore
    fun line hline => hasks line (List.mem_append_left _ hline)
  rw [List.nil_append] at haccounts
  obtain ⟨t', hruns, hafter, -, -⟩ := hstands.step_of_spare haccounts hlast
    (asksIn_of_leads hleads (hasks words (by simp)))
  exact ⟨log, t, t', ⟨hstands.recordsOf, hstands.load⟩, ⟨hafter.recordsOf, hafter.load⟩,
    haccounts.explained hruns rfl⟩

/-- A write in a transaction, one outside and a commit; then another transaction is begun and writes
to a segment of its own. One command is misspelt and one is refused for its settings. -/
def interleaved : List (List String) :=
  [["-d", "wal", "begin-tx"], ["-d", "wal", "tx-write", "a", "1"], ["-d", "wal", "write", "b", "2"],
    ["-d", "wal", "comit"], ["-d", "wal", "commit"], ["-d", "/wal", "begin-tx"],
    ["--segment-size", "35", "-dwal", "tx-write", "c", "3"],
    ["--segment-size", "3", "-d", "wal", "commit"]]

/-- A read lists the write of the committed transaction and the one outside, and not that of the
transaction that is still open. -/
theorem transcript_explains_interleaved :
    let d := Session.emptyFolder
    let words := ["-d", "wal", "read"]
    let v := visit "/wal" (runAll d interleaved) words
    let rs := [Record.write 1 1 [97] [49], Record.write 2 0 [98] [50]]
    (d.Sound ∧ d.Grants ∧ "/wal" ≠ "" ∧ d.locate "/wal" = .ok (Location.top.enter "wal") ∧
      "/wal".utf8ByteSize + 25 < Disk.pathLimit ∧
      (∀ name, d.node? ((Location.top.enter "wal").enter name) = none) ∧
      (∀ line ∈ interleaved ++ [words], asksIn "/wal" d line = true) ∧
      Along (Spare "/wal") d (interleaved ++ [words])) ∧
    listed (transcript "/wal" d interleaved) = rs ∧ v.result.exit = 0 ∧ v.result.output = table rs := by
  intro d words v rs
  have hsound : d.Sound :=
    ⟨by decide +kernel, by decide +kernel, by decide +kernel, by decide +kernel⟩
  have hgrants : d.Grants := fun _ => rfl
  have hl : d.locate "/wal" = .ok (Location.top.enter "wal") := by decide +kernel
  have hroom : "/wal".utf8ByteSize + 25 < Disk.pathLimit := by decide +kernel
  have hvacant (name : String) : d.node? ((Location.top.enter "wal").enter name) = none := by
    have hne : (Location.top.enter "wal").enter name ≠ Location.top.enter "wal" := by simp
    simp [d, Disk.node?, Session.emptyFolder, List.lookup_cons, beq_false_of_ne hne]
  have hasks : ∀ line ∈ interleaved ++ [words], asksIn "/wal" d line = true := by decide +kernel
  have hspare : Along (Spare "/wal") d (interleaved ++ [words]) :=
    spare_of_length hsound hgrants (by decide) hl hroom hvacant (by decide) hasks
  have hlisted : listed (transcript "/wal" d interleaved) = rs := by decide +kernel
  have hexit : v.result.exit = 0 := by decide +kernel
  obtain ⟨log, t, t', -, -, hexplained⟩ :=
    transcript_explains hsound hgrants (by decide) hl hroom hvacant hasks hspare
  refine ⟨⟨hsound, hgrants, by decide, hl, hroom, hvacant, hasks, hspare⟩, hlisted, hexit, ?_⟩
  rw [← hlisted]
  exact hexplained.read (by decide +kernel) hexit

end SegmentLog.Shell
