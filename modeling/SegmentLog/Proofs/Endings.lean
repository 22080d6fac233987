import SegmentLog.Proofs.Concluding
import SegmentLog.Proofs.Invocations
import SegmentLog.Proofs.Storing

/-!
Commits and aborts of the command line that fail. They write to two places, first the marker to the
log and then the ticket, and the marker is not taken back when the ticket cannot be stored. So a
commit that failed may have committed, and an abort that failed may have aborted
(`Shell.listed_after_failed_ending`). What was done can be told from what was printed
(`Shell.Fails`), whatever was run and refused in the folder before (`Shell.ending_fails`).
-/

namespace SegmentLog.Shell

variable {d d' : Disk} {folder : String} {log log' : List Record} {t : Ticket}
  {settings : Settings} {n : Nat} {c : Command} {kind : Kind} {txn : UInt64} {i : Invocation}
  {words : List String} {loc : Location}

/-! ## The step on the log -/

def endedText : Kind → UInt64 → String
  | .txnCommit, txn => s!"Committed transaction {txn}"
  | _, txn => s!"Aborted transaction {txn}"

def unknownText : Kind → UInt64 → String
  | .txnCommit, txn => s!"Transaction {txn} has no logged writes; nothing to commit"
  | _, txn => s!"Transaction {txn} has no logged writes; discarded"

/-- An action ends a transaction on a log that was just opened. -/
def EndsTxn (folder : String) (log : List Record) (kind : Kind) (txn : UInt64)
    (action : Log → Disk → Outcome × Log × Disk) : Prop :=
  ∀ l d, l.Stands d folder log [] → l.desk = Desk.ofRecords log →
    l.currentSegment.toNat + 1 < 2 ^ 64 →
    ∃ result, action l d = (⟨result.1, ""⟩, result.2) ∧
      l.Concluded d folder log kind txn result

theorem endsTxn_commit (folder : String) (log : List Record) (txn : UInt64) :
    EndsTxn folder log .txnCommit txn (commitAction txn) :=
  fun l d h hdesk hlt => ⟨l.commit d txn, rfl, h.commit_concluded hdesk hlt txn⟩

theorem endsTxn_abort (folder : String) (log : List Record) (txn : UInt64) :
    EndsTxn folder log .txnRollback txn (abortAction txn) :=
  fun l d h hdesk hlt => ⟨l.abort d txn, rfl, h.abort_concluded hdesk hlt txn⟩

/-- The folder after the step on its log by which a command ends a transaction. -/
structure Stepped (d : Disk) (folder : String) (n : Nat) (settings : Settings) (log : List Record)
    (kind : Kind) (txn : UInt64) (answer : Except Error Unit) (d' : Disk) (log' : List Record) :
    Prop where
  logs : d'.Logs folder log'
  concludes : Concludes log kind txn answer log'
  frames : d.Frames folder d'
  within : d'.Within folder (n + 1)
  /-- It is granted where nothing stands in the way. -/
  granted : settings.validate = .ok () → d.Clear folder → d.Willing →
    unresolved log txn = true → answer = .ok ()

/-- A log is open on a folder, in a segment whose number is not above the one after `n`. -/
def Stays (folder : String) (n : Nat) (after : Log × Disk) : Prop :=
  ∃ S T, after.1.Stands after.2 folder S T ∧ after.1.currentSegment.toNat ≤ n + 1

section Folder

variable (h : d.Logs folder log) (hf : settings.folder = folder) (hn : d.Within folder n)
  (hpos : 1 ≤ n)
include h hf hn hpos

theorem withLog_of_endsTxn (hlt : n + 1 < 2 ^ 64)
    {action : Log → Disk → Outcome × Log × Disk} (ha : EndsTxn folder log kind txn action) :
    ∃ answer d' log', withLog d settings action = (⟨answer, ""⟩, d') ∧
      Stepped d folder n settings log kind txn answer d' log' := by
  rcases h.start hf with ⟨l, d₁, hstart, hstands, hdesk, hframes, hready, hsegment⟩ |
    ⟨e, hstart, he, hnot⟩
  · have hle := hsegment n hn hpos
    obtain ⟨result, haction, hconcluded⟩ := ha l d₁ hstands hdesk (by omega)
    obtain ⟨⟨log', hlogs, hconcludes⟩, hgranted, hframes', hwithin⟩ := hconcluded.close
    refine ⟨_, _, log', ?_, hlogs, hconcludes, hframes.trans hframes',
      hwithin.mono (by omega), fun _ hclear hwilling hu => hgranted hu (hready hclear hwilling)⟩
    obtain ⟨answer, l', d₂⟩ := result
    simp only [withLog, hstart, haction]
    cases answer <;> rfl
  · exact ⟨.error e, d, log, by simp only [withLog, hstart], h, .refused e he,
      .refl h.sound, hn.mono (Nat.le_succ n), fun hv hclear _ _ => absurd hclear (hnot hv)⟩

/-- An action that leaves the log on its folder leaves a folder that holds records. -/
theorem withLog_logs {action : Log → Disk → Outcome × Log × Disk}
    (ha : ∀ l d, l.Stands d folder log [] → l.currentSegment.toNat ≤ n →
      Stays folder n (action l d).2) :
    ∃ log', (withLog d settings action).2.Logs folder log' ∧
      (withLog d settings action).2.Within folder (n + 1) := by
  rcases h.start hf with ⟨l, d₁, hstart, hstands, -, -, -, hsegment⟩ | ⟨e, hstart, -, -⟩
  · obtain ⟨S, T, hafter, hle⟩ := ha l d₁ hstands (hsegment n hn hpos)
    rcases haction : action l d₁ with ⟨⟨answer, output⟩, l', d₂⟩
    rw [haction] at hafter hle
    obtain ⟨refusal, S', T', -, hmirrors, -⟩ := hafter.close
    have hwithin := hmirrors.stands.within
    rw [Log.currentSegment_close] at hwithin
    have hdisk : (withLog d settings action).2 = (l'.close d₂).2.2 := by
      simp only [withLog, hstart, haction]
      cases answer <;> rfl
    rw [hdisk]
    exact ⟨S', hmirrors.stands.logs, hwithin.mono hle⟩
  · have hdisk : (withLog d settings action).2 = d := by simp only [withLog, hstart]
    rw [hdisk]
    exact ⟨log, h, hn.mono (Nat.le_succ n)⟩

end Folder

/-! ## Commits and aborts -/

/-- What a command that ends the open transaction has done to the records of the log where it
fails, and what it printed. -/
inductive Fails (log : List Record) (ticket : Except Error Ticket) (kind : Kind) :
    Outcome → List Record → Prop
  | undone (e : Error) : Fails log ticket kind ⟨.error e, ""⟩ log
  /-- There was nothing to do on the log, and the ticket was not stored. -/
  | unknown {t : Ticket} (ht : ticket = .ok t) (hopen : t.isOpen = true)
    (hu : unresolved log t.last = false) {e : Error} (he : Ticket.StoreError e) :
    Fails log ticket kind ⟨.error e, lines [unknownText kind t.last]⟩ log
  /-- The log took the marker, and then the ticket was not stored. -/
  | marked {t : Ticket} (ht : ticket = .ok t) (hopen : t.isOpen = true)
    (hu : unresolved log t.last = true) {e : Error} (he : Ticket.StoreError e) (n : UInt64) :
    Fails log ticket kind ⟨.error e, lines [endedText kind t.last]⟩
      (log ++ [Record.marker kind n t.last])

def Blocked (d : Disk) (folder : String) : Prop :=
  ∃ loc, d.locate folder = .ok loc ∧
    (d.node? (loc.enter Ticket.scratchName) = some .folder ∨
      d.node? (loc.enter Ticket.scratchName) = some .full)

/-- The folder after a command that ends a transaction. -/
structure Ended (d : Disk) (folder : String) (n : Nat) (settings : Settings) (log : List Record)
    (kind : Kind) (outcome : Outcome) (d' : Disk) (log' : List Record) : Prop where
  logs : d'.Logs folder log'
  within : d'.Within folder (n + 1)
  failed : ∀ e, outcome.answer = .error e → Ticket.load d' folder = Ticket.load d folder ∧
    Fails log (Ticket.load d folder) kind outcome log'
  blocked : ∀ t, Ticket.load d folder = .ok t → t.isOpen = true → unresolved log t.last = true →
    settings.validate = .ok () → d.Clear folder → d.Willing → Blocked d folder →
    ∃ e m, outcome = ⟨.error e, lines [endedText kind t.last]⟩ ∧
      log' = log ++ [Record.marker kind m t.last]

theorem Ended.of_undone (h : d.Logs folder log) (hn : d.Within folder n) (e : Error)
    (hnot : ∀ t, Ticket.load d folder = .ok t → t.isOpen = true → unresolved log t.last = true →
      settings.validate = .ok () → ¬ d.Clear folder) :
    Ended d folder n settings log kind ⟨.error e, ""⟩ d log := by
  refine ⟨h, hn.mono (Nat.le_succ n), ?_, fun t ht hopen hu hv hclear _ _ =>
    absurd hclear (hnot t ht hopen hu hv)⟩
  rintro _ ⟨⟩
  exact ⟨rfl, .undone e⟩

theorem Stepped.finish {answer : Except Error Unit} {d₁ : Disk}
    (h : Stepped d folder n settings log kind t.last answer d₁ log')
    (hl : d.locate folder = .ok loc) (ht : Ticket.load d folder = .ok t) (hopen : t.isOpen = true) :
    ∃ outcome d', finishTxn folder t.last (endedText kind t.last) (unknownText kind t.last)
        (⟨answer, ""⟩, d₁) = (outcome, d') ∧
      Ended d folder n settings log kind outcome d' log' := by
  obtain ⟨hlogs, hconcludes, hframes, hwithin, hgranted⟩ := h
  have hl₁ := hframes.locate hl
  have hload := Ticket.load_frames hl hframes
  have ht₁ := hload.trans ht
  obtain ⟨stored, d', hfinish, hskips, hstored⟩ :=
    Ticket.finish_spec hlogs.sound hl₁ ht₁ hopen
  have hafter {e : Error} (he : stored = .error e) :
      Ticket.StoreError e ∧ Ticket.load d' folder = Ticket.load d folder := by
    obtain ⟨hstore, hsame⟩ := hstored e he
    exact ⟨hstore, hsame.trans hload⟩
  cases hconcludes with
  | marked hu m =>
    refine ⟨⟨stored, lines [endedText kind t.last]⟩, d', by simp only [finishTxn, hfinish],
      hlogs.skips hskips, hlogs.within_skips hskips hwithin, ?_, ?_⟩
    · rintro e rfl
      obtain ⟨hstore, hsame⟩ := hafter rfl
      exact ⟨hsame, .marked ht hopen hu hstore m⟩
    · rintro t' ht' - - - - - ⟨loc', hl', hblocked⟩
      obtain rfl := Except.ok.inj (ht.symm.trans ht')
      obtain rfl := Except.ok.inj (hl.symm.trans hl')
      have hscratch := hframes.untouched loc (loc.enter Ticket.scratchName) hl fun _ hs =>
        Ticket.enter_ne_enter (Ticket.ne_of_named hs).2.symm
      rw [← hscratch.node] at hblocked
      obtain ⟨e, he⟩ := Ticket.finish_of_blocked hl₁ ht₁ hopen hblocked
      rw [hfinish] at he
      cases he
      exact ⟨e, m, rfl, rfl⟩
  | unknown hu =>
    refine ⟨⟨stored, lines [unknownText kind t.last]⟩, d', by simp only [finishTxn, hfinish],
      hlogs.skips hskips, hlogs.within_skips hskips hwithin, ?_, ?_⟩
    · rintro e rfl
      obtain ⟨hstore, hsame⟩ := hafter rfl
      exact ⟨hsame, .unknown ht hopen hu hstore⟩
    · intro t' ht' _ hu'
      obtain rfl := Except.ok.inj (ht.symm.trans ht')
      rw [hu] at hu'
      cases hu'
  | refused e he =>
    refine ⟨⟨.error e, ""⟩, d₁, ?_, hlogs, hwithin, ?_, ?_⟩
    · cases e with
      | notActive other => exact absurd rfl (he other)
      | _ => rfl
    · rintro _ ⟨⟩
      exact ⟨hload, .undone e⟩
    · intro t' ht' _ hu hv hclear hwilling _
      obtain rfl := Except.ok.inj (ht.symm.trans ht')
      cases hgranted hv hclear hwilling hu

section Folder

variable (h : d.Logs folder log) (hf : settings.folder = folder) (hn : d.Within folder n)
  (hpos : 1 ≤ n) (hlt : n + 1 < 2 ^ 64)
include h hf hn hpos hlt

theorem runCommand_of_ending (hc : c.ending? = some kind) :
    ∃ outcome d' log', runCommand d folder settings c = (outcome, d') ∧
      Ended d folder n settings log kind outcome d' log' := by
  obtain ⟨loc, hl⟩ := h.located
  by_cases hopen : ∃ t, Ticket.load d folder = .ok t ∧ t.isOpen = true
  · obtain ⟨t, ht, hopen⟩ := hopen
    cases c with
    | commit =>
      cases hc
      obtain ⟨answer, d₁, log', hwith, hstepped⟩ :=
        withLog_of_endsTxn h hf hn hpos hlt (endsTxn_commit folder log t.last)
      obtain ⟨outcome, d', hfinish, hended⟩ := hstepped.finish hl ht hopen
      exact ⟨outcome, d', log', by rw [commit_of_open ht hopen, hwith]; exact hfinish, hended⟩
    | abort =>
      cases hc
      obtain ⟨answer, d₁, log', hwith, hstepped⟩ :=
        withLog_of_endsTxn h hf hn hpos hlt (endsTxn_abort folder log t.last)
      obtain ⟨outcome, d', hfinish, hended⟩ := hstepped.finish hl ht hopen
      exact ⟨outcome, d', log', by rw [abort_of_open ht hopen, hwith]; exact hfinish, hended⟩
    | _ => cases hc
  · have hclosed (t : Ticket) (ht : Ticket.load d folder = .ok t) : t.isOpen = false := by
      simpa using fun ho => hopen ⟨t, ht, ho⟩
    have hneeds : c.ending?.isSome ∨ ∃ key value, c = .txWrite key value := .inl (by rw [hc]; rfl)
    obtain ⟨e, hrun⟩ := runCommand_of_closed hclosed hneeds
    exact ⟨_, d, log, hrun, .of_undone h hn e fun t ht ho => absurd ⟨t, ht, ho⟩ hopen⟩

end Folder

/-! ## Every command -/

section Stays

variable {l : Log} {D B : List Record} (h : l.Stands d folder D B)
include h

theorem stays_write (hle : l.currentSegment.toNat ≤ n) (hlt : n + 1 < 2 ^ 64) (txn : UInt64)
    (key value : Octets) : Stays folder n (l.write d txn key value).2 := by
  have hfollows := l.follows_add d (Record.write l.nextSequence txn key value) (txn == 0)
  obtain ⟨refusal, S, T, -, hmirrors, -⟩ :=
    h.write txn key value (hfollows.not_lt (by omega))
  exact ⟨S, T, hmirrors.stands, hfollows.toNat_le.trans (by omega)⟩

theorem stays_sync (hle : l.currentSegment.toNat ≤ n + 1) : Stays folder n (l.sync d).2 := by
  obtain ⟨refusal, S, T, -, hmirrors, -⟩ := h.sync
  exact ⟨S, T, hmirrors.stands, by rw [Log.currentSegment_sync]; exact hle⟩

theorem stays_readAll (hle : l.currentSegment.toNat ≤ n) : Stays folder n (l.readAll d).2 := by
  obtain ⟨refusal, S, T, -, hmirrors, -⟩ := h.readAll
  exact ⟨S, T, hmirrors.stands, by rw [Log.currentSegment_readAll]; omega⟩

theorem stays_writeAction (hle : l.currentSegment.toNat ≤ n) (hlt : n + 1 < 2 ^ 64)
    (key value : String) : Stays folder n (writeAction key value l d).2 := by
  have hstays := stays_write h hle hlt 0 (Text.toOctets key) (Text.toOctets value)
  unfold writeAction
  rcases hw : l.write d 0 (Text.toOctets key) (Text.toOctets value) with ⟨answer, l', d'⟩
  rw [hw] at hstays
  cases answer <;> exact hstays

theorem stays_txWriteAction (hle : l.currentSegment.toNat ≤ n) (hlt : n + 1 < 2 ^ 64)
    (txn : UInt64) (key value : String) :
    Stays folder n (txWriteAction txn key value l d).2 := by
  have hstays := stays_write h hle hlt txn (Text.toOctets key) (Text.toOctets value)
  unfold txWriteAction
  rcases hw : l.write d txn (Text.toOctets key) (Text.toOctets value) with ⟨answer, l', d'⟩
  rw [hw] at hstays
  cases answer with
  | error e => exact hstays
  | ok m =>
    obtain ⟨S, T, hstands, hle'⟩ := hstays
    have hsynced := stays_sync hstands hle'
    dsimp only at hsynced ⊢
    rcases hs : l'.sync d' with ⟨answer, l'', d''⟩
    rw [hs] at hsynced
    cases answer <;> exact hsynced

theorem stays_readAction (hle : l.currentSegment.toNat ≤ n) :
    Stays folder n (readAction l d).2 := by
  have hstays := stays_readAll h hle
  unfold readAction
  rcases hr : l.readAll d with ⟨answer, l', d'⟩
  rw [hr] at hstays
  cases answer <;> exact hstays

theorem stays_beginAction (hle : l.currentSegment.toNat ≤ n) :
    Stays folder n (beginAction folder l d).2 := by
  obtain ⟨loc, hl⟩ := h.logs.located
  have hskips := Ticket.begin_skips h.logs.sound hl l.nextTxn
  unfold beginAction
  rcases hb : Ticket.begin d folder l.nextTxn with ⟨answer, d'⟩
  rw [hb] at hskips
  cases answer <;> exact ⟨D, B, h.skips hskips, Nat.le_succ_of_le hle⟩

theorem stays_statusAction (hle : l.currentSegment.toNat ≤ n) :
    Stays folder n (statusAction folder l d).2 := by
  unfold statusAction
  cases Ticket.current d folder <;> exact ⟨D, B, h, Nat.le_succ_of_le hle⟩

end Stays

/-- Every command leaves a folder that holds records, whatever it is refused. -/
theorem runCommand_logs (h : d.Logs folder log) (hf : settings.folder = folder)
    (hn : d.Within folder n) (hpos : 1 ≤ n) (hlt : n + 1 < 2 ^ 64) (c : Command) :
    ∃ log', (runCommand d folder settings c).2.Logs folder log' ∧
      (runCommand d folder settings c).2.Within folder (n + 1) := by
  have hending {kind : Kind} (hc : c.ending? = some kind) :
      ∃ log', (runCommand d folder settings c).2.Logs folder log' ∧
        (runCommand d folder settings c).2.Within folder (n + 1) := by
    obtain ⟨outcome, d', log', hrun, hended⟩ := runCommand_of_ending h hf hn hpos hlt hc
    rw [hrun]
    exact ⟨log', hended.logs, hended.within⟩
  cases c with
  | write key value =>
    exact withLog_logs h hf hn hpos fun l d hs hle => stays_writeAction hs hle hlt key value
  | read => exact withLog_logs h hf hn hpos fun l d hs hle => stays_readAction hs hle
  | status => exact withLog_logs h hf hn hpos fun l d hs hle => stays_statusAction hs hle
  | beginTx =>
    have hlogs := withLog_logs h hf hn hpos fun l d hs hle => stays_beginAction hs hle
    unfold runCommand
    dsimp only
    rcases hw : withLog d settings (beginAction folder) with ⟨⟨answer, output⟩, d'⟩
    rw [hw] at hlogs
    cases answer <;> exact hlogs
  | txWrite key value =>
    unfold runCommand
    dsimp only
    cases openTxn d folder "use 'begin-tx' first" with
    | error e => exact ⟨log, h, hn.mono (Nat.le_succ n)⟩
    | ok txn =>
      exact withLog_logs h hf hn hpos fun l d hs hle => stays_txWriteAction hs hle hlt txn key value
  | commit => exact hending rfl
  | abort => exact hending rfl

/-- A read lists what the log shows, if nothing stands in its way. -/
theorem output_of_read (h : d.Logs folder log) (hf : settings.folder = folder)
    (hok : (runCommand d folder settings .read).1.answer = .ok ()) :
    (runCommand d folder settings .read).1.output = table (log.filter (shown log)) := by
  change (withLog d settings readAction).1.answer = .ok () at hok
  change (withLog d settings readAction).1.output = _
  rcases h.start hf with ⟨l, d₁, hstart, hstands, hdesk, -⟩ | ⟨e, hstart, -, -⟩
  · have hanswer := hstands.readAll_of_nil (congrArg Desk.closed hdesk)
    rcases hr : l.readAll d₁ with ⟨answer, l', d₂⟩
    rw [hr] at hanswer
    obtain rfl : answer = .ok (log.filter (shown log)) := hanswer
    simp only [withLog, hstart, readAction, hr]
  · simp only [withLog, hstart] at hok
    cases hok

/-! ## Runs -/

/-- What happens to the folder of a log: a command line is run, or others change something. -/
inductive Incident
  | line (words : List String)
  | disturb (d : Disk)

namespace Incident

def apply (d : Disk) : Incident → Disk
  | line words => (run d words).2
  | disturb d' => d'

/-- Words that ask for a command ask for it in this folder, and others leave its segments alone. -/
def Fair (folder : String) (d : Disk) : Incident → Prop
  | line words => asksIn folder d words = true
  | disturb d' => d.Skips folder d'

end Incident

def applyAll (d : Disk) (past : List Incident) : Disk := past.foldl Incident.apply d

abbrev FairAlong (folder : String) (d : Disk) (past : List Incident) : Prop :=
  SegmentLog.Along Incident.apply (fun d e => e.Fair folder d) d past

theorem logs_apply (h : d.Logs folder log) (hn : d.Within folder n) (hpos : 1 ≤ n)
    (hlt : n + 1 < 2 ^ 64) {e : Incident} (he : e.Fair folder d) :
    ∃ log', (e.apply d).Logs folder log' ∧ (e.apply d).Within folder (n + 1) := by
  cases e with
  | disturb d' => exact ⟨log, h.skips he, (h.within_skips he hn).mono (Nat.le_succ n)⟩
  | line words =>
    show ∃ log', (run d words).2.Logs folder log' ∧ (run d words).2.Within folder (n + 1)
    cases hp : parse words with
    | error stop =>
      have hrun : run d words = (stop.result, d) := by rw [run, hp]
      rw [hrun]
      exact ⟨log, h, hn.mono (Nat.le_succ n)⟩
    | ok i =>
      rw [run_of_asksIn hp he]
      exact runCommand_logs h rfl hn hpos hlt i.command

/-- Whatever is run in a folder and refused there, the folder holds records, undamaged. -/
theorem logs_applyAll {past : List Incident} (h : d.Logs folder log) (hn : d.Within folder n)
    (hpos : 1 ≤ n) (hroom : n + past.length < 2 ^ 64) (hfair : FairAlong folder d past) :
    ∃ log', (applyAll d past).Logs folder log' ∧
      (applyAll d past).Within folder (n + past.length) := by
  induction past generalizing d log n with
  | nil => exact ⟨log, h, hn⟩
  | cons e rest ih =>
    obtain ⟨he, hrest⟩ := hfair
    rw [List.length_cons] at hroom ⊢
    obtain ⟨log₁, hlogs, hwithin⟩ := logs_apply h hn hpos (by omega) he
    obtain ⟨log', hlogs', hwithin'⟩ := ih hlogs hwithin (by omega) (by omega) hrest
    exact ⟨log', hlogs', hwithin'.mono (by omega)⟩

/-! ## Commits and aborts that fail -/

/-- Every read that is granted in a folder lists these records. -/
def ReadsList (d : Disk) (folder : String) (rs : List Record) : Prop :=
  ∀ words, command? words = some .read → asksIn folder d words = true →
    (run d words).1.exit = 0 → (run d words).1.output = table rs

theorem readsList (h : d.Logs folder log) : ReadsList d folder (log.filter (shown log)) := by
  intro words hc hasks hexit
  unfold command? at hc
  cases hp : parse words with
  | error stop =>
    rw [hp] at hc
    cases hc
  | ok i =>
    rw [hp] at hc
    rw [run_of_asksIn hp hasks] at hexit ⊢
    rw [Option.some.inj hc] at hexit ⊢
    have hfolder : (i.options.toSettings folder).folder = folder := rfl
    have hread := output_of_read h hfolder
    rcases hrun : runCommand d folder (i.options.toSettings folder) .read with ⟨⟨answer, output⟩, d'⟩
    rw [hrun] at hread hexit
    cases answer with
    | error e => cases hexit
    | ok _ => exact hread rfl

theorem Fails.eq_of_not_storeError {ticket : Except Error Ticket} {outcome : Outcome}
    (h : Fails log ticket kind outcome log')
    (he : ∀ e, outcome.result.error = some e → ¬ Ticket.StoreError e) : log' = log := by
  cases h with
  | undone => rfl
  | unknown => rfl
  | marked ht hopen hu hstore => exact absurd hstore (he _ rfl)

theorem Fails.others {ticket : Except Error Ticket} {outcome : Outcome}
    (h : Fails log ticket kind outcome log') (hne : ∀ t, ticket = .ok t → t.last ≠ txn) :
    outcome? log' txn = outcome? log txn ∧ unresolved log' txn = unresolved log txn := by
  cases h with
  | undone => exact ⟨rfl, rfl⟩
  | unknown => exact ⟨rfl, rfl⟩
  | @marked t ht hopen hu e hstore n =>
    have hother : t.last ≠ txn := hne t ht
    have hdecides : (Record.marker kind n t.last).decides txn = false := by
      simp [Record.decides, Record.marker, hother]
    have hopens : (Record.marker kind n t.last).opens txn = false := by
      simp [Record.opens, Record.marker, hother]
    rw [outcome?_append, outcome?_singleton, unresolved_append, hdecides, hopens]
    exact ⟨rfl, rfl⟩

/-- Between two disks a command that ends the open transaction failed. -/
structure Failed (before after : Disk) (folder : String) (kind : Kind) (log log' : List Record)
    (result : Result) : Prop where
  ticket : Ticket.load after folder = Ticket.load before folder
  fails : ∃ outcome : Outcome, result = outcome.result ∧
    Fails log (Ticket.load before folder) kind outcome log'
  /-- Nothing was done unless the ticket could not be stored. -/
  unchanged : (∀ e, result.error = some e → ¬ Ticket.StoreError e) → log' = log
  others : ∀ txn, (∀ t, Ticket.load before folder = .ok t → t.last ≠ txn) →
    outcome? log' txn = outcome? log txn ∧ unresolved log' txn = unresolved log txn

/-- A commit or an abort, after any command lines, where others changed anything but the segments.
If it fails it did nothing, or it failed because the ticket could not be stored behind the marker:
then the log has the marker, what it printed says so, and the ticket still calls the transaction
open. So it is whenever a folder or a full device stands in the place of the scratch file while
nothing stands in the way of the log. No segment number is at its limit. -/
theorem ending_fails {vs : List Volume} {past : List Incident} (h : d.Holds folder vs)
    (hi : Intact vs) (hn : d.Within folder n) (hpos : 1 ≤ n)
    (hroom : n + past.length + 1 < 2 ^ 64) (hfair : FairAlong folder d past)
    (hp : parse words = .ok i) (hk : i.command.ending? = some kind)
    (hasks : asksIn folder (applyAll d past) words = true) :
    let before := applyAll d past
    let result := (run before words).1
    let after := (run before words).2
    ∃ log log', (Log.recordsOf before folder = .ok log ∧
        ReadsList before folder (log.filter (shown log))) ∧
      (Log.recordsOf after folder = .ok log' ∧
        ReadsList after folder (log'.filter (shown log'))) ∧
      (result.exit ≠ 0 → Failed before after folder kind log log' result) ∧
      ∀ t, Ticket.load before folder = .ok t → t.isOpen = true → unresolved log t.last = true →
        (i.options.toSettings folder).validate = .ok () → before.Clear folder →
        before.Willing → Blocked before folder →
        result.exit = 1 ∧ result.output = lines [endedText kind t.last] ∧
          ∃ m, log' = log ++ [Record.marker kind m t.last] := by
  intro before result after
  have hlogs₀ : d.Logs folder (recordsIn vs) := ⟨vs, h, hi, rfl⟩
  obtain ⟨log, hlogs, hwithin⟩ := logs_applyAll hlogs₀ hn hpos (by omega) hfair
  have hfolder : (i.options.toSettings folder).folder = folder := rfl
  obtain ⟨outcome, d', log', hrun, hended⟩ :=
    runCommand_of_ending hlogs hfolder hwithin (by omega) hroom hk
  have hresult : result = outcome.result := by
    show (run before words).1 = _
    rw [run_of_asksIn hp hasks, hrun]
  have hafter : after = d' := by
    show (run before words).2 = _
    rw [run_of_asksIn hp hasks, hrun]
  rw [hresult, hafter]
  refine ⟨log, log', ⟨hlogs.recordsOf, readsList hlogs⟩,
    ⟨hended.logs.recordsOf, readsList hended.logs⟩, fun hexit => ?_, ?_⟩
  · obtain ⟨answer, output⟩ := outcome
    cases answer with
    | ok _ => exact absurd rfl hexit
    | error e =>
      obtain ⟨hticket, hfails⟩ := hended.failed e rfl
      exact ⟨hticket, ⟨_, rfl, hfails⟩, hfails.eq_of_not_storeError, fun _ => hfails.others⟩
  · intro t ht hopen hu hv hclear hwilling hblocked
    obtain ⟨e, m, rfl, hlog⟩ := hended.blocked t ht hopen hu hv hclear hwilling hblocked
    exact ⟨rfl, rfl, m, hlog⟩

def written : List Incident :=
  [.line ["-d", "wal", "begin-tx"], .line ["-d", "wal", "tx-write", "k", "v"]]

def obstructed : Disk :=
  (applyAll Session.emptyFolder written).link
    ((Location.top.enter "wal").enter Ticket.scratchName) .folder

/-- The commit fails, the ticket is as it was, and the log has the marker. -/
theorem ending_fails_obstructed :
    let past := written ++ [.disturb obstructed]
    let words := ["-d", "wal", "commit"]
    let i : Invocation := ⟨{ folder := some "wal" }, .commit⟩
    let after := (run obstructed words).2
    (Session.emptyFolder.Holds "/wal" [] ∧ Intact [] ∧ Session.emptyFolder.Within "/wal" 1 ∧
      1 + past.length + 1 < 2 ^ 64 ∧ FairAlong "/wal" Session.emptyFolder past ∧
      parse words = .ok i ∧ i.command.ending? = some .txnCommit ∧
      asksIn "/wal" (applyAll Session.emptyFolder past) words = true) ∧
    (run obstructed words).1.exit = 1 ∧ Ticket.load after "/wal" = .ok ⟨true, 1⟩ ∧
    ∃ m, Log.recordsOf after "/wal" =
      .ok ([Record.write 1 1 [107] [118]] ++ [Record.marker .txnCommit m 1]) := by
  intro past words i after
  have hsound : Session.emptyFolder.Sound :=
    ⟨by decide +kernel, by decide +kernel, by decide +kernel, by decide +kernel⟩
  have hl : Session.emptyFolder.locate "/wal" = .ok (Location.top.enter "wal") := by decide +kernel
  have hgrants : Session.emptyFolder.Grants := fun _ => rfl
  have hvacant (name : String) :
      Session.emptyFolder.node? ((Location.top.enter "wal").enter name) = none := by
    have hne : (Location.top.enter "wal").enter name ≠ Location.top.enter "wal" := by simp
    simp [Disk.node?, Session.emptyFolder, List.lookup_cons, beq_false_of_ne hne]
  have hholds := holds_of_vacant hsound hgrants (by decide) hl hvacant
  have hwithin : Session.emptyFolder.Within "/wal" 1 := hholds.within_iff.mpr (by simp)
  -- the folder takes the place of the scratch file, which is free behind a command
  have hasksAll : ∀ line ∈ [["-d", "wal", "begin-tx"], ["-d", "wal", "tx-write", "k", "v"]],
      asksIn "/wal" Session.emptyFolder line = true := by decide +kernel
  have hvacantRoom : "/wal".utf8ByteSize + 25 < Disk.pathLimit := by decide +kernel
  have hspare := spare_of_length hsound hgrants (by decide) hl hvacantRoom hvacant
    (by decide) hasksAll
  obtain ⟨_, _, hwritten, -⟩ := (stands_of_vacant hsound hgrants (by decide) hl hvacantRoom
    hvacant).runAll accounts_nil hspare hasksAll
  have hlocated : (applyAll Session.emptyFolder written).locate "/wal" =
      .ok (Location.top.enter "wal") := by decide +kernel
  obtain ⟨hskips, hclear, hl', hscratch⟩ :=
    Ticket.link_scratch hwritten.logs.sound hlocated (rfl : Node.folder.body? = none) (by decide +kernel)
  have hfair : FairAlong "/wal" Session.emptyFolder past := by
    refine ⟨?_, ?_, hskips, trivial⟩ <;> simp only [Incident.Fair] <;> decide +kernel
  have hp : parse words = .ok i := by decide +kernel
  have hasks : asksIn "/wal" obstructed words = true := by decide +kernel
  have hroom : 1 + past.length + 1 < 2 ^ 64 := by decide
  obtain ⟨log, log', ⟨hlog, -⟩, ⟨hlog', -⟩, hfailed, hblocked⟩ :=
    ending_fails hholds intact_nil hwithin (Nat.le_refl 1) hroom hfair hp rfl hasks
  have hload : Ticket.load obstructed "/wal" = .ok ⟨true, 1⟩ := by decide +kernel
  have hfound : Log.recordsOf obstructed "/wal" = .ok [Record.write 1 1 [107] [118]] := by
    decide +kernel
  obtain rfl := Except.ok.inj (hfound.symm.trans hlog)
  obtain ⟨hexit, -, m, rfl⟩ := hblocked _ hload rfl (by decide) rfl
    (hclear hwritten.clear) hwritten.willing ⟨_, hl', .inl hscratch⟩
  have hticket := (hfailed (by rw [hexit]; decide)).ticket
  exact ⟨⟨hholds, intact_nil, hwithin, hroom, hfair, hp, rfl, hasks⟩, hexit, hticket.trans hload,
    m, hlog'⟩

/-- The disk once nothing stands in the place of the scratch file. -/
def freed (d : Disk) : Disk := d.unlink ((Location.top.enter "wal").enter Ticket.scratchName)

/-- The commit fails, and yet a read lists the write. What the transaction writes next is listed
without another commit, and a second commit right away says that nothing was written. An abort fails
just so, and a later commit of what is still the same transaction lists the write that was
aborted. -/
theorem listed_after_failed_ending :
    let read := ["-d", "wal", "read"]
    let write := ["-d", "wal", "tx-write", "x", "y"]
    let commit := ["-d", "wal", "commit"]
    let abort := ["-d", "wal", "abort"]
    let committed := (run obstructed commit).2
    let aborted := (run obstructed abort).2
    let both := [Record.write 1 1 [107] [118], Record.write 3 1 [120] [121]]
    (run obstructed read).1.output = table [] ∧
    ((run obstructed commit).1.exit = 1 ∧
      (run committed read).1.output = table [Record.write 1 1 [107] [118]] ∧
      (run (run (freed committed) write).2 read).1.output = table both ∧
      (run (freed committed) commit).1.output = lines [unknownText .txnCommit 1]) ∧
    (run obstructed abort).1.exit = 1 ∧ (run aborted read).1.output = table [] ∧
    (run (run (run (freed aborted) write).2 commit).2 read).1.output = table both := by
  decide +kernel

end SegmentLog.Shell
