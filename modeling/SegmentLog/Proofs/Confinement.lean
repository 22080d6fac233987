import SegmentLog.Proofs.Mirroring

/-!
A log keeps to itself. Whatever an appender does, granted or refused, changes no node and no file
outside the segments of its folder (`Disk.Frames`), because the file it holds open is that of a
segment and every file it opens is too (`Appender.Confined`). So other files in the folder of a log
are safe from it, and paths lead where they led.
-/

namespace SegmentLog

namespace Disk

variable {d d' : Disk} {folder : String} {loc : Location} {s : Segment} {n : Node}

/-! ## Changes that keep to the segments of a folder -/

/-- Folders stay and relative paths start where they did. -/
structure Leads (d d' : Disk) : Prop where
  here : d'.here = d.here
  folders : ∀ l, d.node? l = some .folder → d'.node? l = some .folder

theorem Leads.refl (d : Disk) : d.Leads d := ⟨rfl, fun _ h => h⟩

theorem Leads.trans {d'' : Disk} (h : d.Leads d') (h' : d'.Leads d'') : d.Leads d'' :=
  ⟨h'.here.trans h.here, fun l hl => h'.folders l (h.folders l hl)⟩

theorem Leads.locate (h : d.Leads d') (hl : d.locate folder = .ok loc) :
    d'.locate folder = .ok loc :=
  locate_mono h.here h.folders hl

theorem Leads.resolve (h : d.Leads d') {given : String} (hr : d.resolve given = .ok folder) :
    d'.resolve given = .ok folder := by
  have hstart : d'.start given = d.start given := by simp only [start, h.here]
  unfold Disk.resolve at hr ⊢
  cases hl : d.locate given with
  | error f =>
    rw [hl] at hr
    cases hr
  | ok loc =>
    rw [hl] at hr
    rw [h.locate hl, hstart]
    exact hr

/-- Only segments of a folder change: their files stay theirs, what stands elsewhere is untouched, and
what is refused stays refused. -/
structure Frames (folder : String) (d d' : Disk) : Prop extends d.Leads d' where
  sound : d'.Sound
  refusals : d'.refusals = d.refusals
  bodies : ∀ s body, d.bodyOf? folder s = some body → d'.bodyOf? folder s = some body
  untouched : ∀ loc l, d.locate folder = .ok loc →
    (∀ s : Segment, s.Named → l ≠ loc.enter s.name) → d.Untouched d' l

theorem Frames.refl (hs : d.Sound) : Frames folder d d :=
  ⟨Leads.refl d, hs, rfl, fun _ _ h => h, fun _ l _ _ => Untouched.refl d l⟩

theorem Frames.trans {d'' : Disk} (h : Frames folder d d') (h' : Frames folder d' d'') :
    Frames folder d d'' :=
  ⟨h.toLeads.trans h'.toLeads, h'.sound, h'.refusals.trans h.refusals,
    fun s body hb => h'.bodies s body (h.bodies s body hb),
    fun loc l hl hne =>
      (h.untouched loc l hl hne).trans (h'.untouched loc l (h.locate hl) hne)⟩

theorem frames_setBody (hs : d.Sound) (hn : s.Named) {body : Nat}
    (hb : d.bodyOf? folder s = some body) (new : Body) : Frames folder d (d.setBody body new) := by
  refine ⟨⟨rfl, fun _ h => h⟩, hs.setBody body new, rfl, fun t other ht => by simpa using ht, ?_⟩
  intro loc l hl hne
  exact untouched_setBody hs hl hb new (hne s hn)

theorem frames_create (hs : d.Sound) (hn : s.Named) (hl : d.locate folder = .ok loc)
    (hsp : Speakable folder s) (hnone : d.node? (loc.enter s.name) = none) :
    Frames folder d (d.create (loc.enter s.name)) := by
  have hother {l : Location} {n : Node} (h : d.node? l = some n) : l ≠ loc.enter s.name := by
    rintro rfl
    rw [hnone] at h
    cases h
  refine ⟨⟨rfl, ?_⟩, hs.create hsp.2, rfl, ?_, ?_⟩
  · intro l h
    rw [node?_create_of_ne d (hother h), h]
  · intro t body ht
    have hnode := ((bodyOf?_eq_some hl).mp ht).2
    have hne : t.name ≠ s.name := fun he => hother hnode (by rw [he])
    rw [bodyOf?_create_of_ne hl hnone hne, ht]
  · intro loc' l hl' hne
    obtain rfl : loc = loc' := Except.ok.inj (hl.symm.trans hl')
    exact untouched_create hs (hne s hn)

/-! ## Files held open -/

/-- An open file is that of a segment of a folder, or a full device. -/
inductive Handle (d : Disk) (folder : String) : Node → Prop
  | full : Handle d folder .full
  | file {s : Segment} {body : Nat} (hn : s.Named) (hb : d.bodyOf? folder s = some body) :
    Handle d folder (.file body)

theorem Handle.frames (h : d.Handle folder n) (hd : Frames folder d d') : d'.Handle folder n := by
  cases h with
  | full => exact .full
  | file hn hb => exact .file hn (hd.bodies _ _ hb)

theorem Handle.append (h : d.Handle folder n) (hs : d.Sound) (bs : Octets) :
    Frames folder d (d.append n bs).2 := by
  cases h with
  | full => exact Frames.refl hs
  | @file s body hn hb =>
    rcases append_file d body bs with happend | ⟨_, _, -, -, happend⟩
    all_goals
      rw [happend]
      exact frames_setBody hs hn hb _

theorem Handle.resize (h : d.Handle folder n) (hs : d.Sound) {length : Nat}
    (hr : d.resize n length = .ok d') : Frames folder d d' := by
  cases h with
  | full =>
    simp only [Disk.resize] at hr
    split at hr <;> cases hr
  | file hn hb =>
    rw [eq_of_resize hr]
    exact frames_setBody hs hn hb _

/-- Opening a segment for writing changes no other place, and what is opened can be held. -/
theorem frames_openWrite (hs : d.Sound) (hn : s.Named)
    (ho : d.openWrite (s.place folder) = .ok (n, d')) :
    Frames folder d d' ∧ d'.Handle folder n := by
  cases hb : d.bodyOf? folder s with
  | some body =>
    obtain ⟨rfl, rfl⟩ := eq_of_openWrite hb ho
    exact ⟨Frames.refl hs, .file hn hb⟩
  | none =>
    rcases openWrite_cases hb with ⟨f, hf⟩ | hf | ⟨loc, hl, hsp, hnone, hf⟩
    · rw [hf] at ho
      cases ho
    · rw [hf] at ho
      cases ho
      exact ⟨Frames.refl hs, .full⟩
    · rw [hf] at ho
      cases ho
      exact ⟨frames_create hs hn hl hsp hnone, .file hn (bodyOf?_create_self hl hnone hsp)⟩

end Disk

/-! ## Appenders -/

namespace Appender

variable {a b : Appender} {d d' : Disk} {vs : List Volume} {n : Node}

/-- The active segment has the name of a segment, and an open file is held. -/
structure Held (a : Appender) (d : Disk) : Prop where
  sound : d.Sound
  named : a.active.Named
  file : ∀ n, a.file = some n → d.Handle a.folder n

theorem Tracks.held (h : Tracks a d vs) : a.Held d := by
  cases h with
  | @on front settled h =>
    have hnamed := h.holds.named (v := ⟨a.active, settled⟩) (by simp)
    refine ⟨h.holds.sound, hnamed, fun n hn => ?_⟩
    obtain ⟨body, rfl, hb⟩ := h.file n hn
    exact .file hnamed hb
  | off h =>
    refine ⟨h.holds.sound, ?_, fun n hn => ?_⟩
    · rw [h.active]
      exact Segment.named_ofId _
    · rw [h.file n hn]
      exact .full

/-- From one appender to another nothing changed on disk but segments of their folder. -/
structure Confined (a : Appender) (d : Disk) (b : Appender) (d' : Disk) : Prop where
  folder : b.folder = a.folder
  frames : d.Frames a.folder d'
  held : b.Held d'

theorem Confined.trans {c : Appender} {d'' : Disk} (h : Confined a d b d')
    (h' : Confined b d' c d'') : Confined a d c d'' :=
  ⟨h'.folder.trans h.folder, h.frames.trans (h.folder ▸ h'.frames), h'.held⟩

/-- What an appender notes in its buffer is no matter of the disk. -/
theorem Held.of_same (h : a.Held d) (hactive : b.active = a.active) (hfolder : b.folder = a.folder)
    (hfile : ∀ n, b.file = some n → d.Handle a.folder n) : b.Held d :=
  ⟨h.sound, hactive ▸ h.named, fun n hn => hfolder ▸ hfile n hn⟩

theorem Held.confined (h : a.Held d) : Confined a d a d := ⟨rfl, .refl h.sound, h⟩

theorem Held.drop_file (h : a.Held d) : Held { a with file := none } d :=
  h.of_same rfl rfl nofun

theorem Held.frames (h : a.Held d) (hd : d.Frames a.folder d') : a.Held d' :=
  ⟨hd.sound, h.named, fun n hn => (h.file n hn).frames hd⟩

theorem Held.writeOut (h : a.Held d) (hn : d.Handle a.folder n) :
    Confined a d (a.writeOut d n).2.1 (a.writeOut d n).2.2 := by
  have hframes := hn.append h.sound a.buffer
  have hheld := h.frames hframes
  unfold Appender.writeOut
  rcases ha : d.append n a.buffer with ⟨answer, d₁⟩
  rw [ha] at hframes hheld
  cases answer with
  | error f => exact ⟨rfl, hframes, hheld.drop_file⟩
  | ok _ =>
    dsimp only
    split
    · exact ⟨rfl, hframes, hheld.drop_file⟩
    · refine ⟨rfl, hframes, hheld.of_same rfl rfl ?_⟩
      rintro _ ⟨⟩
      exact hn.frames hframes

theorem Held.reopen (h : a.Held d) :
    d.Frames a.folder (a.reopen d).2 ∧
      ∀ n, (a.reopen d).1 = .ok n → (a.reopen d).2.Handle a.folder n := by
  unfold Appender.reopen openSegment
  cases ho : d.openWrite (a.active.place a.folder) with
  | error f => exact ⟨.refl h.sound, nofun⟩
  | ok opened =>
    obtain ⟨n, d₁⟩ := opened
    obtain ⟨hframes, hhandle⟩ := Disk.frames_openWrite h.sound h.named ho
    dsimp only
    cases hr : d₁.resize n a.settled with
    | error f => exact ⟨hframes, nofun⟩
    | ok d₂ =>
      have hcut := hhandle.resize hframes.sound hr
      refine ⟨hframes.trans hcut, ?_⟩
      rintro _ ⟨⟩
      exact hhandle.frames hcut

theorem Held.flush (h : a.Held d) : Confined a d (a.flush d).2.1 (a.flush d).2.2 := by
  unfold Appender.flush
  split
  · exact h.confined
  · split
    · rename_i n hn
      exact h.writeOut (h.file n hn)
    · obtain ⟨hframes, hhandle⟩ := h.reopen
      rcases hr : a.reopen d with ⟨answer, d₁⟩
      rw [hr] at hframes hhandle
      cases answer with
      | error e => exact ⟨rfl, hframes, h.frames hframes⟩
      | ok n =>
        have hback : Confined a d a d₁ := ⟨rfl, hframes, h.frames hframes⟩
        exact hback.trans ((h.frames hframes).writeOut (hhandle n rfl))

theorem Held.rotate (h : a.Held d) : Confined a d (a.rotate d).2.1 (a.rotate d).2.2 := by
  have hflush := h.flush
  unfold Appender.rotate openSegment
  rcases hf : a.flush d with ⟨answer, a₁, d₁⟩
  rw [hf] at hflush
  cases answer with
  | error e => exact hflush
  | ok _ =>
    dsimp only
    cases ho : d₁.openWrite ((Segment.ofId (a₁.active.id + 1)).place a₁.folder) with
    | error f => exact hflush.trans ⟨rfl, .refl hflush.held.sound, hflush.held.drop_file⟩
    | ok opened =>
      obtain ⟨n, d₂⟩ := opened
      have hnamed := Segment.named_ofId (a₁.active.id + 1)
      obtain ⟨hframes, hhandle⟩ := Disk.frames_openWrite hflush.held.sound hnamed ho
      refine hflush.trans ⟨rfl, hframes, hframes.sound, hnamed, ?_⟩
      rintro _ ⟨⟩
      exact hhandle

theorem Held.makeRoom (h : a.Held d) (length : Nat) :
    Confined a d (a.makeRoom d length).2.1 (a.makeRoom d length).2.2 := by
  unfold Appender.makeRoom
  split
  · exact h.rotate
  · exact h.confined

theorem Held.enqueue (h : a.Held d) (bs : Octets) (force : Bool) :
    Confined a d (a.enqueue d bs force).2.1 (a.enqueue d bs force).2.2 := by
  have hgrown : Held { a with buffer := a.buffer ++ bs, offset := a.offset + bs.length } d :=
    h.of_same rfl rfl h.file
  have hflush := hgrown.flush
  unfold Appender.enqueue
  dsimp only
  split
  · rcases hf : Appender.flush { a with
        buffer := a.buffer ++ bs, offset := a.offset + bs.length } d with ⟨answer, b, d₁⟩
    rw [hf] at hflush
    obtain ⟨hfolder, hframes, hheld⟩ := hflush
    cases answer with
    | error e => exact ⟨hfolder, hframes, hheld.of_same rfl rfl hheld.file⟩
    | ok _ => exact ⟨hfolder, hframes, hheld⟩
  · exact ⟨rfl, .refl h.sound, hgrown⟩

theorem Held.append (h : a.Held d) (r : Record) (force : Bool) :
    Confined a d (a.append d r force).2.1 (a.append d r force).2.2 := by
  unfold Appender.append
  split
  · exact h.confined
  · rename_i bs _
    split
    · exact h.confined
    · have hroom := h.makeRoom bs.length
      rcases hm : a.makeRoom d bs.length with ⟨answer, a₁, d₁⟩
      rw [hm] at hroom
      cases answer with
      | error e => exact hroom
      | ok _ =>
        have hput := hroom.held.enqueue bs force
        dsimp only
        rcases he : a₁.enqueue d₁ bs force with ⟨answer', a₂, d₂⟩
        rw [he] at hput
        cases answer' <;> exact hroom.trans hput

theorem Held.letGo (h : a.Held d) : Confined a d (a.letGo d).2.1 (a.letGo d).2.2 := by
  unfold Appender.letGo
  split
  · exact h.confined
  · split <;> exact ⟨rfl, .refl h.sound, h.drop_file⟩

theorem Held.close (h : a.Held d) : Confined a d (a.close d).2.1 (a.close d).2.2 := by
  unfold Appender.close
  split
  · exact h.confined
  · have hclosed : Held { a with closed := true } d := h.of_same rfl rfl h.file
    have hfirst := hclosed.flush
    rcases hf : Appender.flush { a with closed := true } d with ⟨answer, a₁, d₁⟩
    rw [hf] at hfirst
    have htick : Confined a d a₁ d₁ := ⟨hfirst.folder, hfirst.frames, hfirst.held⟩
    have hsecond := htick.held.flush
    dsimp only
    rcases hs : a₁.flush d₁ with ⟨answer', a₂, d₂⟩
    rw [hs] at hsecond
    have hflushed := htick.trans hsecond
    cases answer' with
    | error e => exact hflushed
    | ok _ => exact hflushed.trans hflushed.held.letGo

/-- An opening creates the first segment at most. -/
theorem confined_start {settings : Settings} (h : d.Holds settings.folder vs) {d₁ : Disk}
    (hs : Appender.start d settings = (.ok a, d₁)) :
    a.folder = settings.folder ∧ d.Frames settings.folder d₁ ∧ a.Held d₁ := by
  obtain ⟨loc, hl⟩ := h.located
  have hnamed : (lastOf (vs.map (·.segment))).Named := by
    rcases List.eq_nil_or_concat vs with rfl | ⟨front, v, rfl⟩
    · exact Segment.named_ofId _
    · rw [List.concat_eq_append, lastOf_append]
      exact h.named (by simp)
  simp only [Appender.start, Disk.makeFolders_of_locate hl, h.list, openSegment] at hs
  cases ho : d.openWrite ((lastOf (vs.map (·.segment))).place settings.folder) with
  | error f =>
    rw [ho] at hs
    cases hs
  | ok opened =>
    obtain ⟨n, d₂⟩ := opened
    rw [ho] at hs
    cases hs
    obtain ⟨hframes, hhandle⟩ := Disk.frames_openWrite h.sound hnamed ho
    refine ⟨rfl, hframes, hframes.sound, hnamed, ?_⟩
    rintro _ ⟨⟩
    exact hhandle

end Appender

/-! ## Logs -/

namespace Log

variable {l : Log} {d : Disk}

theorem confined_add (h : l.appender.Held d) (r : Record) (force : Bool) :
    l.appender.Confined d (l.add d r force).2.1.appender (l.add d r force).2.2 := by
  have happend := h.append r force
  unfold Log.add
  split
  · exact h.confined
  · rcases ha : l.appender.append d r force with ⟨answer, a, d'⟩
    rw [ha] at happend
    cases answer <;> exact happend

theorem confined_addOutcome (h : l.appender.Held d) (ts : Transactions)
    (refused granted : Transactions → Transactions) (r : Record) (force : Bool) :
    l.appender.Confined d (l.addOutcome d ts refused granted r force).2.1.appender
      (l.addOutcome d ts refused granted r force).2.2 := by
  have hadd := confined_add (l := { l with transactions := ts }) h r force
  rcases ha : Log.add { l with transactions := ts } d r force with ⟨answer, l', d'⟩
  rw [ha] at hadd
  simp only [Log.addOutcome, ha]
  cases answer <;> exact hadd

theorem confined_commit (h : l.appender.Held d) (txn : UInt64) :
    l.appender.Confined d (l.commit d txn).2.1.appender (l.commit d txn).2.2 := by
  cases hs : l.transactions.startCommit txn with
  | error e =>
    simp only [Log.commit, hs]
    exact h.confined
  | ok ts =>
    rw [commit_eq hs]
    exact confined_addOutcome h ..

theorem confined_abort (h : l.appender.Held d) (txn : UInt64) :
    l.appender.Confined d (l.abort d txn).2.1.appender (l.abort d txn).2.2 := by
  cases hs : l.transactions.takeForAbort txn with
  | error e =>
    simp only [Log.abort, hs]
    exact h.confined
  | ok taken =>
    rw [abort_eq hs]
    exact confined_addOutcome h ..

theorem confined_sync (h : l.appender.Held d) :
    l.appender.Confined d (l.sync d).2.1.appender (l.sync d).2.2 := by
  unfold Log.sync
  split
  · exact h.confined
  · exact h.flush

theorem confined_readAll (h : l.appender.Held d) :
    l.appender.Confined d (l.readAll d).2.1.appender (l.readAll d).2.2 := by
  have hflush := h.flush
  unfold Log.readAll
  split
  · exact h.confined
  · rcases hf : l.appender.flush d with ⟨answer, a, d'⟩
    rw [hf] at hflush
    cases answer with
    | error e => exact hflush
    | ok _ =>
      dsimp only
      split <;> exact hflush

theorem confined_close (h : l.appender.Held d) :
    l.appender.Confined d (l.close d).2.1.appender (l.close d).2.2 := by
  unfold Log.close
  split
  · exact h.confined
  · exact h.close

/-- Where nothing is cut an opening does no more than its appender. -/
theorem start_appender {settings : Settings} {d' : Disk} (hs : Log.start d settings = (.ok l, d'))
    (hc : l.report.cutAt = none) : Appender.start d settings = (.ok l.appender, d') := by
  unfold Log.start at hs
  split at hs
  · cases hs
  · split at hs
    · cases hs
    · rename_i a d₁ hstart
      split at hs
      · cases hs
      · split at hs
        · cases hs
        · split at hs
          · cases hs
            exact hstart
          · rename_i hcut
            split at hs
            · cases hs
            · cases hs
              cases hcut.symm.trans hc

end Log

end SegmentLog
