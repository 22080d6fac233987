import SegmentLog.Proofs.Tickets

/-!
Storing a ticket where something may stand in the way. Whatever stands at its two names, storing
leaves the segments of the folder alone (`Disk.Skips`), and if it is refused the ticket is the one
that was there before (`Ticket.store_spec`). A folder or a full device in the place of the scratch
file always refuses it (`Ticket.store_of_blocked`).
-/

namespace SegmentLog

/-! ## Looking at a place -/

namespace Disk

variable {d d' : Disk} {loc : Location}

theorem pathFault?_ne_notFound (path : String) : pathFault? path ≠ some .notFound := by
  unfold pathFault?
  split
  · decide
  · split <;> decide

/-- Looking at a place fails for its text alone, or finds the node of its location. -/
theorem look_cases {p : Place} (hl : d.locate p.folder = .ok loc) :
    (∃ f, d.look p = .error f ∧ f ≠ .notFound) ∨
      d.look p = .ok (loc.enter p.name, d.node? (loc.enter p.name)) := by
  unfold look
  rw [hl]
  cases hfault : pathFault? p.path with
  | some f =>
    refine .inl ⟨f, rfl, ?_⟩
    rintro rfl
    exact pathFault?_ne_notFound _ hfault
  | none =>
    by_cases hlong : nameLimit < p.name.utf8ByteSize
    · exact .inl ⟨.nameTooLong, by simp only [child, if_pos hlong]; rfl, by decide⟩
    · exact .inr (by simp only [child, if_neg hlong]; rfl)

theorem look_congr {p : Place} (hl : d.locate p.folder = .ok loc)
    (hl' : d'.locate p.folder = .ok loc)
    (hn : d'.node? (loc.enter p.name) = d.node? (loc.enter p.name)) : d'.look p = d.look p := by
  have hchild : d'.child loc p.name = d.child loc p.name := by
    unfold child
    rw [hn]
  unfold look
  rw [hl, hl']
  cases pathFault? p.path with
  | some f => rfl
  | none => simp only [hchild]

end Disk

namespace Ticket

variable {d d' : Disk} {folder : String} {loc : Location} {t : Ticket}

/-! ## Reading -/

/-- A ticket is read from its file and from nothing else. -/
theorem load_congr (hl : d.locate folder = .ok loc) (hl' : d'.locate folder = .ok loc)
    (hu : d.Untouched d' (loc.enter fileName)) : load d' folder = load d folder := by
  have hlook : d'.look (place folder) = d.look (place folder) :=
    Disk.look_congr (p := place folder) hl hl' hu.node
  have hread : d'.readStart (place folder) size = d.readStart (place folder) size := by
    unfold Disk.readStart Disk.openRead
    rw [hlook]
    rcases Disk.look_cases (p := place folder) hl with ⟨f, hf, -⟩ | hfound
    · rw [hf]
    · rw [hfound]
      cases hn : d.node? (loc.enter (place folder).name) with
      | none => rfl
      | some n =>
        cases n with
        | folder => rfl
        | full => rfl
        | file body =>
          have hoctets := hu.octets body hn
          simp only [Disk.read, Disk.size, Body.slice_eq, ← Body.length_octets, hoctets]
  unfold load
  rw [hread]

/-! ## Storing -/

theorem toOctets_ne_nil (t : Ticket) : t.toOctets ≠ [] := by simp [toOctets]

/-- Writing a file that is open replaces its octets, or it is refused and nobody else's are touched. -/
theorem append_emptied (d : Disk) (body : Nat) (bs : Octets) :
    ∃ answer new, (d.setBody body {}).append (.file body) bs = (answer, d.setBody body new) ∧
      (answer = .ok () → new.octets = bs) := by
  rcases Disk.append_file (d.setBody body {}) body bs with happend | ⟨count, f, -, -, happend⟩
  all_goals rw [Disk.setBody_setBody, Disk.bodies_setBody_self] at happend
  · exact ⟨_, _, happend, fun _ => by simp⟩
  · exact ⟨_, _, happend, nofun⟩

/-- What writing the scratch file comes to. Nothing else is touched, and if it is not refused the file
is there with the octets of the ticket. -/
structure Scratched (d : Disk) (folder : String) (loc : Location) (t : Ticket)
    (answer : Except Fault Unit) (d' : Disk) : Prop where
  sound : d'.Sound
  refusals : d'.refusals = d.refusals
  located : d'.locate folder = .ok loc
  untouched : ∀ l, l ≠ loc.enter scratchName → d.Untouched d' l
  written : answer = .ok () → ∃ body, d'.node? (loc.enter scratchName) = some (.file body) ∧
    (d'.bodies body).octets = t.toOctets

theorem writeFile_scratch (hs : d.Sound) (hl : d.locate folder = .ok loc) (t : Ticket) :
    ∃ answer d', d.writeFile (scratch folder) t.toOctets = (answer, d') ∧
      Scratched d folder loc t answer d' := by
  have htop : loc.enter scratchName ≠ .top := by simp
  have hrefused {f : Fault} (h : d.writeFile (scratch folder) t.toOctets = (.error f, d)) :
      ∃ answer d', d.writeFile (scratch folder) t.toOctets = (answer, d') ∧
        Scratched d folder loc t answer d' :=
    ⟨_, d, h, hs, rfl, hl, fun l _ => Disk.Untouched.refl d l, nofun⟩
  rcases Disk.look_cases (p := scratch folder) hl with ⟨f, hf, -⟩ | hfound
  · exact hrefused (f := f) (by simp only [Disk.writeFile, Disk.openWrite, hf])
  · change d.look (scratch folder) = .ok (loc.enter scratchName, d.node? (loc.enter scratchName))
      at hfound
    cases hn : d.node? (loc.enter scratchName) with
    | none =>
      rw [hn] at hfound
      have hcreated : (d.create (loc.enter scratchName)).Sound := hs.create utf8ByteSize_scratchName
      have hnode := Disk.node?_create_self d _ htop
      obtain ⟨answer, new, happend, hnew⟩ :=
        append_emptied (d.create (loc.enter scratchName)) d.nextBody t.toOctets
      have hl' := Disk.locate_create hl hn
      refine ⟨answer, (d.create (loc.enter scratchName)).setBody d.nextBody new, ?_,
        hcreated.setBody _ new, rfl, by rwa [Disk.locate_setBody], fun l hne => ?_, fun hok => ?_⟩
      · simp only [Disk.writeFile, Disk.openWrite, hfound, happend]
      · exact (Disk.untouched_create hs hne).trans
          (Disk.untouched_setBody_of_node hcreated htop hnode _ hne)
      · exact ⟨d.nextBody, hnode, by rw [Disk.bodies_setBody_self, hnew hok]⟩
    | some n =>
      rw [hn] at hfound
      cases n with
      | folder =>
        exact hrefused (f := .isFolder) (by simp only [Disk.writeFile, Disk.openWrite, hfound])
      | full =>
        refine hrefused (f := .noSpace) ?_
        simp only [Disk.writeFile, Disk.openWrite, hfound, Disk.refusalsOf, Disk.append,
          if_neg (toOctets_ne_nil t)]
      | file body =>
        cases hopening : (d.refusals body).opening with
        | some f =>
          refine hrefused (f := f) ?_
          simp only [Disk.writeFile, Disk.openWrite, hfound, Disk.refusalsOf, hopening]
        | none =>
          obtain ⟨answer, new, happend, hnew⟩ := append_emptied d body t.toOctets
          refine ⟨answer, d.setBody body new, ?_, hs.setBody body new, rfl,
            by rwa [Disk.locate_setBody],
            fun l hne => Disk.untouched_setBody_of_node hs htop hn _ hne, fun hok => ?_⟩
          · simp only [Disk.writeFile, Disk.openWrite, hfound, Disk.refusalsOf, hopening, happend]
          · exact ⟨body, by rw [Disk.node?_setBody, hn], by rw [Disk.bodies_setBody_self, hnew hok]⟩

/-- What giving the scratch file the name of the ticket does: nothing if it is refused, and otherwise
it has that name, and no other place is touched. -/
theorem rename_scratch (hs : d.Sound) (hl : d.locate folder = .ok loc) {body : Nat}
    (hn : d.node? (loc.enter scratchName) = some (.file body)) :
    (∃ f, d.rename (scratch folder) (place folder) = .error f) ∨
    ∃ d', d.rename (scratch folder) (place folder) = .ok d' ∧ d'.Sound ∧
      d'.locate folder = .ok loc ∧ d'.node? (loc.enter fileName) = some (.file body) ∧
      d'.bodies = d.bodies ∧ d'.refusals = d.refusals ∧
      ∀ l, l ≠ loc.enter scratchName → l ≠ loc.enter fileName → d.Untouched d' l := by
  have htop : loc.enter scratchName ≠ .top := by simp
  rcases Disk.look_cases (p := scratch folder) hl with ⟨f, hf, -⟩ | hold
  · exact .inl ⟨f, by simp only [Disk.rename, hf]⟩
  rcases Disk.look_cases (p := place folder) hl with ⟨f, hf, -⟩ | hnew
  · refine .inl ⟨f, ?_⟩
    simp only [Disk.rename, hold, hf]
  change d.look (scratch folder) = .ok (loc.enter scratchName, d.node? (loc.enter scratchName))
    at hold
  change d.look (place folder) = .ok (loc.enter fileName, d.node? (loc.enter fileName)) at hnew
  rw [hn] at hold
  by_cases hfolder : d.node? (loc.enter fileName) = some .folder
  · rw [hfolder] at hnew
    exact .inl ⟨.isFolder, by simp only [Disk.rename, hold, hnew]⟩
  · right
    have hfree := hs.not_mem_unlink htop hn
    have hlt := hs.inUse body (Disk.mem_bodies ((Disk.node?_eq_some hs htop).mp hn) rfl)
    let moved := (d.unlink (loc.enter scratchName)).link (loc.enter fileName) (.file body)
    have hother (l : Location) (hl₁ : l ≠ loc.enter scratchName) (hl₂ : l ≠ loc.enter fileName) :
        moved.node? l = d.node? l := by
      rw [Disk.node?_link_of_ne _ _ hl₂, Disk.node?_unlink_of_ne _ hl₁]
    have hleads : d.Leads moved := by
      refine ⟨rfl, fun l hfl => ?_⟩
      have hl₁ : l ≠ loc.enter scratchName := by
        rintro rfl
        rw [hn] at hfl
        cases hfl
      have hl₂ : l ≠ loc.enter fileName := by
        rintro rfl
        exact hfolder hfl
      rw [hother l hl₁ hl₂, hfl]
    refine ⟨moved, ?_, (hs.unlink _).link_file hfree hlt utf8ByteSize_fileName, hleads.locate hl,
      Disk.node?_link_self _ _ _ (Location.enter_ne_top loc _), rfl, rfl,
      fun l hl₁ hl₂ => ⟨hother l hl₁ hl₂, fun _ _ => rfl⟩⟩
    simp only [Disk.rename, hold, hnew]
    rfl

/-- An error of storing a ticket: of writing the scratch file or of giving it its name. -/
inductive StoreError : Error → Prop
  | write (path : String) (f : Fault) : StoreError (.io .writeTicket path f)
  | replace (path : String) (f : Fault) : StoreError (.io .replaceTicket path f)

/-- Storing a ticket leaves the segments of the folder alone. Its file holds the ticket then, and if
storing is refused the file is not touched. -/
theorem store_spec (hs : d.Sound) (hl : d.locate folder = .ok loc) (t : Ticket) :
    ∃ answer d', store d folder t = (answer, d') ∧ d.Skips folder d' ∧
      (answer = .ok () → ∃ body, d'.node? (loc.enter fileName) = some (.file body) ∧
        (d'.bodies body).octets = t.toOctets) ∧
      ∀ e, answer = .error e → StoreError e ∧ d.Untouched d' (loc.enter fileName) := by
  have hskips {d' : Disk} (hs' : d'.Sound) (hr' : d'.refusals = d.refusals)
      (hl' : d'.locate folder = .ok loc)
      (hu : ∀ l, l ≠ loc.enter scratchName → l ≠ loc.enter fileName → d.Untouched d' l) :
      d.Skips folder d' := by
    have huntouched (s : Segment) (hn : s.Named) : d.Untouched d' (loc.enter s.name) := by
      obtain ⟨hfile, hscratch⟩ := ne_of_named hn
      exact hu _ (enter_ne_enter hscratch) (enter_ne_enter hfile)
    refine ⟨hs', fun ht => ht.of_refusals hr', hl'.trans hl.symm, fun s hn => ?_,
      fun s hn body hb => ?_⟩
    · exact Disk.bodyOf?_congr hl hl' (huntouched s hn).node
    · exact (huntouched s hn).octets body ((Disk.bodyOf?_eq_some hl).mp hb).2
  obtain ⟨answer, d₁, hwrite, ⟨hs₁, hr₁, hl₁, hu₁, hwritten⟩⟩ := writeFile_scratch hs hl t
  have hskipped₁ := hskips hs₁ hr₁ hl₁ fun l h _ => hu₁ l h
  cases answer with
  | error f =>
    have hstore : store d folder t = (.error (.io .writeTicket (scratch folder).path f), d₁) := by
      simp only [store, hwrite]
    refine ⟨_, _, hstore, hskipped₁, nofun, ?_⟩
    rintro _ ⟨⟩
    exact ⟨.write _ f, hu₁ _ Filed.enter_ne⟩
  | ok _ =>
    obtain ⟨body, hn₁, hoctets⟩ := hwritten rfl
    rcases rename_scratch hs₁ hl₁ hn₁ with
      ⟨f, hrename⟩ | ⟨d₂, hrename, hs₂, hl₂, hn₂, hsame, hr₂, hu₂⟩
    · have hstore : store d folder t =
          (.error (.io .replaceTicket (place folder).path f), d₁) := by
        simp only [store, hwrite, hrename]
      refine ⟨_, _, hstore, hskipped₁, nofun, ?_⟩
      rintro _ ⟨⟩
      exact ⟨.replace _ f, hu₁ _ Filed.enter_ne⟩
    · have hstore : store d folder t = (.ok (), d₂) := by simp only [store, hwrite, hrename]
      have hskipped := hskips hs₂ (hr₂.trans hr₁) hl₂ fun l h h' => (hu₁ l h).trans (hu₂ l h h')
      exact ⟨_, _, hstore, hskipped, fun _ => ⟨body, hn₂, by rw [hsame, hoctets]⟩, nofun⟩

/-- Where a folder or a full device stands in the place of the scratch file no ticket is stored. -/
theorem store_of_blocked (hl : d.locate folder = .ok loc)
    (hn : d.node? (loc.enter scratchName) = some .folder ∨
      d.node? (loc.enter scratchName) = some .full) (t : Ticket) :
    ∃ e, store d folder t = (.error e, d) := by
  rcases Disk.look_cases (p := scratch folder) hl with ⟨f, hf, -⟩ | hfound
  · exact ⟨.io .writeTicket (scratch folder).path f, by
      simp only [store, Disk.writeFile, Disk.openWrite, hf]⟩
  change d.look (scratch folder) = .ok (loc.enter scratchName, d.node? (loc.enter scratchName))
    at hfound
  rcases hn with hn | hn
  · rw [hn] at hfound
    exact ⟨.io .writeTicket (scratch folder).path .isFolder, by
      simp only [store, Disk.writeFile, Disk.openWrite, hfound]⟩
  · rw [hn] at hfound
    exact ⟨.io .writeTicket (scratch folder).path .noSpace, by
      simp only [store, Disk.writeFile, Disk.openWrite, hfound, Disk.refusalsOf, Disk.append,
        if_neg (toOctets_ne_nil t)]⟩

/-! ## Opening and closing a transaction -/

/-- What a log does in its folder leaves the ticket alone. -/
theorem load_frames (hl : d.locate folder = .ok loc) (hd : d.Frames folder d') :
    load d' folder = load d folder :=
  load_congr hl (hd.locate hl) (hd.untouched loc (loc.enter fileName) hl fun _ hs =>
    enter_ne_enter (ne_of_named hs).1.symm)

theorem begin_skips (hs : d.Sound) (hl : d.locate folder = .ok loc) (floor : UInt64) :
    d.Skips folder (begin d folder floor).2 := by
  unfold Ticket.begin
  cases load d folder with
  | error e => exact Disk.Skips.refl hs folder
  | ok t =>
    dsimp only
    split
    · exact Disk.Skips.refl hs folder
    · obtain ⟨answer, d', hstore, hskips, -, -⟩ :=
        store_spec hs hl ⟨true, max (t.last + 1) floor⟩
      rw [hstore]
      cases answer <;> exact hskips

/-- Closing the open transaction leaves the segments alone, and the ticket if it is refused. -/
theorem finish_spec (hs : d.Sound) (hl : d.locate folder = .ok loc) (ht : load d folder = .ok t)
    (hopen : t.isOpen = true) :
    ∃ answer d', finish d folder t.last = (answer, d') ∧ d.Skips folder d' ∧
      ∀ e, answer = .error e → StoreError e ∧ load d' folder = load d folder := by
  unfold Ticket.finish
  rw [ht]
  dsimp only
  rw [if_neg (by simp [hopen]), ← ht]
  obtain ⟨answer, d', hstore, hskips, -, hrefused⟩ := store_spec hs hl { t with isOpen := false }
  refine ⟨answer, d', hstore, hskips, ?_⟩
  intro e he
  obtain ⟨hcause, huntouched⟩ := hrefused e he
  exact ⟨hcause, load_congr hl (hskips.locate.trans hl) huntouched⟩

theorem finish_of_blocked (hl : d.locate folder = .ok loc) (ht : load d folder = .ok t)
    (hopen : t.isOpen = true)
    (hn : d.node? (loc.enter scratchName) = some .folder ∨
      d.node? (loc.enter scratchName) = some .full) :
    ∃ e, finish d folder t.last = (.error e, d) := by
  unfold Ticket.finish
  rw [ht]
  dsimp only
  rw [if_neg (by simp [hopen])]
  exact store_of_blocked hl hn _

/-- What stands in the place of the scratch file is no matter of the log. -/
theorem link_scratch (hs : d.Sound) (hl : d.locate folder = .ok loc) {n : Node}
    (hn : n.body? = none) (hf : d.node? (loc.enter scratchName) ≠ some .folder) :
    let d' := d.link (loc.enter scratchName) n
    d.Skips folder d' ∧ (d.Clear folder → d'.Clear folder) ∧ d'.locate folder = .ok loc ∧
      d'.node? (loc.enter scratchName) = some n := by
  intro d'
  have hother {l : Location} (hne : l ≠ loc.enter scratchName) : d'.node? l = d.node? l :=
    Disk.node?_link_of_ne _ _ hne
  have hleads : d.Leads d' := by
    refine ⟨rfl, fun l hfl => ?_⟩
    rw [hother, hfl]
    rintro rfl
    exact hf hfl
  have hl' := hleads.locate hl
  have hsegment {s : Segment} (hnamed : s.Named) :
      d'.node? (loc.enter s.name) = d.node? (loc.enter s.name) :=
    hother (enter_ne_enter (ne_of_named hnamed).2)
  refine ⟨⟨hs.link hn utf8ByteSize_scratchName, fun ht => ht, hl'.trans hl.symm, fun s hnamed => ?_,
    fun _ _ _ _ => rfl⟩, fun hc => hc.of_same hl hl' fun s hnamed => hsegment hnamed, hl',
    Disk.node?_link_self _ _ _ (Location.enter_ne_top loc _)⟩
  exact Disk.bodyOf?_congr hl hl' (hsegment hnamed)

end Ticket

end SegmentLog
