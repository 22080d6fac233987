import SegmentLog.Proofs.Confinement
import SegmentLog.Ticket.Lemmas

/-!
The ticket in the folder of a log. Its two names are not those of segments, so storing it spares the
log (`Ticket.Filed.store`), and what a log does leaves it alone (`Ticket.Filed.frames`). Where the
path of the folder leaves room for the names and no file stood there before, a ticket can always be
stored and is read back as it was stored.
-/

namespace SegmentLog

namespace Disk

variable {d d' : Disk} {folder : String} {loc : Location}

theorem look_of_locate {p : Place} (hl : d.locate p.folder = .ok loc)
    (hf : pathFault? p.path = none) (hn : p.name.utf8ByteSize ≤ nameLimit) :
    d.look p = .ok (loc.enter p.name, d.node? (loc.enter p.name)) := by
  have hchild : d.child loc p.name = .ok (d.node? (loc.enter p.name)) :=
    if_neg (Nat.not_lt.mpr hn)
  simp only [look, hf, hl, hchild]
  rfl

theorem pathFault?_of_locate (hl : d.locate folder = .ok loc) : pathFault? folder = none := by
  unfold locate at hl
  split at hl
  · cases hl
  · assumption

/-- A file that has no name yet gets one. -/
theorem Sound.link_file (h : d.Sound) {body : Nat}
    (hfree : body ∉ d.nodes.filterMap (·.2.body?)) (hlt : body < d.nextBody)
    (hfit : (loc.names.headD "").utf8ByteSize ≤ nameLimit) : (d.link loc (.file body)).Sound := by
  have hrest := h.unlink loc
  have hsub : (d.unlink loc).nodes.Sublist d.nodes := List.filter_sublist
  have hnodes : (d.link loc (.file body)).nodes = (loc, .file body) :: (d.unlink loc).nodes := rfl
  have hbodies : (d.link loc (.file body)).nodes.filterMap (·.2.body?) =
      body :: (d.unlink loc).nodes.filterMap (·.2.body?) := by
    rw [hnodes, List.filterMap_cons]
    rfl
  refine ⟨?_, ?_, ?_, ?_⟩
  · rw [hnodes]
    refine List.pairwise_cons.mpr ⟨?_, hrest.locations⟩
    intro e he
    have hne : e.1 ≠ loc := by simpa using (List.mem_filter.mp he).2
    exact hne.symm
  · rw [hbodies]
    exact List.nodup_cons.mpr ⟨fun hb => hfree ((hsub.filterMap _).mem hb), hrest.bodies⟩
  · rw [hbodies]
    intro b hb
    rcases List.mem_cons.mp hb with rfl | hb
    · exact hlt
    · exact hrest.inUse b hb
  · rw [hnodes]
    intro e he
    rcases List.mem_cons.mp he with rfl | he
    · exact hfit
    · exact hrest.names e he

/-- A file that loses its name is not that of another name. -/
theorem Sound.not_mem_unlink (h : d.Sound) (ht : loc ≠ .top) {body : Nat}
    (hn : d.node? loc = some (.file body)) :
    body ∉ (d.unlink loc).nodes.filterMap (·.2.body?) := by
  intro hb
  obtain ⟨e, he, hbody⟩ := List.mem_filterMap.mp hb
  obtain ⟨hmem, hne⟩ := List.mem_filter.mp he
  have hentry := (node?_eq_some h ht).mp hn
  have hsame := eq_of_body h.bodies hmem hentry hbody rfl
  simp [hsame] at hne

/-- Names stay clear where nothing changes that stands at the place of a segment. -/
theorem Clear.of_same (h : d.Clear folder) (hl : d.locate folder = .ok loc)
    (hl' : d'.locate folder = .ok loc)
    (hsame : ∀ s : Segment, s.Named → d'.node? (loc.enter s.name) = d.node? (loc.enter s.name)) :
    d'.Clear folder := by
  intro id
  obtain ⟨l, n, hlook, hn⟩ := h id
  have hsp := (speakable_of_look hlook).1
  rw [look_place hl hsp, Except.ok.injEq, Prod.mk.injEq] at hlook
  obtain ⟨rfl, rfl⟩ := hlook
  refine ⟨_, _, look_place hl' hsp, ?_⟩
  rw [hsame (Segment.ofId id) (Segment.named_ofId id)]
  exact hn

end Disk

namespace Ticket

theorem enter_ne_enter {loc : Location} {name name' : String} (h : name ≠ name') :
    loc.enter name ≠ loc.enter name' := fun he => h (Location.enter_inj.mp he).2

/-- A name of the ticket's files is not one of a segment. -/
theorem ne_of_named {s : Segment} (hs : s.Named) : s.name ≠ fileName ∧ s.name ≠ scratchName := by
  have hfile : Segment.ofName? fileName = none := by decide +kernel
  have hscratch : Segment.ofName? scratchName = none := by decide +kernel
  refine ⟨?_, ?_⟩
  · intro he
    rw [Segment.Named, he, hfile] at hs
    cases hs
  · intro he
    rw [Segment.Named, he, hscratch] at hs
    cases hs

theorem fileName_ne_scratchName : fileName ≠ scratchName := by decide +kernel

theorem utf8ByteSize_fileName : fileName.utf8ByteSize ≤ Disk.nameLimit := by decide +kernel

theorem utf8ByteSize_scratchName : scratchName.utf8ByteSize ≤ Disk.nameLimit := by decide +kernel

/-- The ticket that a node stands for. Where there is no file it was never used. -/
def recorded (d : Disk) : Option Node → Except TicketFlaw Ticket
  | some (.file body) => ofOctets (d.bodies body).octets
  | _ => .ok {}

/-- A ticket in the folder at a location, which has room for it: no file stands for a ticket that
was never used, and nothing is left of the scratch file. -/
structure Filed (d : Disk) (folder : String) (loc : Location) (t : Ticket) : Prop where
  located : d.locate folder = .ok loc
  room : folder.utf8ByteSize + 25 < Disk.pathLimit
  scratch : d.node? (loc.enter scratchName) = none
  file : d.node? (loc.enter fileName) = none ∧ t = {} ∨
    ∃ body, d.node? (loc.enter fileName) = some (.file body) ∧ (d.bodies body).octets = t.toOctets

/-- From one disk to another a ticket was replaced and the log beside it spared. -/
structure Refiled (d : Disk) (folder : String) (loc : Location) (t : Ticket) (d' : Disk) :
    Prop where
  filed : Filed d' folder loc t
  spares : d.Spares folder d'
  leads : d.Leads d'
  clear : d.Clear folder → d'.Clear folder
  refusals : d'.refusals = d.refusals

variable {d d' : Disk} {folder : String} {loc : Location} {t : Ticket}

/-- The ticket that is read is the one that the node in its place stands for. -/
theorem load_of_look {l : Location} {n : Option Node} (hlook : d.look (place folder) = .ok (l, n))
    (hfolder : n ≠ some .folder) (hfull : n ≠ some .full) :
    load d folder = (recorded d n).mapError .undecodable := by
  cases n with
  | none =>
    have hread : d.readStart (place folder) size = .error .notFound := by
      simp only [Disk.readStart, Disk.openRead, hlook]
    unfold load
    rw [hread]
    rfl
  | some n =>
    cases n with
    | folder => exact absurd rfl hfolder
    | full => exact absurd rfl hfull
    | file body =>
      have hread : d.readStart (place folder) size = .ok ((d.bodies body).octets.take size) := by
        simp only [Disk.readStart, Disk.openRead, hlook, Disk.read, Disk.size, Body.slice_eq]
        rw [Octets.slice, List.drop_zero, ← Body.length_octets]
        simp
      unfold load
      rw [hread]
      dsimp only
      rw [ofOctets_take, recorded]
      cases ofOctets (d.bodies body).octets <;> rfl

/-- A folder with room for the names of segments has room for those of the ticket. -/
theorem look_name (hl : d.locate folder = .ok loc)
    (hroom : folder.utf8ByteSize + 25 < Disk.pathLimit) {name : String}
    (hnul : '\x00' ∉ name.toList) (hsize : name.utf8ByteSize ≤ 24) :
    d.look ⟨folder, name⟩ = .ok (loc.enter name, d.node? (loc.enter name)) := by
  have hfits : folder.utf8ByteSize + 1 + name.utf8ByteSize < Disk.pathLimit := by omega
  refine Disk.look_of_locate hl ?_ (by simp only [Disk.nameLimit]; omega)
  exact Disk.pathFault?_join (Disk.pathFault?_of_locate hl) hnul hfits

namespace Filed

/-- Where nothing is there is a ticket that was never used. -/
theorem of_vacant (hl : d.locate folder = .ok loc)
    (hroom : folder.utf8ByteSize + 25 < Disk.pathLimit)
    (hvacant : ∀ name, d.node? (loc.enter name) = none) : Filed d folder loc {} :=
  ⟨hl, hroom, hvacant scratchName, .inl ⟨hvacant fileName, rfl⟩⟩

theorem look_place (h : Filed d folder loc t) :
    d.look (place folder) = .ok (loc.enter fileName, d.node? (loc.enter fileName)) :=
  look_name h.located h.room (by decide) (by decide)

theorem look_scratch (h : Filed d folder loc t) :
    d.look (Ticket.scratch folder) = .ok (loc.enter scratchName, none) := by
  rw [← h.scratch]
  exact look_name h.located h.room (by decide +kernel) (by decide +kernel)

/-- A ticket is read as it was filed. -/
theorem load (h : Filed d folder loc t) : Ticket.load d folder = .ok t := by
  have hlook := h.look_place
  rcases h.file with ⟨hnone, rfl⟩ | ⟨body, hnode, hoctets⟩
  · rw [hnone] at hlook
    exact load_of_look hlook nofun nofun
  · rw [hnode] at hlook
    have hback := ofOctets_toOctets t []
    rw [List.append_nil] at hback
    rw [load_of_look hlook nofun nofun, recorded, hoctets, hback]
    rfl

/-- What a log does in its folder leaves the ticket alone. -/
theorem frames (h : Filed d folder loc t) (hd : d.Frames folder d') : Filed d' folder loc t := by
  have hfile := hd.untouched loc (loc.enter fileName) h.located fun s hs =>
    enter_ne_enter (ne_of_named hs).1.symm
  have hscratch := hd.untouched loc (loc.enter scratchName) h.located fun s hs =>
    enter_ne_enter (ne_of_named hs).2.symm
  refine ⟨hd.locate h.located, h.room, hscratch.node.trans h.scratch, ?_⟩
  rcases h.file with ⟨hnone, ht⟩ | ⟨body, hnode, hoctets⟩
  · exact .inl ⟨hfile.node.trans hnone, ht⟩
  · exact .inr ⟨body, hfile.node.trans hnode, (hfile.octets body hnode).trans hoctets⟩

/-- The scratch file with the octets of a ticket. -/
def written (d : Disk) (loc : Location) (t : Ticket) : Disk :=
  (d.create (loc.enter scratchName)).setBody d.nextBody (Body.append {} t.toOctets)

/-- The scratch file under the name of the ticket. -/
def renamed (d : Disk) (loc : Location) (t : Ticket) : Disk :=
  ((written d loc t).unlink (loc.enter scratchName)).link (loc.enter fileName) (.file d.nextBody)

theorem enter_ne : loc.enter fileName ≠ loc.enter scratchName :=
  enter_ne_enter fileName_ne_scratchName

theorem node?_written_scratch : (written d loc t).node? (loc.enter scratchName) =
    some (.file d.nextBody) := Disk.node?_create_self d _ (Location.enter_ne_top loc _)

theorem node?_written_of_ne {l : Location} (hl : l ≠ loc.enter scratchName) :
    (written d loc t).node? l = d.node? l := Disk.node?_create_of_ne d hl

theorem node?_renamed_of_ne {l : Location} (hl : l ≠ loc.enter scratchName)
    (hl' : l ≠ loc.enter fileName) : (renamed d loc t).node? l = d.node? l := by
  rw [renamed, Disk.node?_link_of_ne _ _ hl', Disk.node?_unlink_of_ne _ hl, node?_written_of_ne hl]

theorem bodies_renamed_of_ne {body : Nat} (hb : body ≠ d.nextBody) :
    (renamed d loc t).bodies body = d.bodies body := by
  have hsame : (renamed d loc t).bodies = (written d loc t).bodies := rfl
  rw [hsame, written, Disk.bodies_setBody_of_ne _ _ hb, Disk.bodies_create_of_ne _ _ hb]

/-- Storing a ticket writes the scratch file and gives it the name of the ticket. -/
theorem store_eq (h : Filed d folder loc t) (hw : d.Willing) (t' : Ticket) :
    Ticket.store d folder t' = (.ok (), renamed d loc t') := by
  have hwrite : d.writeFile (Ticket.scratch folder) t'.toOctets = (.ok (), written d loc t') := by
    simp [Disk.writeFile, Disk.openWrite, h.look_scratch, Disk.append, hw d.nextBody, written]
  have hl : (written d loc t').locate folder = .ok loc := by
    rw [written, Disk.locate_setBody]
    exact Disk.locate_create h.located h.scratch
  have hold : (written d loc t').look (Ticket.scratch folder) =
      .ok (loc.enter scratchName, some (.file d.nextBody)) := by
    rw [← node?_written_scratch]
    exact look_name hl h.room (by decide +kernel) (by decide +kernel)
  have hnew : (written d loc t').look (place folder) =
      .ok (loc.enter fileName, d.node? (loc.enter fileName)) := by
    rw [← node?_written_of_ne enter_ne]
    exact look_name hl h.room (by decide) (by decide)
  have hrename : (written d loc t').rename (Ticket.scratch folder) (place folder) =
      .ok (renamed d loc t') := by
    simp only [Disk.rename, hold, hnew]
    rcases h.file with ⟨hnode, -⟩ | ⟨body, hnode, -⟩
    · rw [hnode]
      rfl
    · rw [hnode]
      rfl
  unfold Ticket.store
  rw [hwrite]
  dsimp only
  rw [hrename]

theorem sound_renamed (hs : d.Sound) (t : Ticket) : (renamed d loc t).Sound := by
  have hcreated : (d.create (loc.enter scratchName)).Sound := hs.create utf8ByteSize_scratchName
  have hwritten : (written d loc t).Sound := hcreated.setBody _ _
  have hfree := hwritten.not_mem_unlink (Location.enter_ne_top loc scratchName)
    node?_written_scratch
  exact (hwritten.unlink _).link_file hfree (Nat.lt_succ_self d.nextBody) utf8ByteSize_fileName

/-- A ticket can be stored where files can be written. That spares the log, moves no folder and takes
no name of a segment. -/
theorem store (h : Filed d folder loc t) (hs : d.Sound) (hw : d.Willing) (t' : Ticket) :
    ∃ d', Ticket.store d folder t' = (.ok (), d') ∧ Refiled d folder loc t' d' := by
  have hleads : d.Leads (renamed d loc t') := by
    refine ⟨rfl, fun l hl => ?_⟩
    have hscratch : l ≠ loc.enter scratchName := by
      rintro rfl
      rw [h.scratch] at hl
      cases hl
    have hfile : l ≠ loc.enter fileName := by
      rintro rfl
      rcases h.file with ⟨hnode, -⟩ | ⟨body, hnode, -⟩
      · rw [hnode] at hl
        cases hl
      · rw [hnode] at hl
        cases hl
    rw [node?_renamed_of_ne hscratch hfile, hl]
  have hl := hleads.locate h.located
  have hsegment {s : Segment} (hn : s.Named) :
      (renamed d loc t').node? (loc.enter s.name) = d.node? (loc.enter s.name) := by
    obtain ⟨hfile, hscratch⟩ := ne_of_named hn
    exact node?_renamed_of_ne (enter_ne_enter hscratch) (enter_ne_enter hfile)
  refine ⟨renamed d loc t', h.store_eq hw t', ⟨hl, h.room, ?_, .inr ⟨d.nextBody, ?_, ?_⟩⟩,
    ⟨sound_renamed hs t', fun ht => ht, hl.trans h.located.symm, ?_, ?_⟩, hleads, ?_, rfl⟩
  · rw [renamed, Disk.node?_link_of_ne _ _ enter_ne.symm]
    exact Disk.node?_unlink_self _ _ (Location.enter_ne_top loc _)
  · exact Disk.node?_link_self _ _ _ (Location.enter_ne_top loc _)
  · have hbody : (renamed d loc t').bodies d.nextBody = Body.append {} t'.toOctets :=
      Disk.bodies_setBody_self _ _ _
    rw [hbody, Body.octets_append]
    rfl
  · intro s hn
    exact Disk.bodyOf?_congr h.located hl (hsegment hn)
  · intro s body hb
    rw [bodies_renamed_of_ne (Nat.ne_of_lt (hs.bodyOf?_lt hb))]
  · exact fun hc => hc.of_same h.located hl fun s hn => hsegment hn

/-- A transaction is begun where none is open. -/
theorem begin_of_closed (h : Filed d folder loc t) (hs : d.Sound) (hw : d.Willing)
    (hopen : t.isOpen = false) (floor : UInt64) :
    ∃ d', Ticket.begin d folder floor = (.ok (max (t.last + 1) floor), d') ∧
      Refiled d folder loc ⟨true, max (t.last + 1) floor⟩ d' := by
  obtain ⟨d', hstore, hrefiled⟩ := h.store hs hw ⟨true, max (t.last + 1) floor⟩
  refine ⟨d', ?_, hrefiled⟩
  unfold Ticket.begin
  rw [h.load]
  dsimp only
  rw [hopen, if_neg Bool.false_ne_true, hstore]

theorem begin_of_open (h : Filed d folder loc t) (hopen : t.isOpen = true) (floor : UInt64) :
    Ticket.begin d folder floor = (.error (.ticket (.alreadyOpen t.last)), d) := by
  unfold Ticket.begin
  rw [h.load]
  exact if_pos hopen

/-- The open transaction can be closed. -/
theorem finish (h : Filed d folder loc t) (hs : d.Sound) (hw : d.Willing) (hopen : t.isOpen = true) :
    ∃ d', Ticket.finish d folder t.last = (.ok (), d') ∧
      Refiled d folder loc { t with isOpen := false } d' := by
  obtain ⟨d', hstore, hrefiled⟩ := h.store hs hw { t with isOpen := false }
  refine ⟨d', ?_, hrefiled⟩
  unfold Ticket.finish
  rw [h.load]
  dsimp only
  rw [if_neg (by simp [hopen]), hstore]

theorem current (h : Filed d folder loc t) :
    Ticket.current d folder = .ok (if t.isOpen then some t.last else none) := by
  unfold Ticket.current
  rw [h.load]

end Filed

end Ticket

end SegmentLog
