import SegmentLog.Proofs.Listing

/-!
What the folder of a log holds: its segments by ascending number, each with the octets of its file
(`Disk.Holds`). Everything a log does to its folder is one of four changes, and each is a change of
this list: writing to a segment (`Holds.setBody`), creating one behind the others
(`Holds.create`), removing one (`Holds.unlink`), and what others do elsewhere on the disk
(`Holds.skips`).

Two things can then be in the way of a log. A folder or a full device may stand where a segment is to
be created, unless names are clear (`Disk.Clear`), and its files may not take what is written to them,
unless they are willing (`Disk.Willing`). That nothing is left of a write that is refused, and that
nothing else is refused, is part of what it is to hold volumes (`Disk.Tidy`). What comes of devices
that do not keep to this is shown for syncs (`Session.left_behind`), for buffers
(`Writing.exposure_bounded`) and for cuts (`Writing.refused_cut`).
-/

namespace SegmentLog

/-- A segment with what its file holds. -/
structure Volume where
  segment : Segment
  octets : Octets
  deriving DecidableEq, Repr

/-- Of what is refused nothing is left behind: writes may be refused, but then no octet of them gets
through, and nothing else is refused. -/
structure Refusals.Tidy (r : Refusals) : Prop where
  opening : r.opening = none
  writing : ∀ count f, r.writing = some (count, f) → count = 0
  resizing : r.resizing = none
  syncing : r.syncing = none
  removing : r.removing = none

theorem Refusals.tidy_none : ({} : Refusals).Tidy := ⟨rfl, by simp, rfl, rfl, rfl⟩

namespace Disk

/-- No file of the disk keeps anything of what is refused for it. -/
def Tidy (d : Disk) : Prop := ∀ body, (d.refusals body).Tidy

/-- Files can be written. -/
def Willing (d : Disk) : Prop := ∀ body, (d.refusals body).writing = none

/-- No file of the disk is refused anything. -/
def Grants (d : Disk) : Prop := ∀ body, d.refusals body = {}

theorem Grants.tidy {d : Disk} (h : d.Grants) : d.Tidy := fun body => h body ▸ Refusals.tidy_none

theorem Grants.willing {d : Disk} (h : d.Grants) : d.Willing := fun body => by rw [h body]

/-- A volume stands in a folder. -/
def Shows (d : Disk) (folder : String) (v : Volume) : Prop :=
  v.segment.Named ∧ ∃ body, d.bodyOf? folder v.segment = some body ∧ (d.bodies body).octets = v.octets

/-- A folder holds these volumes by ascending number, and no other segment. Writes to them may be
refused as long as nothing of a refused write is left behind. -/
structure Holds (d : Disk) (folder : String) (vs : List Volume) : Prop where
  sound : d.Sound
  tidy : d.Tidy
  folder_ne : folder ≠ ""
  located : ∃ loc, d.locate folder = .ok loc
  shows : ∀ v ∈ vs, d.Shows folder v
  complete : ∀ s : Segment, s.Named → (d.bodyOf? folder s).isSome → s ∈ vs.map (·.segment)
  ascending : (vs.map (·.segment)).Pairwise (·.id < ·.id)

/-- At the names under which segments are created stands nothing but regular files. -/
def Clear (d : Disk) (folder : String) : Prop :=
  ∀ id, ∃ loc n, d.look ((Segment.ofId id).place folder) = .ok (loc, n) ∧
    n ≠ some .folder ∧ n ≠ some .full

/-- A change of a disk that spares the segments of a folder. Whatever else is on the disk may
change; folders and full devices may stand where no segment does, and go away again. Files that kept
nothing of what they refused go on so, but what they refuse may change. -/
structure Spares (folder : String) (d d' : Disk) : Prop where
  sound : d'.Sound
  tidy : d.Tidy → d'.Tidy
  locate : d'.locate folder = d.locate folder
  body : ∀ s : Segment, s.Named → d'.bodyOf? folder s = d.bodyOf? folder s
  octets : ∀ s body, d.bodyOf? folder s = some body →
    (d'.bodies body).octets = (d.bodies body).octets

/-- A change of a disk that leaves the segments of a folder alone. Other files in the folder may be
overwritten, too. -/
structure Skips (folder : String) (d d' : Disk) : Prop where
  sound : d'.Sound
  tidy : d.Tidy → d'.Tidy
  locate : d'.locate folder = d.locate folder
  body : ∀ s : Segment, s.Named → d'.bodyOf? folder s = d.bodyOf? folder s
  octets : ∀ s : Segment, s.Named → ∀ body, d.bodyOf? folder s = some body →
    (d'.bodies body).octets = (d.bodies body).octets

theorem Spares.skips {d d' : Disk} {folder : String} (h : Spares folder d d') :
    Skips folder d d' :=
  ⟨h.sound, h.tidy, h.locate, h.body, fun s _ => h.octets s⟩

theorem Skips.refl {d : Disk} (hs : d.Sound) (folder : String) : Skips folder d d :=
  ⟨hs, id, rfl, fun _ _ => rfl, fun _ _ _ _ => rfl⟩

/-! ## The volumes of a folder -/

/-- The segments of a folder, each with what its file holds. -/
def volumes (d : Disk) (folder : String) : List Volume :=
  match Segment.list d folder with
  | .error _ => []
  | .ok segments =>
    segments.map fun s => ⟨s, ((d.bodyOf? folder s).map fun body => (d.bodies body).octets).getD []⟩

/-- A folder whose segments have distinct numbers holds its volumes. -/
theorem holds_volumes {d : Disk} {folder : String} (hs : d.Sound) (ht : d.Tidy) (hne : folder ≠ "")
    (hl : ∃ loc, d.locate folder = .ok loc)
    (hid : (d.volumes folder).Pairwise (·.segment.id ≠ ·.segment.id)) :
    d.Holds folder (d.volumes folder) := by
  obtain ⟨loc, hloc⟩ := hl
  obtain ⟨segments, hlist, -, hmem⟩ := mem_list hs hne hloc
  have hsegments : (d.volumes folder).map (·.segment) = Segment.sort segments := by
    simp [volumes, hlist, Function.comp_def]
  have hmem' (s : Segment) : s ∈ (d.volumes folder).map (·.segment) ↔
      s.Named ∧ (d.bodyOf? folder s).isSome := by
    rw [hsegments, (Segment.sort_perm segments).mem_iff, hmem]
  refine ⟨hs, ht, hne, ⟨loc, hloc⟩, ?_, fun s hn hb => (hmem' s).mpr ⟨hn, hb⟩, ?_⟩
  · intro v hv
    obtain ⟨hnamed, hsome⟩ := (hmem' v.segment).mp (List.mem_map_of_mem hv)
    obtain ⟨body, hb⟩ := Option.isSome_iff_exists.mp hsome
    refine ⟨hnamed, body, hb, ?_⟩
    simp only [volumes, hlist, List.mem_map] at hv
    obtain ⟨s, -, rfl⟩ := hv
    simp [hb]
  · have hle : ((d.volumes folder).map (·.segment)).Pairwise (·.id ≤ ·.id) := by
      rw [hsegments]
      exact Segment.pairwise_sort segments
    have hdistinct : ((d.volumes folder).map (·.segment)).Pairwise (·.id ≠ ·.id) :=
      List.pairwise_map.mpr hid
    refine (hle.and hdistinct).imp ?_
    rintro s t ⟨hst, hne⟩
    exact UInt64.lt_of_le_of_ne hst hne

/-! ## Clear folders -/

theorem pathFault?_join {folder name : String} (hf : pathFault? folder = none)
    (hn : '\x00' ∉ name.toList) (hk : folder.utf8ByteSize + 1 + name.utf8ByteSize < pathLimit) :
    pathFault? (Path.join folder name) = none := by
  have hnul : '\x00' ∉ folder.toList := by
    intro h
    simp [pathFault?, h] at hf
  have hslash : ("/" : String).utf8ByteSize = 1 := by decide
  unfold Path.join pathFault?
  split
  · rw [if_neg hn, if_neg (by omega)]
  · split
    · rw [if_neg (by simp [hnul, hn]), if_neg (by rw [String.utf8ByteSize_append]; omega)]
    · rw [if_neg (by simp [hnul, hn]), if_neg]
      rw [String.utf8ByteSize_append, String.utf8ByteSize_append, hslash]
      omega

/-- A folder is clear when its path leaves room for the names of segments and at those names stands
neither a folder nor a full device. -/
theorem clear_of_nodes {d : Disk} {folder : String} {loc : Location}
    (hl : d.locate folder = .ok loc) (hroom : folder.utf8ByteSize + 25 < pathLimit)
    (hnodes : ∀ name, d.node? (loc.enter name) ≠ some .folder ∧
      d.node? (loc.enter name) ≠ some .full) : d.Clear folder := by
  have hfault : pathFault? folder = none := by
    unfold locate at hl
    split at hl
    · cases hl
    · assumption
  intro id
  have hsize := Segment.utf8ByteSize_fileName id
  have hsp : Speakable folder (Segment.ofId id) := by
    refine ⟨pathFault?_join hfault (Segment.not_mem_fileName (by decide) (by decide) id) ?_, ?_⟩
    · change folder.utf8ByteSize + 1 + (Segment.fileName id).utf8ByteSize < pathLimit
      omega
    · change (Segment.fileName id).utf8ByteSize ≤ nameLimit
      rw [hsize]
      decide
  exact ⟨_, _, look_place hl hsp, hnodes _⟩

/-- A folder is clear when its path leaves room for the names of segments and it holds nothing but
files. -/
theorem clear_of_files {d : Disk} {folder : String} {loc : Location}
    (hl : d.locate folder = .ok loc) (hroom : folder.utf8ByteSize + 25 < pathLimit)
    (hfiles : ∀ e ∈ d.nodes, e.1.leave = loc → e.2.body?.isSome) : d.Clear folder := by
  refine clear_of_nodes hl hroom fun name => ?_
  cases hnode : d.node? (loc.enter name) with
  | none => exact ⟨nofun, nofun⟩
  | some n =>
    rw [node?, if_neg (by simp)] at hnode
    have hsome := hfiles _ (mem_of_lookup hnode) (Location.leave_enter _ _)
    refine ⟨?_, ?_⟩ <;>
    · rintro ⟨⟩
      cases hsome

/-! ## Paths after a change -/

/-- Paths lead where they led as long as no folder goes away. -/
theorem walk_mono {d d' : Disk} (h : ∀ loc, d.node? loc = some .folder → d'.node? loc = some .folder)
    {base loc : Location} {names : List String} (hw : d.walk base names = .ok loc) :
    d'.walk base names = .ok loc := by
  induction names generalizing base with
  | nil => exact hw
  | cons name rest ih =>
    unfold walk at hw ⊢
    split at hw
    · rename_i hdot
      rw [if_pos hdot]
      exact ih hw
    · rename_i hdot
      rw [if_neg hdot]
      split at hw
      · rename_i hdots
        rw [if_pos hdots]
        exact ih hw
      · rename_i hdots
        rw [if_neg hdots]
        unfold child at hw ⊢
        by_cases hlong : nameLimit < name.utf8ByteSize
        · rw [if_pos hlong] at hw
          cases hw
        · rw [if_neg hlong] at hw ⊢
          cases hn : d.node? (base.enter name) with
          | none => simp [hn] at hw
          | some n =>
            cases n with
            | folder =>
              simp only [hn] at hw
              simp only [h _ hn]
              exact ih hw
            | file body => simp [hn] at hw
            | full => simp [hn] at hw

theorem locate_mono {d d' : Disk} (hh : d'.here = d.here)
    (h : ∀ loc, d.node? loc = some .folder → d'.node? loc = some .folder)
    {folder : String} {loc : Location} (hl : d.locate folder = .ok loc) :
    d'.locate folder = .ok loc := by
  unfold locate at hl ⊢
  have hstart : d'.start folder = d.start folder := by simp only [start, hh]
  split at hl
  · cases hl
  · rw [hstart]
    exact walk_mono h hl

/-! ## Opening segments -/

section Opening

variable {d : Disk} {folder : String} {s : Segment} {body : Nat}

theorem look_of_bodyOf? (h : d.bodyOf? folder s = some body) :
    ∃ loc, d.locate folder = .ok loc ∧
      d.look (s.place folder) = .ok (loc.enter s.name, some (.file body)) := by
  have hlook : ∃ l, d.look (s.place folder) = .ok (l, some (.file body)) := by
    unfold bodyOf? at h
    split at h
    · rename_i l _ hl
      cases h
      exact ⟨l, hl⟩
    · cases h
  obtain ⟨l, hl⟩ := hlook
  obtain ⟨hsp, loc, hloc⟩ := speakable_of_look hl
  refine ⟨loc, hloc, ?_⟩
  rw [look_place hloc hsp] at hl ⊢
  simp only [Except.ok.injEq, Prod.mk.injEq] at hl
  rw [hl.2]

theorem openRead_of_bodyOf? (h : d.bodyOf? folder s = some body) :
    d.openRead (s.place folder) = .ok (.file body) := by
  obtain ⟨loc, -, hlook⟩ := look_of_bodyOf? h
  rw [openRead, hlook]

/-- Opening a segment that has a file does nothing else. -/
theorem eq_of_openWrite (h : d.bodyOf? folder s = some body) {n : Node} {d' : Disk}
    (ho : d.openWrite (s.place folder) = .ok (n, d')) : n = .file body ∧ d' = d := by
  obtain ⟨loc, -, hlook⟩ := look_of_bodyOf? h
  simp only [openWrite, hlook] at ho
  split at ho
  · cases ho
  · cases ho
    exact ⟨rfl, rfl⟩

theorem openWrite_of_bodyOf? (ht : d.Tidy) (h : d.bodyOf? folder s = some body) :
    d.openWrite (s.place folder) = .ok (.file body, d) := by
  obtain ⟨loc, -, hlook⟩ := look_of_bodyOf? h
  simp only [openWrite, hlook, refusalsOf, (ht body).opening]

/-- Opening a segment that has no file is refused, or reaches a full device, or creates the file. -/
theorem openWrite_cases (h : d.bodyOf? folder s = none) :
    (∃ f, d.openWrite (s.place folder) = .error f) ∨
    d.openWrite (s.place folder) = .ok (.full, d) ∨
    ∃ loc, d.locate folder = .ok loc ∧ Speakable folder s ∧ d.node? (loc.enter s.name) = none ∧
      d.openWrite (s.place folder) = .ok (.file d.nextBody, d.create (loc.enter s.name)) := by
  cases hlook : d.look (s.place folder) with
  | error f => exact .inl ⟨f, by rw [openWrite, hlook]⟩
  | ok found =>
    obtain ⟨l, n⟩ := found
    obtain ⟨hsp, loc, hloc⟩ := speakable_of_look hlook
    have hplace := look_place hloc hsp
    rw [hlook] at hplace
    simp only [Except.ok.injEq, Prod.mk.injEq] at hplace
    obtain ⟨rfl, hn⟩ := hplace
    cases n with
    | none => exact .inr (.inr ⟨loc, hloc, hsp, hn.symm, by rw [openWrite, hlook]⟩)
    | some n =>
      cases n with
      | folder => exact .inl ⟨.isFolder, by rw [openWrite, hlook]⟩
      | file body => simp [bodyOf?, hlook] at h
      | full => exact .inr (.inl (by simp only [openWrite, hlook, refusalsOf]))

/-- Where only regular files stand, opening a segment that has no file creates it. -/
theorem openWrite_of_clear (hc : d.Clear folder) {id : UInt64}
    (h : d.bodyOf? folder (Segment.ofId id) = none) :
    ∃ loc, d.locate folder = .ok loc ∧ Speakable folder (Segment.ofId id) ∧
      d.node? (loc.enter (Segment.ofId id).name) = none ∧
      d.openWrite ((Segment.ofId id).place folder) =
        .ok (.file d.nextBody, d.create (loc.enter (Segment.ofId id).name)) := by
  obtain ⟨l, n, hlook, hfolder, hfull⟩ := hc id
  have hnone : n = none := by
    cases n with
    | none => rfl
    | some n =>
      cases n with
      | folder => exact absurd rfl hfolder
      | file body => simp [bodyOf?, hlook] at h
      | full => exact absurd rfl hfull
  rw [hnone] at hlook
  rcases openWrite_cases h with ⟨f, hf⟩ | hf | hcreate
  · rw [openWrite, hlook] at hf
    cases hf
  · rw [openWrite, hlook] at hf
    cases hf
  · exact hcreate

end Opening

/-! ## Distinct bodies -/

theorem mem_bodies {d : Disk} {loc : Location} {n : Node} {body : Nat} (h : (loc, n) ∈ d.nodes)
    (hb : n.body? = some body) : body ∈ d.nodes.filterMap (·.2.body?) :=
  List.mem_filterMap.mpr ⟨(loc, n), h, hb⟩

/-- Entries of one body are one entry. -/
theorem eq_of_body {nodes : List (Location × Node)} (h : (nodes.filterMap (·.2.body?)).Nodup)
    {e e' : Location × Node} {body : Nat} (he : e ∈ nodes) (he' : e' ∈ nodes)
    (hb : e.2.body? = some body) (hb' : e'.2.body? = some body) : e = e' := by
  induction nodes with
  | nil => cases he
  | cons first rest ih =>
    have hin : ∀ x ∈ rest, x.2.body? = some body → body ∈ rest.filterMap (·.2.body?) :=
      fun x hx hxb => List.mem_filterMap.mpr ⟨x, hx, hxb⟩
    rw [List.filterMap_cons] at h
    split at h
    · rename_i hnone
      have hne : ∀ x : Location × Node, x.2.body? = some body → x ≠ first := by
        rintro x hx rfl
        rw [hnone] at hx
        cases hx
      exact ih h ((List.mem_cons.mp he).resolve_left (hne e hb))
        ((List.mem_cons.mp he').resolve_left (hne e' hb'))
    · rename_i b hsome
      obtain ⟨hnot, hrest⟩ := List.nodup_cons.mp h
      have hfirst : first.2.body? = some body → ∀ x ∈ rest, x.2.body? ≠ some body := by
        intro hf x hx hxb
        rw [hsome] at hf
        cases hf
        exact hnot (hin x hx hxb)
      rcases List.mem_cons.mp he with hef | her <;> rcases List.mem_cons.mp he' with hef' | her'
      · rw [hef, hef']
      · exact absurd hb' (hfirst (hef ▸ hb) e' her')
      · exact absurd hb (hfirst (hef' ▸ hb') e her)
      · exact ih hrest her her'

theorem Sound.eq_of_bodyOf? {d : Disk} (hs : d.Sound) {folder : String} {s t : Segment}
    {body : Nat} (hn : s.Named) (ht : t.Named) (hsb : d.bodyOf? folder s = some body)
    (htb : d.bodyOf? folder t = some body) : s = t := by
  obtain ⟨loc, hloc, -⟩ := look_of_bodyOf? hsb
  have hsn := ((bodyOf?_eq_some hloc).mp hsb).2
  have htn := ((bodyOf?_eq_some hloc).mp htb).2
  rw [node?_eq_some hs (by simp)] at hsn htn
  have he := eq_of_body hs.bodies hsn htn rfl rfl
  simp only [Prod.mk.injEq, Location.enter_inj, true_and, and_true] at he
  exact hn.eq_of_name ht he

theorem Sound.bodyOf?_lt {d : Disk} (hs : d.Sound) {folder : String} {s : Segment} {body : Nat}
    (h : d.bodyOf? folder s = some body) : body < d.nextBody := by
  obtain ⟨loc, hloc, -⟩ := look_of_bodyOf? h
  have hn := ((bodyOf?_eq_some hloc).mp h).2
  rw [node?_eq_some hs (by simp)] at hn
  exact hs.inUse body (mem_bodies hn rfl)

end Disk

end SegmentLog
