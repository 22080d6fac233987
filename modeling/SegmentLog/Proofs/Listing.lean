import Mathlib.Data.List.Pairwise
import SegmentLog.Disk.Lemmas
import SegmentLog.Proofs.Naming

/-!
Listing a folder. On a sound disk a listing holds each segment that stands in the folder once
(`mem_list`), and sorting brings segments of distinct numbers into the one ascending order there
is (`sort_eq_of_perm`).
-/

namespace SegmentLog

/-! ## Sorting -/

namespace Segment

theorem insert_perm (s : Segment) (segments : List Segment) :
    (insert s segments).Perm (s :: segments) := by
  induction segments with
  | nil => exact List.Perm.refl _
  | cons t rest ih =>
    unfold insert
    split
    · exact List.Perm.refl _
    · exact (ih.cons t).trans (List.Perm.swap s t rest)

theorem sort_perm (segments : List Segment) : (sort segments).Perm segments := by
  induction segments with
  | nil => exact List.Perm.refl _
  | cons s rest ih => exact (insert_perm s (sort rest)).trans (ih.cons s)

theorem pairwise_insert {s : Segment} {segments : List Segment}
    (h : segments.Pairwise (·.id ≤ ·.id)) : (insert s segments).Pairwise (·.id ≤ ·.id) := by
  induction segments with
  | nil => simp [insert]
  | cons t rest ih =>
    obtain ⟨hfirst, hrest⟩ := List.pairwise_cons.mp h
    unfold insert
    split
    · rename_i hle
      refine List.pairwise_cons.mpr ⟨?_, h⟩
      intro u hu
      rcases List.mem_cons.mp hu with rfl | hu
      · exact hle
      · exact UInt64.le_trans hle (hfirst u hu)
    · rename_i hnle
      refine List.pairwise_cons.mpr ⟨?_, ih hrest⟩
      intro u hu
      rcases List.mem_cons.mp ((insert_perm s rest).mem_iff.mp hu) with rfl | hu
      · exact UInt64.le_of_lt (UInt64.not_le.mp hnle)
      · exact hfirst u hu

theorem pairwise_sort (segments : List Segment) : (sort segments).Pairwise (·.id ≤ ·.id) := by
  induction segments with
  | nil => exact List.Pairwise.nil
  | cons s rest ih => exact pairwise_insert ih

/-- A number stands for one segment of an ascending list. -/
theorem eq_of_ascending {segments : List Segment} (h : segments.Pairwise (·.id < ·.id))
    {s t : Segment} (hs : s ∈ segments) (ht : t ∈ segments) (hid : s.id = t.id) : s = t := by
  induction segments with
  | nil => cases hs
  | cons u rest ih =>
    obtain ⟨hfirst, hrest⟩ := List.pairwise_cons.mp h
    rcases List.mem_cons.mp hs with hsu | hsr <;> rcases List.mem_cons.mp ht with htu | htr
    · rw [hsu, htu]
    · exact absurd (hid ▸ hsu ▸ hfirst t htr) (UInt64.lt_irrefl _)
    · exact absurd (hid ▸ htu ▸ hfirst s hsr) (UInt64.lt_irrefl _)
    · exact ih hrest hsr htr

/-- Segments of distinct numbers have one ascending order. -/
theorem sort_eq_of_perm {segments sorted : List Segment} (hp : sorted.Perm segments)
    (hs : sorted.Pairwise (·.id < ·.id)) : sort segments = sorted := by
  have hperm := (sort_perm segments).trans hp.symm
  have hle : sorted.Pairwise (·.id ≤ ·.id) := hs.imp fun h => UInt64.le_of_lt h
  refine hperm.eq_of_pairwise ?_ (pairwise_sort segments) hle
  intro s t hs' ht hst hts
  exact eq_of_ascending hs (hperm.mem_iff.mp hs') ht (UInt64.le_antisymm hst hts)

end Segment

/-! ## What stands in a folder -/

/-- The body that a regular file has. -/
def Node.body? : Node → Option Nat
  | .file body => some body
  | _ => none

theorem Location.nameIn?_eq_some {folder loc : Location} {name : String} :
    nameIn? folder loc = some name ↔ loc = folder.enter name := by
  constructor
  · intro h
    unfold nameIn? at h
    split at h
    · cases h
    · rename_i first rest hnames
      split at h
      · rename_i hleave
        cases h
        apply ext_names
        rw [hnames, ← hleave]
        simp [enter, leave, hnames]
      · cases h
  · rintro rfl
    simp

namespace Disk

/-- A disk as a file system keeps it: a location stands for one node, files have bodies of their
own, and every name fits. -/
structure Sound (d : Disk) : Prop where
  locations : d.nodes.Pairwise (·.1 ≠ ·.1)
  bodies : (d.nodes.filterMap (·.2.body?)).Nodup
  inUse : ∀ body ∈ d.nodes.filterMap (·.2.body?), body < d.nextBody
  names : ∀ e ∈ d.nodes, (e.1.names.headD "").utf8ByteSize ≤ nameLimit

theorem mem_of_lookup {nodes : List (Location × Node)} {loc : Location} {n : Node}
    (h : nodes.lookup loc = some n) : (loc, n) ∈ nodes := by
  obtain ⟨front, back, rfl, -⟩ := List.lookup_eq_some_iff.mp h
  simp

theorem lookup_of_mem {nodes : List (Location × Node)} {loc : Location} {n : Node}
    (hnodup : nodes.Pairwise (·.1 ≠ ·.1)) (h : (loc, n) ∈ nodes) : nodes.lookup loc = some n := by
  induction nodes with
  | nil => cases h
  | cons e rest ih =>
    obtain ⟨hfirst, hrest⟩ := List.pairwise_cons.mp hnodup
    rw [List.lookup_cons]
    rcases List.mem_cons.mp h with rfl | h
    · simp
    · have hne : (loc == e.1) = false := by simpa using (hfirst _ h).symm
      rw [hne]
      exact ih hrest h

theorem node?_eq_some {d : Disk} (hs : d.Sound) {loc : Location} (ht : loc ≠ .top) {n : Node} :
    d.node? loc = some n ↔ (loc, n) ∈ d.nodes := by
  rw [node?, if_neg ht]
  exact ⟨mem_of_lookup, lookup_of_mem hs.locations⟩

theorem mem_files {d : Disk} {folder : String} {loc : Location} (hs : d.Sound)
    (hne : folder ≠ "") (hl : d.locate folder = .ok loc) :
    ∃ names, d.files folder = .ok names ∧ names.Nodup ∧
      ∀ name, name ∈ names ↔ pathFault? (Path.join folder name) = none ∧
        ∃ body, d.node? (loc.enter name) = some (.file body) := by
  rw [files, if_neg hne, hl]
  refine ⟨_, rfl, ?_, ?_⟩
  · refine hs.locations.filterMap _ ?_
    rintro ⟨l, n⟩ ⟨l', n'⟩ hll name hname name' hname' rfl
    -- two entries that give one name have one location
    cases n <;> cases n' <;> simp only [reduceCtorEq] at hname hname'
    rw [Option.filter_eq_some_iff, Location.nameIn?_eq_some] at hname hname'
    exact hll (hname.1.trans hname'.1.symm)
  · intro name
    rw [List.mem_filterMap]
    constructor
    · rintro ⟨⟨l, n⟩, hmem, hname⟩
      cases n <;> simp only [reduceCtorEq] at hname
      rename_i body
      rw [Option.filter_eq_some_iff, Location.nameIn?_eq_some] at hname
      obtain ⟨rfl, hfault⟩ := hname
      exact ⟨by simpa using hfault, body, (node?_eq_some hs (by simp)).mpr hmem⟩
    · rintro ⟨hfault, body, hbody⟩
      refine ⟨(loc.enter name, .file body), (node?_eq_some hs (by simp)).mp hbody, ?_⟩
      simp [hfault]

end Disk

/-! ## Bodies of segments -/

namespace Disk

/-- The body of the file that a segment has in a folder. -/
def bodyOf? (d : Disk) (folder : String) (s : Segment) : Option Nat :=
  match d.look (s.place folder) with
  | .ok (_, some (.file body)) => some body
  | _ => none

/-- A segment's path can be carried by the system interface, and its name fits in a folder. -/
def Speakable (folder : String) (s : Segment) : Prop :=
  pathFault? (s.path folder) = none ∧ s.name.utf8ByteSize ≤ nameLimit

theorem look_place {d : Disk} {folder : String} {loc : Location} {s : Segment}
    (hl : d.locate folder = .ok loc) (hs : Speakable folder s) :
    d.look (s.place folder) = .ok (loc.enter s.name, d.node? (loc.enter s.name)) := by
  have hfault : pathFault? (s.place folder).path = none := hs.1
  have hloc : d.locate (s.place folder).folder = .ok loc := hl
  have hchild : d.child loc (s.place folder).name = .ok (d.node? (loc.enter s.name)) :=
    if_neg (Nat.not_lt.mpr hs.2)
  simp only [look, hfault, hloc, hchild]
  rfl

theorem speakable_of_look {d : Disk} {folder : String} {s : Segment} {loc : Location}
    {n : Option Node} (h : d.look (s.place folder) = .ok (loc, n)) :
    Speakable folder s ∧ ∃ l, d.locate folder = .ok l := by
  unfold look at h
  split at h
  · cases h
  · cases h
  · rename_i l hfault hloc
    refine ⟨⟨hfault, ?_⟩, l, hloc⟩
    rw [child] at h
    split at h
    · cases h
    · rename_i hname
      exact Nat.not_lt.mp hname

theorem bodyOf?_eq_some {d : Disk} {folder : String} {loc : Location} {s : Segment} {body : Nat}
    (hl : d.locate folder = .ok loc) :
    d.bodyOf? folder s = some body ↔
      Speakable folder s ∧ d.node? (loc.enter s.name) = some (.file body) := by
  unfold bodyOf?
  constructor
  · intro h
    split at h
    · rename_i l body' hlook
      cases h
      have hs := (speakable_of_look hlook).1
      rw [look_place hl hs] at hlook
      simp only [Except.ok.injEq, Prod.mk.injEq] at hlook
      exact ⟨hs, hlook.2⟩
    · cases h
  · rintro ⟨hs, hnode⟩
    rw [look_place hl hs, hnode]

/-- A listing holds the segments that stand in the folder, each once. -/
theorem mem_list {d : Disk} {folder : String} {loc : Location} (hs : d.Sound)
    (hne : folder ≠ "") (hl : d.locate folder = .ok loc) :
    ∃ segments, Segment.list d folder = .ok (Segment.sort segments) ∧ segments.Nodup ∧
      ∀ s, s ∈ segments ↔ s.Named ∧ (d.bodyOf? folder s).isSome := by
  obtain ⟨names, hfiles, hnodup, hmem⟩ := mem_files hs hne hl
  refine ⟨names.filterMap Segment.ofName?, ?_, ?_, ?_⟩
  · rw [Segment.list, hfiles]
  · refine List.Pairwise.filterMap _ ?_ hnodup
    intro name name' hnn s hs' t ht hst
    subst hst
    exact hnn ((Segment.name_of_ofName? hs').symm.trans (Segment.name_of_ofName? ht))
  · intro s
    rw [List.mem_filterMap]
    constructor
    · rintro ⟨name, hname, hseg⟩
      obtain ⟨hfault, body, hbody⟩ := (hmem name).mp hname
      have hsn := Segment.name_of_ofName? hseg
      subst hsn
      have hfit := hs.names _ ((node?_eq_some hs (by simp)).mp hbody)
      refine ⟨hseg, ?_⟩
      rw [(bodyOf?_eq_some hl).mpr ⟨⟨hfault, hfit⟩, hbody⟩]
      rfl
    · rintro ⟨hnamed, hsome⟩
      obtain ⟨body, hbody⟩ := Option.isSome_iff_exists.mp hsome
      obtain ⟨hsp, hnode⟩ := (bodyOf?_eq_some hl).mp hbody
      exact ⟨s.name, (hmem s.name).mpr ⟨hsp.1, body, hnode⟩, hnamed⟩

end Disk

end SegmentLog
