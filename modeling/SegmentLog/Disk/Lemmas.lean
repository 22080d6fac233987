import SegmentLog.Disk

/-!
What each change to a disk does to its two views, the node at a location (`node?`) and the
contents of a file (`bodies`). A change of one location leaves every other as it was, and a change
of a body moves no name, so paths lead where they led (`walk_setBody`).
-/

namespace SegmentLog.Disk

theorem lookup_filter_self (nodes : List (Location × Node)) (loc : Location) :
    (nodes.filter (·.1 ≠ loc)).lookup loc = none := by
  rw [List.lookup_eq_none_iff]
  intro entry h
  have hne : entry.1 ≠ loc := by simpa using (List.mem_filter.mp h).2
  simpa using fun e => hne e.symm

theorem lookup_filter_of_ne (nodes : List (Location × Node)) {loc other : Location}
    (h : other ≠ loc) : (nodes.filter (·.1 ≠ loc)).lookup other = nodes.lookup other := by
  induction nodes with
  | nil => rfl
  | cons entry rest ih =>
    obtain ⟨l, n⟩ := entry
    by_cases hl : l = loc
    · have hne : (other == l) = false := by simpa [hl] using h
      rw [List.filter_cons_of_neg (by simpa using hl), List.lookup_cons, hne]
      exact ih
    · rw [List.filter_cons_of_pos (by simpa using hl), List.lookup_cons, List.lookup_cons, ih]

@[simp] theorem node?_top (d : Disk) : d.node? .top = some .folder := rfl

/-! ## Names -/

@[simp] theorem node?_unlink_self (d : Disk) (loc : Location) (h : loc ≠ .top) :
    (d.unlink loc).node? loc = none := by
  simp only [node?, h, if_false, unlink]
  exact lookup_filter_self d.nodes loc

theorem node?_unlink_of_ne (d : Disk) {loc other : Location} (h : other ≠ loc) :
    (d.unlink loc).node? other = d.node? other := by
  simp only [node?, unlink]
  rw [lookup_filter_of_ne d.nodes h]

@[simp] theorem node?_link_self (d : Disk) (loc : Location) (n : Node) (h : loc ≠ .top) :
    (d.link loc n).node? loc = some n := by
  simp [link, node?, h]

theorem node?_link_of_ne (d : Disk) {loc other : Location} (n : Node) (h : other ≠ loc) :
    (d.link loc n).node? other = d.node? other := by
  have hne : (other == loc) = false := by simpa using h
  simp only [link, node?, List.lookup_cons, hne, unlink]
  rw [lookup_filter_of_ne d.nodes h]

@[simp] theorem bodies_unlink (d : Disk) (loc : Location) :
    (d.unlink loc).bodies = d.bodies := rfl

@[simp] theorem bodies_link (d : Disk) (loc : Location) (n : Node) :
    (d.link loc n).bodies = d.bodies := rfl

/-! ## Bodies -/

@[simp] theorem bodies_setBody_self (d : Disk) (body : Nat) (new : Body) :
    (d.setBody body new).bodies body = new := by
  simp [setBody]

theorem bodies_setBody_of_ne (d : Disk) {body other : Nat} (new : Body) (h : other ≠ body) :
    (d.setBody body new).bodies other = d.bodies other := by
  simp [setBody, h]

@[simp] theorem refusals_unlink (d : Disk) (loc : Location) :
    (d.unlink loc).refusals = d.refusals := rfl

@[simp] theorem refusals_setBody (d : Disk) (body : Nat) (new : Body) :
    (d.setBody body new).refusals = d.refusals := rfl

@[simp] theorem refusals_create (d : Disk) (loc : Location) :
    (d.create loc).refusals = d.refusals := rfl

@[simp] theorem setBody_setBody (d : Disk) (body : Nat) (new new' : Body) :
    (d.setBody body new).setBody body new' = d.setBody body new' := by
  simp only [setBody, mk.injEq, true_and, and_true]
  funext b
  split <;> rfl

/-- Of the octets added to a regular file all get through, or a first part of them. -/
theorem append_file (d : Disk) (body : Nat) (bs : Octets) :
    d.append (.file body) bs = (.ok (), d.setBody body ((d.bodies body).append bs)) ∨
    ∃ count f, (d.refusals body).writing = some (count, f) ∧ count < bs.length ∧
      d.append (.file body) bs =
        (.error f, d.setBody body ((d.bodies body).append (bs.take count))) := by
  simp only [append]
  cases h : (d.refusals body).writing.filter (·.1 < bs.length) with
  | none => exact .inl rfl
  | some refusal =>
    obtain ⟨count, f⟩ := refusal
    obtain ⟨hwriting, hcount⟩ := Option.filter_eq_some_iff.mp h
    exact .inr ⟨count, f, hwriting, by simpa using hcount, rfl⟩

/-- Setting the length of a regular file does nothing but that. -/
theorem eq_of_resize {d d' : Disk} {body length : Nat}
    (h : d.resize (.file body) length = .ok d') :
    d' = d.setBody body ((d.bodies body).resize length) := by
  simp only [resize] at h
  repeat' split at h
  all_goals cases h
  all_goals rfl

theorem refusals_resize {d d' : Disk} {n : Node} {length : Nat} (h : d.resize n length = .ok d') :
    d'.refusals = d.refusals := by
  cases n with
  | file body =>
    rw [eq_of_resize h]
    rfl
  | _ =>
    simp only [resize] at h
    split at h <;> cases h

theorem refusals_remove {d d' : Disk} {p : Place} (h : d.remove p = .ok d') :
    d'.refusals = d.refusals := by
  unfold remove at h
  repeat' split at h
  all_goals cases h
  rfl

theorem refusals_openWrite {d d' : Disk} {p : Place} {n : Node} (h : d.openWrite p = .ok (n, d')) :
    d'.refusals = d.refusals := by
  unfold openWrite at h
  repeat' split at h
  all_goals cases h
  all_goals rfl

/-! ## Names on disks that have the same ones -/

section Same

variable {d e : Disk} (hn : e.nodes = d.nodes) (hh : e.here = d.here)
include hn

theorem walk_of_same (loc : Location) (names : List String) :
    e.walk loc names = d.walk loc names := by
  have hchild (loc : Location) (name : String) : e.child loc name = d.child loc name := by
    simp only [child, node?, hn]
  induction names generalizing loc with
  | nil => rfl
  | cons name rest ih => simp only [walk, ih, hchild]

include hh

theorem locate_of_same (folder : String) : e.locate folder = d.locate folder := by
  simp only [locate, start, hh, walk_of_same hn]

theorem look_of_same (p : Place) : e.look p = d.look p := by
  simp only [look, locate_of_same hn hh, child, node?, hn]

end Same

@[simp] theorem node?_setBody (d : Disk) (body : Nat) (new : Body) (loc : Location) :
    (d.setBody body new).node? loc = d.node? loc := rfl

@[simp] theorem child_setBody (d : Disk) (body : Nat) (new : Body) (loc : Location)
    (name : String) : (d.setBody body new).child loc name = d.child loc name := rfl

@[simp] theorem walk_setBody (d : Disk) (body : Nat) (new : Body) (loc : Location)
    (names : List String) : (d.setBody body new).walk loc names = d.walk loc names :=
  walk_of_same (d := d) (e := d.setBody body new) rfl loc names

@[simp] theorem locate_setBody (d : Disk) (body : Nat) (new : Body) (folder : String) :
    (d.setBody body new).locate folder = d.locate folder :=
  locate_of_same (d := d) (e := d.setBody body new) rfl rfl folder

@[simp] theorem look_setBody (d : Disk) (body : Nat) (new : Body) (p : Place) :
    (d.setBody body new).look p = d.look p :=
  look_of_same (d := d) (e := d.setBody body new) rfl rfl p

/-! ## New files -/

@[simp] theorem node?_create_self (d : Disk) (loc : Location) (h : loc ≠ .top) :
    (d.create loc).node? loc = some (.file d.nextBody) :=
  node?_link_self d loc (.file d.nextBody) h

theorem node?_create_of_ne (d : Disk) {loc other : Location} (h : other ≠ loc) :
    (d.create loc).node? other = d.node? other :=
  node?_link_of_ne d (.file d.nextBody) h

@[simp] theorem bodies_create_self (d : Disk) (loc : Location) :
    (d.create loc).bodies d.nextBody = {} := by
  simp [create, setBody]

theorem bodies_create_of_ne (d : Disk) (loc : Location) {body : Nat} (h : body ≠ d.nextBody) :
    (d.create loc).bodies body = d.bodies body := by
  simp [create, setBody, h, link, unlink]

/-! ## New folders -/

theorem refusals_makeFolder {d d' : Disk} {base loc : Location} {names : List String}
    (h : d.makeFolder base names = .ok (loc, d')) : d'.refusals = d.refusals := by
  unfold makeFolder at h
  repeat' split at h
  all_goals cases h
  rfl

theorem refusals_makeFolderAnyway {d d' : Disk} {base loc : Location} {names : List String}
    (h : d.makeFolderAnyway base names = .ok (loc, d')) : d'.refusals = d.refusals := by
  unfold makeFolderAnyway at h
  split at h
  · rename_i made hmade
    cases h
    exact refusals_makeFolder hmade
  · split at h
    · cases h
      rfl
    · cases h

theorem refusals_makeFoldersAt (d : Disk) (base : Location) (names : List String) :
    (d.makeFoldersAt base names).2.refusals = d.refusals := by
  fun_induction makeFoldersAt d base names with
  | case1 => rfl
  | case2 names hne this loc d' hmade => exact refusals_makeFolderAnyway hmade
  | case3 names hne this hmissing f d' habove ih =>
    rw [habove] at ih
    exact ih
  | case4 names hne this hmissing above d' habove loc d'' hmade ih =>
    rw [habove] at ih
    exact (refusals_makeFolderAnyway hmade).trans ih
  | case5 names hne this hmissing above d' habove f hrefused ih =>
    rw [habove] at ih
    exact ih
  | case6 => rfl

/-- What is refused for files is no matter of the folders that are made. -/
theorem refusals_makeFolders (d : Disk) (folder : String) :
    (d.makeFolders folder).2.refusals = d.refusals := by
  have hmade := refusals_makeFoldersAt d (d.start folder) (Path.parts folder)
  unfold makeFolders
  split
  · rfl
  · split <;> simp_all

end SegmentLog.Disk
