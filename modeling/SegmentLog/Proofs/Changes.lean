import SegmentLog.Proofs.Volumes

/-!
The changes a log makes to a disk, as changes of the volumes that its folder holds. Each change
also keeps the names clear under which segments are created.
-/

namespace SegmentLog.Disk

variable {d : Disk} {folder : String}

/-! ## Sound disks stay sound -/

theorem Sound.setBody (h : d.Sound) (body : Nat) (new : Body) : (d.setBody body new).Sound :=
  ⟨h.locations, h.bodies, h.inUse, h.names⟩

theorem Sound.unlink (h : d.Sound) (loc : Location) : (d.unlink loc).Sound := by
  have hsub : (d.unlink loc).nodes.Sublist d.nodes := List.filter_sublist
  refine ⟨h.locations.sublist hsub, h.bodies.sublist (hsub.filterMap _), ?_, ?_⟩
  · exact fun body hb => h.inUse body ((hsub.filterMap _).mem hb)
  · exact fun e he => h.names e (hsub.mem he)

/-- A node without a body of its own, where nothing stood. -/
theorem Sound.link (h : d.Sound) {loc : Location} {n : Node} (hn : n.body? = none)
    (hfit : (loc.names.headD "").utf8ByteSize ≤ nameLimit) : (d.link loc n).Sound := by
  have hrest := h.unlink loc
  refine ⟨List.pairwise_cons.mpr ⟨?_, hrest.locations⟩, ?_, ?_, ?_⟩
  · intro e he
    have hne : e.1 ≠ loc := by simpa using (List.mem_filter.mp he).2
    exact hne.symm
  · simpa only [Disk.link, List.filterMap_cons, hn] using hrest.bodies
  · simpa only [Disk.link, List.filterMap_cons, hn] using hrest.inUse
  · intro e he
    rcases List.mem_cons.mp he with rfl | he
    · exact hfit
    · exact hrest.names e he

theorem Sound.create (h : d.Sound) {loc : Location}
    (hfit : (loc.names.headD "").utf8ByteSize ≤ nameLimit) : (d.create loc).Sound := by
  have hrest := h.unlink loc
  have hnodes : (d.create loc).nodes = (loc, .file d.nextBody) :: (d.unlink loc).nodes := rfl
  have hbodies : (d.create loc).nodes.filterMap (·.2.body?) =
      d.nextBody :: (d.unlink loc).nodes.filterMap (·.2.body?) := by
    rw [hnodes, List.filterMap_cons]
    rfl
  refine ⟨?_, ?_, ?_, ?_⟩
  · rw [hnodes]
    refine List.pairwise_cons.mpr ⟨?_, hrest.locations⟩
    intro e he
    have hne : e.1 ≠ loc := by simpa using (List.mem_filter.mp he).2
    exact hne.symm
  · rw [hbodies]
    exact List.nodup_cons.mpr ⟨fun hb => Nat.lt_irrefl _ (hrest.inUse _ hb), hrest.bodies⟩
  · rw [hbodies]
    intro body hb
    have hnext : (d.create loc).nextBody = d.nextBody + 1 := rfl
    have hsame : (d.unlink loc).nextBody = d.nextBody := rfl
    rcases List.mem_cons.mp hb with rfl | hb
    · omega
    · have hlt := hrest.inUse body hb
      omega
  · rw [hnodes]
    intro e he
    rcases List.mem_cons.mp he with rfl | he
    · exact hfit
    · exact hrest.names e he

/-! ## What is refused stays as it is -/

theorem Tidy.of_refusals {d' : Disk} (h : d.Tidy) (hd : d'.refusals = d.refusals) : d'.Tidy := by
  rw [Tidy, hd]
  exact h

theorem Willing.of_refusals {d' : Disk} (h : d.Willing) (hd : d'.refusals = d.refusals) :
    d'.Willing := by
  rw [Willing, hd]
  exact h

/-! ## Bodies of segments after a change -/

@[simp] theorem bodyOf?_setBody (body : Nat) (new : Body) (s : Segment) :
    (d.setBody body new).bodyOf? folder s = d.bodyOf? folder s := by
  simp [bodyOf?]

theorem locate_create {loc : Location} {file : Location} (hl : d.locate folder = .ok loc)
    (hn : d.node? file = none) : (d.create file).locate folder = .ok loc := by
  have hhere : (d.create file).here = d.here := rfl
  refine locate_mono hhere ?_ hl
  intro l hfolder
  have hne : l ≠ file := by
    rintro rfl
    rw [hn] at hfolder
    cases hfolder
  rw [node?_create_of_ne d hne, hfolder]

theorem locate_unlink {loc : Location} {file : Location} {n : Node}
    (hl : d.locate folder = .ok loc) (hn : d.node? file = some n) (hnf : n ≠ .folder) :
    (d.unlink file).locate folder = .ok loc := by
  have hhere : (d.unlink file).here = d.here := rfl
  refine locate_mono hhere ?_ hl
  intro l hfolder
  have hne : l ≠ file := by
    rintro rfl
    rw [hn] at hfolder
    exact hnf (Option.some.inj hfolder)
  rw [node?_unlink_of_ne d hne, hfolder]

theorem bodyOf?_congr {d' : Disk} {loc : Location} {s : Segment} (hl : d.locate folder = .ok loc)
    (hl' : d'.locate folder = .ok loc)
    (hn : d'.node? (loc.enter s.name) = d.node? (loc.enter s.name)) :
    d'.bodyOf? folder s = d.bodyOf? folder s := by
  apply Option.ext
  intro body
  rw [bodyOf?_eq_some hl, bodyOf?_eq_some hl', hn]

section Create

variable {loc : Location} {s : Segment} (hl : d.locate folder = .ok loc)
  (hn : d.node? (loc.enter s.name) = none)
include hl hn

theorem bodyOf?_create_self (hsp : Speakable folder s) :
    (d.create (loc.enter s.name)).bodyOf? folder s = some d.nextBody :=
  (bodyOf?_eq_some (locate_create hl hn)).mpr ⟨hsp, node?_create_self d _ (by simp)⟩

theorem bodyOf?_create_of_ne {t : Segment} (h : t.name ≠ s.name) :
    (d.create (loc.enter s.name)).bodyOf? folder t = d.bodyOf? folder t :=
  bodyOf?_congr hl (locate_create hl hn) (node?_create_of_ne d (by simpa using h))

end Create

section Unlink

variable {loc : Location} {s : Segment} {body : Nat} (hl : d.locate folder = .ok loc)
  (hb : d.bodyOf? folder s = some body)
include hl hb

theorem locate_unlink_segment : (d.unlink (loc.enter s.name)).locate folder = .ok loc :=
  locate_unlink hl ((bodyOf?_eq_some hl).mp hb).2 (by simp)

theorem bodyOf?_unlink_self : (d.unlink (loc.enter s.name)).bodyOf? folder s = none := by
  rw [Option.eq_none_iff_forall_ne_some]
  intro b h
  have hnode := ((bodyOf?_eq_some (locate_unlink_segment hl hb)).mp h).2
  rw [node?_unlink_self d _ (by simp)] at hnode
  cases hnode

theorem bodyOf?_unlink_of_ne {t : Segment} (h : t.name ≠ s.name) :
    (d.unlink (loc.enter s.name)).bodyOf? folder t = d.bodyOf? folder t :=
  bodyOf?_congr hl (locate_unlink_segment hl hb) (node?_unlink_of_ne d (by simpa using h))

end Unlink

/-! ## The volumes of a folder after a change -/

namespace Holds

theorem list {vs : List Volume} (h : d.Holds folder vs) :
    Segment.list d folder = .ok (vs.map (·.segment)) := by
  obtain ⟨loc, hl⟩ := h.located
  obtain ⟨segments, hlist, hnodup, hmem⟩ := mem_list h.sound h.folder_ne hl
  have hnd : (vs.map (·.segment)).Nodup := by
    unfold List.Nodup
    refine h.ascending.imp ?_
    rintro s t hlt rfl
    exact UInt64.lt_irrefl _ hlt
  have hperm : (vs.map (·.segment)).Perm segments := by
    rw [List.perm_ext_iff_of_nodup hnd hnodup]
    intro s
    rw [hmem]
    constructor
    · intro hs
      obtain ⟨v, hv, rfl⟩ := List.mem_map.mp hs
      obtain ⟨hnamed, body, hbody, -⟩ := h.shows v hv
      exact ⟨hnamed, by rw [hbody]; rfl⟩
    · exact fun hs => h.complete s hs.1 hs.2
  rw [hlist, Segment.sort_eq_of_perm hperm h.ascending]

/-- A folder holds one list of volumes only. -/
theorem volumes_eq {vs : List Volume} (h : d.Holds folder vs) : d.volumes folder = vs := by
  simp only [volumes, h.list, List.map_map]
  rw [List.map_congr_left (g := id), List.map_id]
  intro v hv
  obtain ⟨-, body, hb, hoctets⟩ := h.shows v hv
  simp [hb, hoctets]

theorem named {vs : List Volume} (h : d.Holds folder vs) {v : Volume} (hv : v ∈ vs) :
    v.segment.Named := (h.shows v hv).1

/-- A segment that has a file is one of those held. -/
theorem exists_mem {vs : List Volume} (h : d.Holds folder vs) {s : Segment} {body : Nat}
    (hs : s.Named) (hb : d.bodyOf? folder s = some body) :
    ∃ v ∈ vs, v.segment = s ∧ (d.bodies body).octets = v.octets := by
  obtain ⟨v, hv, hvs⟩ := List.mem_map.mp (h.complete s hs (by rw [hb]; rfl))
  obtain ⟨-, b, hvb, hoctets⟩ := h.shows v hv
  rw [hvs, hb] at hvb
  cases hvb
  exact ⟨v, hv, hvs, hoctets⟩

section Split

variable {xs ys : List Volume} {v : Volume}

theorem ne_of_mem (h : d.Holds folder (xs ++ v :: ys)) {w : Volume} (hw : w ∈ xs ++ ys) :
    w.segment ≠ v.segment := by
  have hasc := h.ascending
  rw [List.map_append, List.map_cons, List.pairwise_append, List.pairwise_cons] at hasc
  obtain ⟨-, ⟨hv, -⟩, hcross⟩ := hasc
  intro he
  rcases List.mem_append.mp hw with hw | hw
  · have hlt := hcross _ (List.mem_map_of_mem hw) _ List.mem_cons_self
    exact UInt64.lt_irrefl _ (he ▸ hlt)
  · have hlt := hv _ (List.mem_map_of_mem hw)
    exact UInt64.lt_irrefl _ (he ▸ hlt)

theorem mem_of_rest {w : Volume} (hw : w ∈ xs ++ ys) : w ∈ xs ++ v :: ys := by
  simp only [List.mem_append, List.mem_cons] at hw ⊢
  rcases hw with hw | hw
  · exact .inl hw
  · exact .inr (.inr hw)

theorem setBody (h : d.Holds folder (xs ++ v :: ys)) {body : Nat}
    (hb : d.bodyOf? folder v.segment = some body) (new : Body) :
    (d.setBody body new).Holds folder (xs ++ ⟨v.segment, new.octets⟩ :: ys) := by
  have hnamed := h.named (v := v) (by simp)
  have hmap : (xs ++ ⟨v.segment, new.octets⟩ :: ys).map (·.segment) =
      (xs ++ v :: ys).map (·.segment) := by simp
  refine ⟨h.sound.setBody body new, h.tidy, h.folder_ne, ?_, ?_, ?_, ?_⟩
  · simpa using h.located
  · intro w hw
    by_cases hwv : w = ⟨v.segment, new.octets⟩
    · subst hwv
      exact ⟨hnamed, body, by simpa using hb, by simp⟩
    · have hrest : w ∈ xs ++ ys := by
        simp only [List.mem_append, List.mem_cons, hwv, false_or] at hw ⊢
        exact hw
      obtain ⟨hwn, b, hwb, hoctets⟩ := h.shows w (mem_of_rest hrest)
      have hne : b ≠ body := by
        rintro rfl
        exact h.ne_of_mem hrest (h.sound.eq_of_bodyOf? hwn hnamed hwb hb)
      exact ⟨hwn, b, by simpa using hwb, by rw [bodies_setBody_of_ne d new hne, hoctets]⟩
  · intro s hs hsome
    rw [hmap]
    exact h.complete s hs (by simpa using hsome)
  · rw [hmap]
    exact h.ascending

theorem unlink (h : d.Holds folder (xs ++ v :: ys)) {loc : Location}
    (hl : d.locate folder = .ok loc) :
    (d.unlink (loc.enter v.segment.name)).Holds folder (xs ++ ys) := by
  obtain ⟨hnamed, body, hb, -⟩ := h.shows v (by simp)
  have hother : ∀ t : Segment, t.Named → t ≠ v.segment → t.name ≠ v.segment.name :=
    fun t ht hne he => hne (ht.eq_of_name hnamed he)
  have hsub : (xs ++ ys).Sublist (xs ++ v :: ys) :=
    List.Sublist.append_left (List.sublist_cons_self v ys) xs
  refine ⟨h.sound.unlink _, h.tidy, h.folder_ne, ⟨loc, locate_unlink_segment hl hb⟩, ?_, ?_, ?_⟩
  · intro w hw
    obtain ⟨hwn, b, hwb, hoctets⟩ := h.shows w (mem_of_rest hw)
    refine ⟨hwn, b, ?_, hoctets⟩
    rw [bodyOf?_unlink_of_ne hl hb (hother _ hwn (h.ne_of_mem hw)), hwb]
  · intro s hs hsome
    have hne : s ≠ v.segment := by
      rintro rfl
      rw [bodyOf?_unlink_self hl hb] at hsome
      cases hsome
    rw [bodyOf?_unlink_of_ne hl hb (hother s hs hne)] at hsome
    have hmem := h.complete s hs hsome
    simp only [List.map_append, List.map_cons, List.mem_append, List.mem_cons, hne, false_or] at hmem
    simpa using hmem
  · exact h.ascending.sublist (hsub.map _)

end Split

theorem create {vs : List Volume} (h : d.Holds folder vs) {loc : Location} {s : Segment}
    (hl : d.locate folder = .ok loc) (hs : s.Named) (hsp : Speakable folder s)
    (hn : d.node? (loc.enter s.name) = none) (habove : ∀ v ∈ vs, v.segment.id < s.id) :
    (d.create (loc.enter s.name)).Holds folder (vs ++ [⟨s, []⟩]) := by
  have hname : ∀ t : Segment, t.Named → t ≠ s → t.name ≠ s.name :=
    fun t ht hne he => hne (ht.eq_of_name hs he)
  have hne : ∀ v ∈ vs, v.segment ≠ s :=
    fun v hv he => UInt64.lt_irrefl _ (he ▸ habove v hv)
  refine ⟨h.sound.create hsp.2, h.tidy, h.folder_ne, ⟨loc, locate_create hl hn⟩, ?_, ?_, ?_⟩
  · intro w hw
    rcases List.mem_append.mp hw with hw | hw
    · obtain ⟨hwn, b, hwb, hoctets⟩ := h.shows w hw
      refine ⟨hwn, b, ?_, ?_⟩
      · rw [bodyOf?_create_of_ne hl hn (hname _ hwn (hne w hw)), hwb]
      · rw [bodies_create_of_ne d _ (Nat.ne_of_lt (h.sound.bodyOf?_lt hwb)), hoctets]
    · rw [List.mem_singleton.mp hw]
      exact ⟨hs, d.nextBody, bodyOf?_create_self hl hn hsp, by simp⟩
  · intro t ht hsome
    rw [List.map_append, List.mem_append]
    by_cases hts : t = s
    · exact .inr (by simp [hts])
    · rw [bodyOf?_create_of_ne hl hn (hname t ht hts)] at hsome
      exact .inl (h.complete t ht hsome)
  · rw [List.map_append, List.pairwise_append]
    refine ⟨h.ascending, by simp, ?_⟩
    intro t ht u hu
    obtain ⟨v, hv, rfl⟩ := List.mem_map.mp ht
    simp only [List.map_cons, List.map_nil, List.mem_singleton] at hu
    rw [hu]
    exact habove v hv

theorem skips {vs : List Volume} {d' : Disk} (h : d.Holds folder vs)
    (hd : Skips folder d d') : d'.Holds folder vs := by
  refine ⟨hd.sound, hd.tidy h.tidy, h.folder_ne, ?_, ?_, ?_, h.ascending⟩
  · rw [hd.locate]
    exact h.located
  · intro v hv
    obtain ⟨hnamed, body, hb, hoctets⟩ := h.shows v hv
    exact ⟨hnamed, body, by rw [hd.body _ hnamed, hb], by rw [hd.octets _ hnamed _ hb, hoctets]⟩
  · intro s hs hsome
    rw [hd.body s hs] at hsome
    exact h.complete s hs hsome

theorem spares {vs : List Volume} {d' : Disk} (h : d.Holds folder vs)
    (hd : Spares folder d d') : d'.Holds folder vs :=
  h.skips hd.skips

end Holds

/-! ## Clear names stay clear -/

theorem Clear.setBody (h : d.Clear folder) (body : Nat) (new : Body) :
    (d.setBody body new).Clear folder := by
  intro id
  obtain ⟨loc, n, hlook, hn⟩ := h id
  exact ⟨loc, n, by simpa using hlook, hn⟩

theorem Clear.create (h : d.Clear folder) {loc file : Location} (hl : d.locate folder = .ok loc)
    (hn : d.node? file = none) (ht : file ≠ .top) : (d.create file).Clear folder := by
  intro id
  obtain ⟨l, n, hlook, hnode⟩ := h id
  have hsp := (speakable_of_look hlook).1
  rw [look_place hl hsp, Except.ok.injEq, Prod.mk.injEq] at hlook
  refine ⟨_, _, look_place (locate_create hl hn) hsp, ?_⟩
  by_cases hf : loc.enter (Segment.ofId id).name = file
  · rw [hf, node?_create_self d _ ht]
    exact ⟨by simp, by simp⟩
  · rw [node?_create_of_ne d hf, hlook.2]
    exact hnode

theorem Clear.unlink (h : d.Clear folder) {loc file : Location} {n : Node}
    (hl : d.locate folder = .ok loc) (hn : d.node? file = some n) (hnf : n ≠ .folder)
    (ht : file ≠ .top) : (d.unlink file).Clear folder := by
  intro id
  obtain ⟨l, m, hlook, hnode⟩ := h id
  have hsp := (speakable_of_look hlook).1
  rw [look_place hl hsp, Except.ok.injEq, Prod.mk.injEq] at hlook
  refine ⟨_, _, look_place (locate_unlink hl hn hnf) hsp, ?_⟩
  by_cases hf : loc.enter (Segment.ofId id).name = file
  · rw [hf, node?_unlink_self d _ ht]
    exact ⟨by simp, by simp⟩
  · rw [node?_unlink_of_ne d hf, hlook.2]
    exact hnode

end SegmentLog.Disk
