import SegmentLog.Proofs.Appending

/-!
Opening a log. A folder that is there is not made again (`Disk.makeFolders_of_locate`); its last
segment is opened for appending, the first one created where there is none (`Appender.start_spec`).
Intact volumes are replayed whole under every policy (`Log.start_of_intact`). With damage the replay
stops there, and the log is cut: the segments behind go and the damaged one is shortened
(`Appender.cut_spec`), so that what is left is intact. Nothing else on the disk is touched
(`Disk.Untouched`).
-/

namespace SegmentLog

/-! ## Folders that are there -/

namespace Disk

variable {d : Disk}

theorem walk_append (base : Location) (names rest : List String) :
    d.walk base (names ++ rest) =
      match d.walk base names with
      | .error f => .error f
      | .ok loc => d.walk loc rest := by
  induction names generalizing base with
  | nil => rfl
  | cons name names ih =>
    rw [List.cons_append, walk, walk]
    split
    · exact ih base
    · split
      · exact ih base.leave
      · cases d.child base name with
        | error f => rfl
        | ok n =>
          cases n with
          | none => rfl
          | some n =>
            cases n with
            | folder => exact ih (base.enter name)
            | file body => rfl
            | full => rfl

/-- No folder is made where a path leads to one. -/
theorem makeFolder_of_walk {base loc : Location} {names : List String}
    (h : d.walk base names = .ok loc) : ∃ f, d.makeFolder base names = .error f := by
  unfold makeFolder
  cases hlast : names.getLast? with
  | none =>
    cases d.walk base names.dropLast with
    | error f => exact ⟨f, rfl⟩
    | ok l => exact ⟨.nameTaken, rfl⟩
  | some name =>
    have hnames : names.dropLast ++ [name] = names := List.dropLast_append_getLast? name hlast
    rw [← hnames, walk_append] at h
    cases hw : d.walk base names.dropLast with
    | error f => exact ⟨f, rfl⟩
    | ok l =>
      rw [hw] at h
      dsimp only at h ⊢
      split
      · exact ⟨.nameTaken, rfl⟩
      · rename_i hdots
        rw [walk, if_neg fun hd => hdots (.inl hd), if_neg fun hd => hdots (.inr hd)] at h
        cases hc : d.child l name with
        | error f => exact ⟨f, rfl⟩
        | ok n =>
          cases n with
          | none => simp [hc] at h
          | some n => exact ⟨.nameTaken, rfl⟩

theorem makeFoldersAt_of_walk {base loc : Location} {names : List String}
    (h : d.walk base names = .ok loc) : ∃ l, d.makeFoldersAt base names = (.ok l, d) := by
  rw [makeFoldersAt]
  by_cases hnames : names = []
  · exact ⟨base, by rw [dif_pos hnames]⟩
  · obtain ⟨f, hmake⟩ := makeFolder_of_walk h
    have hanyway : d.makeFolderAnyway base names = .ok (loc, d) := by
      simp only [makeFolderAnyway, hmake, h]
    exact ⟨loc, by rw [dif_neg hnames, hanyway]⟩

theorem makeFolders_of_locate {folder : String} {loc : Location}
    (h : d.locate folder = .ok loc) : d.makeFolders folder = (.ok (), d) := by
  unfold locate at h
  unfold makeFolders
  cases hfault : pathFault? folder with
  | some f => simp [hfault] at h
  | none =>
    simp only [hfault] at h ⊢
    obtain ⟨l, hat⟩ := makeFoldersAt_of_walk h
    rw [hat]

/-! ## What is not touched -/

/-- A location has the same node on both disks, and a file there the same octets. -/
structure Untouched (d d' : Disk) (l : Location) : Prop where
  node : d'.node? l = d.node? l
  octets : ∀ body, d.node? l = some (.file body) → (d'.bodies body).octets = (d.bodies body).octets

theorem Untouched.refl (d : Disk) (l : Location) : Untouched d d l := ⟨rfl, fun _ _ => rfl⟩

theorem Untouched.trans {d' d'' : Disk} {l : Location} (h : Untouched d d' l)
    (h' : Untouched d' d'' l) : Untouched d d'' l :=
  ⟨h'.node.trans h.node,
    fun body hb => (h'.octets body (h.node.trans hb)).trans (h.octets body hb)⟩

theorem untouched_unlink {file l : Location} (hl : l ≠ file) : Untouched d (d.unlink file) l :=
  ⟨node?_unlink_of_ne d hl, fun _ _ => rfl⟩

theorem untouched_create (hs : d.Sound) {file l : Location} (hl : l ≠ file) :
    Untouched d (d.create file) l := by
  refine ⟨node?_create_of_ne d hl, fun body hb => ?_⟩
  have htop : l ≠ .top := by
    rintro rfl
    rw [node?_top] at hb
    cases hb
  have hlt := hs.inUse body (mem_bodies ((node?_eq_some hs htop).mp hb) rfl)
  rw [bodies_create_of_ne d file (Nat.ne_of_lt hlt)]

theorem untouched_setBody_of_node (hs : d.Sound) {file l : Location} {body : Nat}
    (ht : file ≠ .top) (hn : d.node? file = some (.file body)) (new : Body) (hl : l ≠ file) :
    Untouched d (d.setBody body new) l := by
  refine ⟨node?_setBody d body new l, fun other ho => ?_⟩
  have htop : l ≠ .top := by
    rintro rfl
    rw [node?_top] at ho
    cases ho
  rw [node?_eq_some hs ht] at hn
  rw [node?_eq_some hs htop] at ho
  rw [bodies_setBody_of_ne d new]
  rintro rfl
  have he := eq_of_body hs.bodies ho hn rfl rfl
  exact hl (congrArg Prod.fst he)

theorem untouched_setBody (hs : d.Sound) {folder : String} {loc l : Location} {s : Segment}
    {body : Nat} (hloc : d.locate folder = .ok loc) (hb : d.bodyOf? folder s = some body)
    (new : Body) (hl : l ≠ loc.enter s.name) : Untouched d (d.setBody body new) l :=
  untouched_setBody_of_node hs (by simp) ((bodyOf?_eq_some hloc).mp hb).2 new hl

/-- Opening a segment for writing touches nothing but its own place. -/
theorem untouched_openWrite (hs : d.Sound) {folder : String} {loc l : Location} {s : Segment}
    {n : Node} {d' : Disk} (hloc : d.locate folder = .ok loc)
    (h : d.openWrite (s.place folder) = .ok (n, d')) (hl : l ≠ loc.enter s.name) :
    Untouched d d' l := by
  unfold openWrite at h
  cases hlook : d.look (s.place folder) with
  | error f => simp [hlook] at h
  | ok found =>
    obtain ⟨at', node⟩ := found
    have hplace := look_place hloc (speakable_of_look hlook).1
    rw [hlook, Except.ok.injEq, Prod.mk.injEq] at hplace
    obtain ⟨rfl, -⟩ := hplace
    rw [hlook] at h
    cases node with
    | none =>
      cases h
      exact untouched_create hs hl
    | some node =>
      cases node with
      | folder => cases h
      | file body =>
        dsimp only at h
        split at h
        · cases h
        · cases h
          exact Untouched.refl d l
      | full =>
        cases h
        exact Untouched.refl d l

end Disk

/-! ## The last segment -/

namespace Appender

variable {d : Disk} {settings : Settings} {vs : List Volume}

/-- The appender of these settings before it has a segment. -/
def blank (settings : Settings) : Appender where
  folder := settings.folder
  active := Segment.ofId Segment.firstId
  file := none
  offset := 0
  segmentLimit := settings.segmentLimit
  bufferLimit := settings.bufferLimit
  sync := settings.sync

/-- The volumes of a folder once it is opened. In an empty one the first segment is created. -/
def withFirst (vs : List Volume) : List Volume :=
  if vs = [] then [⟨Segment.ofId Segment.firstId, []⟩] else vs

theorem lastOf_append (front : List Volume) (v : Volume) :
    lastOf ((front ++ [v]).map (·.segment)) = v.segment := by
  simp [lastOf]

/-- Without volumes only a full device can be open. -/
theorem Tracks.file_of_nil {a : Appender} (h : Tracks a d []) {n : Node} (hn : a.file = some n) :
    n = .full := by
  generalize hnil : ([] : List Volume) = vs at h
  cases h with
  | on h => simp at hnil
  | off h => exact h.file n hn

/-- What an opening of the last segment does to the folder. Only an empty folder changes, and only
by its first segment. -/
structure Opens (settings : Settings) (d : Disk) (vs : List Volume) (a : Appender) (d' : Disk)
    (ws : List Volume) : Prop where
  active : a.active = lastOf (vs.map (·.segment))
  tracks : Tracks a d' ws
  volumes : ws = vs ∨ vs = [] ∧ ws = withFirst []
  first : d.Clear settings.folder → ws = withFirst vs
  ready : d.Clear settings.folder → d.Willing → a.Ready d'
  same : vs ≠ [] → d' = d
  untouched : ∀ loc l, d.locate settings.folder = .ok loc →
    (vs = [] → l ≠ loc.enter (Segment.fileName Segment.firstId)) → d.Untouched d' l

/-- The first segment holds nothing when it is created. -/
theorem Opens.intact {a : Appender} {d' : Disk} {ws : List Volume} (h : Opens settings d vs a d' ws)
    (hi : Intact vs) : Intact ws ∧ recordsIn ws = recordsIn vs := by
  rcases h.volumes with rfl | ⟨rfl, rfl⟩
  · exact ⟨hi, rfl⟩
  · exact ⟨intact_singleton.mpr Octets.whole_nil, by simp [withFirst]⟩

/-- In an empty folder an appender starts with the first segment. -/
theorem opens_first (h : d.Holds settings.folder []) {n : Node} {length : Nat} {d' : Disk}
    (hopen : openSegment d settings.folder (Segment.ofId Segment.firstId) = .ok (n, length, d')) :
    ∃ ws, Opens settings d []
      ((blank settings).moveTo (Segment.ofId Segment.firstId) n length) d' ws := by
  have habove : ∀ v ∈ ([] : List Volume), v.segment.id < Segment.firstId := by simp
  obtain ⟨hbehind, hready⟩ := openSegment_behind (a := blank settings) h habove hopen
  have huntouched : ∀ loc l, d.locate settings.folder = .ok loc →
      (([] : List Volume) = [] → l ≠ loc.enter (Segment.fileName Segment.firstId)) →
      d.Untouched d' l := by
    intro loc l hl hne
    unfold openSegment at hopen
    cases hwrite : d.openWrite ((Segment.ofId Segment.firstId).place settings.folder) with
    | error f => simp [hwrite] at hopen
    | ok opened =>
      obtain ⟨n', d₁⟩ := opened
      rw [hwrite] at hopen
      cases hopen
      exact Disk.untouched_openWrite h.sound hl hwrite (hne rfl)
  rcases hbehind with hoff | hon
  · exact ⟨[], rfl, .off hoff, .inl rfl, fun hc => absurd (hoff.file n rfl) (hready hc).1,
      fun hc => (hready hc).2, fun hne => absurd rfl hne, huntouched⟩
  · exact ⟨_, rfl, .on hon, .inr ⟨rfl, rfl⟩, fun _ => rfl, fun hc => (hready hc).2,
      fun hne => absurd rfl hne, huntouched⟩

/-- An appender goes on in the last segment that is there. -/
theorem opens_last {front : List Volume} {v : Volume} (h : d.Holds settings.folder (front ++ [v])) :
    ∃ n, openSegment d settings.folder v.segment = .ok (n, v.octets.length, d) ∧
      Opens settings d (front ++ [v]) ((blank settings).moveTo v.segment n v.octets.length) d
        (front ++ [v]) := by
  obtain ⟨-, body, hb, hoctets⟩ := h.shows v (by simp)
  have hlength : d.size (.file body) = v.octets.length := by
    rw [← hoctets, Body.length_octets]
    rfl
  have hne : front ++ [v] ≠ [] := by simp
  refine ⟨.file body, ?_, (lastOf_append front v).symm, ?_, .inl rfl, fun _ => ?_,
    fun hc hw => ⟨hc, hw, by simp [moveTo]⟩, fun _ => rfl, fun _ l _ _ => Disk.Untouched.refl d l⟩
  · rw [openSegment, Disk.openWrite_of_bodyOf? h.tidy hb]
    simp only [hlength]
  · exact .on (onFile_moveTo h hb rfl)
  · rw [withFirst, if_neg hne]

/-- Once the last segment is open an appender starts there. -/
theorem start_of_openSegment (h : d.Holds settings.folder vs) {n : Node} {length : Nat} {d' : Disk}
    (hopen : openSegment d settings.folder (lastOf (vs.map (·.segment))) = .ok (n, length, d')) :
    Appender.start d settings =
      (.ok ((blank settings).moveTo (lastOf (vs.map (·.segment))) n length), d') := by
  obtain ⟨loc, hl⟩ := h.located
  have hmake := Disk.makeFolders_of_locate hl
  have hlist := h.list
  simp only [Appender.start, hmake, hlist, hopen]
  rfl

/-- Where there is a segment an appender starts, and nothing is changed. -/
theorem start_of_ne_nil (h : d.Holds settings.folder vs) (hne : vs ≠ []) :
    ∃ n length, Appender.start d settings =
        (.ok ((blank settings).moveTo (lastOf (vs.map (·.segment))) n length), d) ∧
      Opens settings d vs ((blank settings).moveTo (lastOf (vs.map (·.segment))) n length) d vs := by
  obtain ⟨front, v, rfl⟩ := (List.eq_nil_or_concat vs).resolve_left hne
  rw [List.concat_eq_append] at h ⊢
  obtain ⟨n, hopen, hopens⟩ := opens_last h
  rw [← lastOf_append front v] at hopen hopens
  exact ⟨n, _, start_of_openSegment h hopen, hopens⟩

/-- An appender starts where the volumes of its folder end. It is refused only where something
other than a file stands at the place of the first segment. -/
theorem start_spec (h : d.Holds settings.folder vs) :
    (∃ n length d' ws,
      Appender.start d settings =
        (.ok ((blank settings).moveTo (lastOf (vs.map (·.segment))) n length), d') ∧
      Opens settings d vs ((blank settings).moveTo (lastOf (vs.map (·.segment))) n length) d' ws) ∨
    (∃ e, Appender.start d settings = (.error e, d) ∧ e.isIo = true ∧
      ¬ d.Clear settings.folder) := by
  by_cases hne : vs = []
  · subst hne
    obtain ⟨loc, hl⟩ := h.located
    have hmake := Disk.makeFolders_of_locate hl
    have hlist := h.list
    cases hopen : openSegment d settings.folder (lastOf (([] : List Volume).map (·.segment))) with
    | error e =>
      refine .inr ⟨e, by simp only [Appender.start, hmake, hlist, hopen], ?_, ?_⟩
      · unfold openSegment at hopen
        split at hopen
        · cases hopen
          rfl
        · cases hopen
      · intro hc
        obtain ⟨_, _, hok⟩ := hc.openWrite h.tidy Segment.firstId
        have hfirst : openSegment d settings.folder (Segment.ofId Segment.firstId) = .error e := hopen
        rw [openSegment, hok] at hfirst
        cases hfirst
    | ok opened =>
      obtain ⟨n, length, d'⟩ := opened
      obtain ⟨ws, hopens⟩ := opens_first h hopen
      exact .inl ⟨n, length, d', ws, start_of_openSegment h hopen, hopens⟩
  · obtain ⟨n, length, hstart, hopens⟩ := start_of_ne_nil h hne
    exact .inl ⟨n, length, d, vs, hstart, hopens⟩

/-! ## Cutting -/

section Cut

variable {folder : String} {keep back : List Volume} {loc : Location}

/-- Segments up to a number are not removed. -/
theorem removeAbove_append {id : UInt64} {kept : List Segment} (rest : List Segment)
    (h : ∀ s ∈ kept, ¬ id < s.id) :
    removeAbove d folder id (kept ++ rest) = removeAbove d folder id rest := by
  induction kept with
  | nil => rfl
  | cons s kept ih =>
    rw [List.cons_append, removeAbove, if_neg (h s List.mem_cons_self)]
    exact ih fun t ht => h t (List.mem_cons_of_mem _ ht)

/-- The segments above a number are removed, and nothing else is touched. -/
theorem removeAbove_back (h : d.Holds folder (keep ++ back)) (hl : d.locate folder = .ok loc)
    {id : UInt64} (habove : ∀ w ∈ back, id < w.segment.id) :
    ∃ d', removeAbove d folder id (back.map (·.segment)) = (.ok (), d') ∧
      d'.Holds folder keep ∧ d'.locate folder = .ok loc ∧ (d.Clear folder → d'.Clear folder) ∧
      (d.Willing → d'.Willing) ∧
      ∀ l, (∀ w ∈ back, l ≠ loc.enter w.segment.name) → d.Untouched d' l := by
  induction back generalizing d with
  | nil =>
    exact ⟨d, rfl, by simpa using h, hl, fun hc => hc, fun hw => hw,
      fun l _ => Disk.Untouched.refl d l⟩
  | cons w back ih =>
    obtain ⟨-, body, hb, -⟩ := h.shows w (by simp)
    obtain ⟨l, hl', hlook⟩ := Disk.look_of_bodyOf? hb
    obtain rfl : loc = l := Except.ok.inj (hl.symm.trans hl')
    have hnode := ((Disk.bodyOf?_eq_some hl).mp hb).2
    have hremove : d.remove (w.segment.place folder) = .ok (d.unlink (loc.enter w.segment.name)) := by
      simp only [Disk.remove, hlook, Disk.refusalsOf, (h.tidy body).removing]
    obtain ⟨d', hrest, hholds, hloc, hclear, hwilling, huntouched⟩ :=
      ih (h.unlink hl) (Disk.locate_unlink_segment hl hb)
        fun u hu => habove u (List.mem_cons_of_mem _ hu)
    refine ⟨d', ?_, hholds, hloc, ?_, hwilling, ?_⟩
    · rw [List.map_cons, removeAbove, if_pos (habove w List.mem_cons_self)]
      simp only [hremove, hrest]
    · exact fun hc => hclear (hc.unlink hl hnode (by simp) (by simp))
    · intro l hne
      exact (Disk.untouched_unlink (hne w List.mem_cons_self)).trans
        (huntouched l fun u hu => hne u (List.mem_cons_of_mem _ hu))

theorem find_of_ascending {front : List Volume} {v : Volume}
    (h : ((front ++ v :: back).map (·.segment)).Pairwise (·.id < ·.id)) :
    find ((front ++ v :: back).map (·.segment)) v.segment.id = v.segment := by
  have hfilter : ((front ++ v :: back).map (·.segment)).filter (·.id = v.segment.id) =
      [v.segment] := by
    rw [List.map_append, List.map_cons, List.pairwise_append, List.pairwise_cons] at h
    obtain ⟨-, ⟨hback, -⟩, hfront⟩ := h
    have hnone : (back.map (·.segment)).filter (·.id = v.segment.id) = [] := by
      rw [List.filter_eq_nil_iff]
      intro s hs he
      have hlt := hback s hs
      rw [of_decide_eq_true he] at hlt
      exact UInt64.lt_irrefl _ hlt
    have hnone' : (front.map (·.segment)).filter (·.id = v.segment.id) = [] := by
      rw [List.filter_eq_nil_iff]
      intro s hs he
      have hlt := hfront s hs v.segment List.mem_cons_self
      rw [of_decide_eq_true he] at hlt
      exact UInt64.lt_irrefl _ hlt
    rw [List.map_append, List.map_cons, List.filter_append, hnone', List.nil_append,
      List.filter_cons_of_pos (by simp), hnone]
  rw [find, hfilter]
  rfl

/-- After a cut the segments behind it are gone, the one it is in ends there, and appending goes
on at that place. -/
theorem cut_spec {a : Appender} {front : List Volume} {v : Volume} {offset : Nat}
    (h : d.Holds a.folder (front ++ v :: back)) (hl : d.locate a.folder = .ok loc)
    (hopen : a.closed = false) (ho : offset ≤ v.octets.length) :
    ∃ body d', a.cut d v.segment.id offset =
        (.ok (), a.moveTo v.segment (.file body) offset, d') ∧
      d'.Holds a.folder (front ++ [⟨v.segment, v.octets.take offset⟩]) ∧
      d'.bodyOf? a.folder v.segment = some body ∧ (d.Clear a.folder → d'.Clear a.folder) ∧
      (d.Willing → d'.Willing) ∧
      ∀ l, (∀ w ∈ v :: back, l ≠ loc.enter w.segment.name) → d.Untouched d' l := by
  have hasc := h.ascending
  have hfind := find_of_ascending hasc
  rw [List.map_append, List.map_cons, List.pairwise_append, List.pairwise_cons] at hasc
  obtain ⟨-, ⟨hback, -⟩, hfront⟩ := hasc
  have hkept : ∀ s ∈ (front ++ [v]).map (·.segment), ¬ v.segment.id < s.id := by
    intro s hs hlt
    rw [List.map_append, List.mem_append] at hs
    rcases hs with hs | hs
    · exact UInt64.lt_asymm hlt (hfront s hs v.segment List.mem_cons_self)
    · rw [List.mem_singleton.mp hs] at hlt
      exact UInt64.lt_irrefl _ hlt
  have hsplit : front ++ v :: back = (front ++ [v]) ++ back := by simp
  have hlist := h.list
  rw [hsplit] at h hlist hfind
  obtain ⟨d₁, hremove, hholds₁, hl₁, hclear₁, hwilling₁, huntouched₁⟩ :=
    removeAbove_back h hl fun w hw => hback _ (List.mem_map_of_mem hw)
  obtain ⟨-, body, hb, hoctets⟩ := hholds₁.shows v (by simp)
  have hlength : (d₁.bodies body).length = v.octets.length := by
    rw [← Body.length_octets, hoctets]
  have hcut : ((d₁.bodies body).resize offset).octets = v.octets.take offset := by
    rw [Body.octets_resize, hoctets, hlength, Nat.sub_eq_zero_of_le ho]
    simp
  have hholds₂ := hholds₁.setBody hb ((d₁.bodies body).resize offset)
  rw [hcut] at hholds₂
  have hb₂ : (d₁.setBody body ((d₁.bodies body).resize offset)).bodyOf? a.folder v.segment =
      some body := by simpa using hb
  have hresize : d₁.resize (.file body) offset =
      .ok (d₁.setBody body ((d₁.bodies body).resize offset)) := by
    simp only [Disk.resize, (hholds₁.tidy body).resizing]
    rw [if_pos (by omega)]
  have hsize : (d₁.setBody body ((d₁.bodies body).resize offset)).size (.file body) = offset := by
    rw [Disk.size, Disk.bodies_setBody_self, ← Body.length_octets, hcut, List.length_take]
    omega
  refine ⟨body, d₁.setBody body ((d₁.bodies body).resize offset), ?_, hholds₂, hb₂,
    fun hc => (hclear₁ hc).setBody _ _, hwilling₁, ?_⟩
  · have hrun : removeAbove d a.folder v.segment.id
        (((front ++ [v]) ++ back).map (·.segment)) = (.ok (), d₁) := by
      rw [List.map_append, removeAbove_append _ hkept, hremove]
    have hshort : resizeSegment d₁ a.folder v.segment offset =
        (.ok (), d₁.setBody body ((d₁.bodies body).resize offset)) := by
      simp only [resizeSegment, openSegment, Disk.openWrite_of_bodyOf? hholds₁.tidy hb, hresize,
        Disk.sync, (hholds₂.tidy body).syncing]
    have hagain : openSegment (d₁.setBody body ((d₁.bodies body).resize offset)) a.folder
        v.segment = .ok (.file body, offset, d₁.setBody body ((d₁.bodies body).resize offset)) := by
      rw [openSegment, Disk.openWrite_of_bodyOf? hholds₂.tidy hb₂]
      simp only [hsize]
    simp only [Appender.cut, hopen, Bool.false_eq_true, if_false, hlist, hrun, hfind, hshort,
      hagain, moveTo]
  · intro l hne
    exact (huntouched₁ l fun w hw => hne w (List.mem_cons_of_mem _ hw)).trans
      (Disk.untouched_setBody hholds₁.sound hl₁ hb _ (hne v List.mem_cons_self))

/-- A cut at a place on disk is granted, and the appender goes on there. -/
theorem tracks_cut {a : Appender} {vs : List Volume} {v : Volume} {offset : Nat}
    (h : d.Holds a.folder vs) (hopen : a.closed = false) (hv : v ∈ vs)
    (ho : offset ≤ v.octets.length) :
    ∃ front back n d', vs = front ++ v :: back ∧
      a.cut d v.segment.id offset = (.ok (), a.moveTo v.segment n offset, d') ∧
      Tracks (a.moveTo v.segment n offset) d' (front ++ [⟨v.segment, v.octets.take offset⟩]) := by
  obtain ⟨front, back, rfl⟩ := List.append_of_mem hv
  obtain ⟨loc, hl⟩ := h.located
  obtain ⟨body, d', hcut, hleft, hbody, -, -, -⟩ := cut_spec h hl hopen ho
  have hlength : (v.octets.take offset).length = offset := by
    rw [List.length_take, Nat.min_eq_left ho]
  exact ⟨front, back, .file body, d', rfl, hcut, .on (onFile_moveTo hleft hbody hlength)⟩

/-- An appender that goes on where a cut was made has the records before the cut on disk. -/
theorem keeps_cut {front : List Volume} {v : Volume} {body : Nat}
    (h : d.Holds settings.folder (front ++ [⟨v.segment, v.octets.take v.octets.wholeLength⟩]))
    (hb : d.bodyOf? settings.folder v.segment = some body) (hi : Intact front) :
    ((blank settings).moveTo v.segment (.file body) v.octets.wholeLength).Keeps d
      (recordsIn front ++ v.octets.records) [] := by
  have hlength : (v.octets.take v.octets.wholeLength).length = v.octets.wholeLength := by
    rw [List.length_take, Nat.min_eq_left (Octets.wholeLength_le v.octets)]
  refine ⟨_, .on (onFile_moveTo h hb hlength), ?_, Octets.whole_nil, ?_, Octets.records_nil⟩
  · rw [intact_append, intact_singleton]
    exact ⟨hi, Octets.whole_take_wholeLength v.octets⟩
  · rw [recordsIn_append, recordsIn_cons, recordsIn_nil, List.append_nil]
    exact congrArg _ (Octets.records_take_wholeLength v.octets)

end Cut

end Appender

/-! ## Opening a log -/

theorem Replay.cutAt_ofRecords (records : List Record) : (ofRecords records).cutAt = none := by
  have hfold (report : Report) : (records.foldl step report).cutAt = report.cutAt := by
    induction records generalizing report with
    | nil => rfl
    | cons r rest ih => exact ih (step report r)
  exact hfold {}

namespace Log

variable {d : Disk} {settings : Settings} {vs : List Volume}

/-- Once the last segment is open, a log of intact volumes is opened with all its records. -/
theorem start_of_opens (hi : Intact vs) (hv : settings.validate = .ok ()) {a : Appender} {d' : Disk}
    {ws : List Volume} (hstart : Appender.start d settings = (.ok a, d'))
    (hf : a.folder = settings.folder) (hopens : Appender.Opens settings d vs a d' ws) :
    Log.start d settings = (.ok (ofReport settings a (Replay.ofRecords (recordsIn vs))), d') := by
  have hwi := hopens.intact hi
  have hholds := hopens.tracks.holds
  rw [hf] at hholds
  obtain ⟨c, hcursor, hrun⟩ := hholds.run_of_none
    (by rw [survey_of_intact hwi.1]) settings.policy
  rw [survey_of_intact hwi.1, hwi.2] at hrun
  simp only [Log.start, hv, hstart, hcursor, hrun, Replay.cutAt_ofRecords]

/-- A log of intact volumes is opened with all its records under every policy, or refused because
its first segment cannot be created. -/
theorem start_of_intact (h : d.Holds settings.folder vs) (hi : Intact vs)
    (hv : settings.validate = .ok ()) :
    (∃ a d' ws, Log.start d settings =
        (.ok (ofReport settings a (Replay.ofRecords (recordsIn vs))), d') ∧
      a.Keeps d' (recordsIn vs) [] ∧ (Appender.blank settings).SameTerms a ∧
      Appender.Opens settings d vs a d' ws) ∨
    (∃ e, Log.start d settings = (.error e, d) ∧ e.isIo = true ∧
      ¬ d.Clear settings.folder) := by
  rcases Appender.start_spec h with ⟨n, length, d', ws, hstart, hopens⟩ | ⟨e, hstart, hio, hclear⟩
  · have hwi := hopens.intact hi
    refine .inl ⟨_, d', ws, start_of_opens hi hv hstart rfl hopens, ?_,
      ⟨rfl, rfl, rfl, rfl, rfl⟩, hopens⟩
    exact ⟨ws, hopens.tracks, hwi.1, Octets.whole_nil, hwi.2, Octets.records_nil⟩
  · refine .inr ⟨e, ?_, hio, hclear⟩
    simp only [Log.start, hv, hstart]

/-- A damaged log is opened with the records before the damage and cut there. -/
theorem start_of_damage {loc : Location} {front back : List Volume} {v : Volume} {x : Damage}
    (h : d.Holds settings.folder (front ++ v :: back)) (hl : d.locate settings.folder = .ok loc)
    (hv : settings.validate = .ok ()) (hp : settings.policy = .truncateTail)
    (hx : (survey (front ++ v :: back)).damage = some x)
    (hxv : x = ⟨v.segment, v.octets.wholeLength, v.octets.flaw⟩) :
    ∃ body d', Log.start d settings =
        (.ok (ofReport settings
          ((Appender.blank settings).moveTo v.segment (.file body) v.octets.wholeLength)
          { Replay.ofRecords (survey (front ++ v :: back)).records with
            cutAt := some (v.segment.id, v.octets.wholeLength) }), d') ∧
      d'.Holds settings.folder
        (front ++ [⟨v.segment, v.octets.take v.octets.wholeLength⟩]) ∧
      d'.bodyOf? settings.folder v.segment = some body ∧
      (d.Clear settings.folder → d'.Clear settings.folder) ∧ (d.Willing → d'.Willing) ∧
      ∀ l, (∀ w ∈ v :: back, l ≠ loc.enter w.segment.name) → d.Untouched d' l := by
  obtain ⟨n, length, hstart, -⟩ := Appender.start_of_ne_nil h (by simp)
  obtain ⟨c, hcursor, hrun⟩ := h.run_of_some hx
  rw [hxv] at hrun
  obtain ⟨body, d', hcut, hholds', hb, hclear', hwilling', huntouched⟩ :=
    Appender.cut_spec
      (a := (Appender.blank settings).moveTo
        (Appender.lastOf ((front ++ v :: back).map (·.segment))) n length)
      h hl rfl (Octets.wholeLength_le v.octets)
  refine ⟨body, d', ?_, hholds', hb, hclear', hwilling', huntouched⟩
  simp only [Log.start, hv, hstart, hcursor, hp, hrun, hcut]
  rfl

/-- A log whose damage is refused is not opened, and nothing is changed. -/
theorem start_strict (h : d.Holds settings.folder vs) (hv : settings.validate = .ok ())
    (hp : settings.policy = .strict) {x : Damage} (hx : (survey vs).damage = some x) :
    Log.start d settings = (.error (x.error settings.folder), d) := by
  have hne : vs ≠ [] := by
    rintro rfl
    cases hx
  obtain ⟨n, length, hstart, -⟩ := Appender.start_of_ne_nil h hne
  obtain ⟨c, hcursor, hrun⟩ := h.run_strict hx
  simp only [Log.start, hv, hstart, hcursor, hp, hrun]

end Log

end SegmentLog
