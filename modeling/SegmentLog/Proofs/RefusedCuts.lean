import SegmentLog.Proofs.Confinement
import SegmentLog.Proofs.Wakes

/-!
What a refused cut leaves. While no device refuses anything of its files, a cut can only be refused at
a segment that has no file (`Sits.cut`). By then the segments above are gone, and with them all that
is on disk of the active one; but the appender still takes it for as long as it was. So what is known
to be written is more than what is on disk, and the next flush fills the difference with zeros, unless
the segment was empty or the next record begins another one (`Writing.after_refused_cut`).

Devices may refuse a removal, an opening, a change of length or a sync as well. Wherever a cut stops,
the appender takes its segment for as long as it was, and the segment has not grown
(`Writing.refused_cut`). So the bound holds then only if nothing was in the buffer and all of the
segment is still there (`Writing.Sits.refused_anyhow`).
-/

namespace SegmentLog

/-! ## How long a cut leaves a segment -/

namespace Segment

theorem named_of_list {d : Disk} {folder : String} {segments : List Segment} {s : Segment}
    (hl : list d folder = .ok segments) (hs : s ∈ segments) : s.Named := by
  unfold list at hl
  split at hl
  · cases hl
    rw [(sort_perm _).mem_iff, List.mem_filterMap] at hs
    obtain ⟨name, -, hname⟩ := hs
    rw [Named, name_of_ofName? hname, hname]
  · cases hl
    cases hs
  · cases hl

end Segment

namespace Disk

variable {d d' : Disk} {folder : String} {s t : Segment} {most : Nat}

/-- A segment has at most so many octets on disk. -/
structure Caps (d : Disk) (folder : String) (s : Segment) (most : Nat) : Prop where
  sound : d.Sound
  length_le : ∀ body, d.bodyOf? folder s = some body → (d.bodies body).length ≤ most

theorem bodyOf?_of_openWrite {body : Nat}
    (ho : d.openWrite (t.place folder) = .ok (.file body, d')) : d'.bodyOf? folder t = some body := by
  cases hb : d.bodyOf? folder t with
  | some other =>
    obtain ⟨hn, rfl⟩ := eq_of_openWrite hb ho
    cases hn
    exact hb
  | none =>
    rcases openWrite_cases hb with ⟨f, hf⟩ | hf | ⟨loc, hl, hsp, hnone, hf⟩ <;>
      rw [hf] at ho <;> cases ho
    exact bodyOf?_create_self hl hnone hsp

theorem Caps.remove (h : d.Caps folder s most) (hr : d.remove (t.place folder) = .ok d') :
    d'.Caps folder s most := by
  unfold Disk.remove at hr
  split at hr
  · cases hr
  · cases hr
  · cases hr
  · rename_i l n hfolder hlook
    split at hr
    · cases hr
    · cases hr
      obtain ⟨hsp, loc, hl⟩ := speakable_of_look hlook
      rw [look_place hl hsp] at hlook
      simp only [Except.ok.injEq, Prod.mk.injEq] at hlook
      obtain ⟨rfl, hnode⟩ := hlook
      have hl' := locate_unlink hl hnode (by rintro rfl; exact hfolder rfl)
      refine ⟨h.sound.unlink _, fun body hb => h.length_le body ?_⟩
      rw [bodyOf?_eq_some hl'] at hb
      rw [bodyOf?_eq_some hl]
      refine ⟨hb.1, ?_⟩
      by_cases hname : loc.enter s.name = loc.enter t.name
      · rw [hname, node?_unlink_self d _ (by simp)] at hb
        cases hb.2
      · rw [← node?_unlink_of_ne d hname]
        exact hb.2

section Named

variable (hs : s.Named) (ht : t.Named)
include hs ht

theorem Caps.openWrite (h : d.Caps folder s most) {n : Node}
    (ho : d.openWrite (t.place folder) = .ok (n, d')) : d'.Caps folder s most := by
  cases hb : d.bodyOf? folder t with
  | some body =>
    obtain ⟨-, rfl⟩ := eq_of_openWrite hb ho
    exact h
  | none =>
    rcases openWrite_cases hb with ⟨f, hf⟩ | hf | ⟨loc, hl, hsp, hnone, hf⟩ <;>
      rw [hf] at ho <;> cases ho
    · exact h
    · refine ⟨h.sound.create hsp.2, fun body hbody => ?_⟩
      by_cases hname : s.name = t.name
      · obtain rfl := hs.eq_of_name ht hname
        obtain rfl := Option.some.inj ((bodyOf?_create_self hl hnone hsp).symm.trans hbody)
        rw [bodies_create_self]
        exact Nat.zero_le _
      · rw [bodyOf?_create_of_ne hl hnone hname] at hbody
        rw [bodies_create_of_ne d _ (Nat.ne_of_lt (h.sound.bodyOf?_lt hbody))]
        exact h.length_le body hbody

theorem Caps.resize (h : d.Caps folder s most) {body length : Nat}
    (hb : d.bodyOf? folder t = some body) (hle : t = s → length ≤ most)
    (hr : d.resize (.file body) length = .ok d') : d'.Caps folder s most := by
  rw [eq_of_resize hr]
  refine ⟨h.sound.setBody _ _, fun other ho => ?_⟩
  rw [bodyOf?_setBody] at ho
  by_cases he : other = body
  · obtain rfl := he
    rw [bodies_setBody_self, Body.length_resize]
    exact hle (h.sound.eq_of_bodyOf? ht hs hb ho)
  · rw [bodies_setBody_of_ne d _ he]
    exact h.length_le other ho

end Named

end Disk

namespace Appender

variable {d : Disk} {folder : String} {s t : Segment} {most : Nat}

theorem caps_removeAbove (h : d.Caps folder s most) (id : UInt64) (segments : List Segment) :
    (removeAbove d folder id segments).2.Caps folder s most := by
  induction segments generalizing d with
  | nil => exact h
  | cons t rest ih =>
    unfold removeAbove
    split
    · split
      · exact h
      · rename_i hremove
        exact ih (h.remove hremove)
    · exact ih h

theorem caps_openSegment {d' : Disk} {n : Node} {length : Nat} (h : d.Caps folder s most)
    (hs : s.Named) (ht : t.Named) (ho : openSegment d folder t = .ok (n, length, d')) :
    d'.Caps folder s most ∧ ∀ body, n = .file body → d'.bodyOf? folder t = some body := by
  unfold openSegment at ho
  split at ho
  · cases ho
  · rename_i hopen
    cases ho
    exact ⟨h.openWrite hs ht hopen, fun body hn => Disk.bodyOf?_of_openWrite (hn ▸ hopen)⟩

theorem caps_resizeSegment (h : d.Caps folder s most) (hs : s.Named) (ht : t.Named) {length : Nat}
    (hle : t = s → length ≤ most) : (resizeSegment d folder t length).2.Caps folder s most := by
  unfold resizeSegment
  split
  · exact h
  · rename_i n size d₁ hopen
    obtain ⟨hcaps, hfile⟩ := caps_openSegment h hs ht hopen
    split
    · exact hcaps
    · rename_i d₂ hresize
      have hresized : d₂.Caps folder s most := by
        cases n with
        | file body => exact hcaps.resize hs ht (hfile body rfl) hle hresize
        | _ =>
          simp only [Disk.resize] at hresize
          split at hresize <;> cases hresize
      split <;> exact hresized

theorem find_spec {segments : List Segment} (h : ∀ s ∈ segments, s.Named) (id : UInt64) :
    (find segments id).Named ∧ (find segments id).id = id := by
  unfold find
  cases hlast : (segments.filter (·.id = id)).getLast? with
  | none => exact ⟨Segment.named_ofId id, rfl⟩
  | some s =>
    obtain ⟨hmem, hid⟩ := List.mem_filter.mp (List.mem_of_getLast? hlast)
    exact ⟨h s hmem, of_decide_eq_true hid⟩

theorem cut_of_refused {a : Appender} (hopen : a.closed = false) {id : UInt64} {offset : Nat}
    (hrefused : ¬ (a.cut d id offset).1.isOk) : (a.cut d id offset).2.1 = a.dropped := by
  unfold Appender.cut at hrefused ⊢
  rw [if_neg (by simp [hopen])] at hrefused ⊢
  dsimp only at hrefused ⊢
  split
  · rfl
  · split
    · rfl
    · split
      · rfl
      · split
        · rfl
        · simp_all [Except.isOk, Except.toBool]

/-- A cut does not make the active segment longer than it was, or than the cut says. -/
theorem caps_cut {a : Appender} (h : d.Caps a.folder a.active most) (hn : a.active.Named)
    {id : UInt64} {offset : Nat} (hle : id = a.active.id → offset ≤ most) :
    (a.cut d id offset).2.2.Caps a.folder a.active most := by
  unfold Appender.cut
  split
  · exact h
  · dsimp only
    split
    · exact h
    · rename_i segments hlist
      obtain ⟨hnamed, hid⟩ := find_spec (fun _ hs => Segment.named_of_list hlist hs) id
      have hremoved := caps_removeAbove h id segments
      split
      · rename_i hremove
        rw [hremove] at hremoved
        exact hremoved
      · rename_i hremove
        rw [hremove] at hremoved
        have hresized := caps_resizeSegment hremoved hn hnamed fun he => hle (by rw [← hid, he])
        split
        · rename_i hresize
          rw [hresize] at hresized
          exact hresized
        · rename_i hresize
          rw [hresize] at hresized
          split
          · exact hresized
          · rename_i hopen
            exact (caps_openSegment hresized hn hnamed hopen).1

end Appender

namespace Writing

variable {folder : String} {front : List Volume} {s : Segment} {settled : Octets} {gap : Nat}
  {w : Writing} {S : List Record} {L : Option UInt64} {e : Event}

/-! ## Cuts -/

/-- A cut is granted. -/
def CutGranted (w : Writing) : Event → Prop
  | .cut id offset => (w.appender.cut w.disk id offset).1.isOk
  | _ => True

/-- Where the appender sits. What is in the volumes, in the gap and in the buffer is empty or leaves
room for a header, and if nothing was damaged the volumes are intact. -/
structure Sits (folder : String) (undamaged : Prop) (w : Writing) (front : List Volume)
    (settled : Octets) (gap : Nat) : Prop where
  place : w.appender.folder = folder
  willing : w.disk.Willing
  seated : w.appender.Seated w.disk front settled gap
  whole : w.appender.buffer.Whole
  roomyFront : Roomy front
  ampleSettled : Ample settled.length
  ampleGap : Ample gap
  intact : undamaged → Intact front ∧ settled.Whole

variable {undamaged : Prop}

theorem Sits.offset (h : w.Sits folder undamaged front settled gap) : Ample w.appender.offset := by
  rw [← h.seated.offset]
  exact (h.ampleSettled.add h.ampleGap).add h.whole.ample

/-- A cut between two records is granted, and appending goes on there; or it is refused, and the
appender takes its segment for as long as it did before. -/
theorem Sits.cut (h : w.Sits folder undamaged front settled gap)
    (hopen : w.appender.closed = false) {id : UInt64} {offset : Nat}
    (hc : Appender.Cuttable (w.disk.volumes folder) id offset) :
    (∃ b d ws, w.appender.cut w.disk id offset = (.ok (), b, d) ∧
      Stands folder ⟨b, d⟩ ⟨ws, []⟩ ws [] ∧ Roomy ws ∧ (undamaged → Intact ws)) ∨
    ∃ e d front' settled' gap', w.appender.cut w.disk id offset = (.error e, w.appender.dropped, d) ∧
      Sits folder undamaged ⟨w.appender.dropped, d⟩ front' settled' gap' ∧
      (id ≤ w.appender.active.id →
        d.Holds folder front' ∧ settled' = [] ∧ gap' = w.appender.offset) := by
  obtain ⟨base, hbase, hholds⟩ := h.seated.holds
  have hroomy := hbase.roomy.mpr ⟨h.roomyFront, h.ampleSettled⟩
  have hintact (hu : undamaged) : Intact base := hbase.intact.mpr (h.intact hu)
  have hwilling := h.willing.of_refusals (Appender.refusals_cut w.appender w.disk id offset)
  rw [← h.place, hholds.volumes_eq] at hc
  rcases hc with ⟨v, hv, rfl, hlength, hwhole⟩ | ⟨hvacant, rfl⟩
  · obtain ⟨fore, back, n, d, rfl, hcut, htracks⟩ := Appender.tracks_cut hholds hopen hv hlength
    refine .inl ⟨_, d, _, hcut, ⟨h.place, htracks, Octets.whole_nil, .same, Octets.records_nil⟩,
      ?_, fun hu => ?_⟩
    · exact roomy_append.mpr ⟨(roomy_append.mp hroomy).1, roomy_singleton.mpr hwhole.ample⟩
    · exact intact_append.mpr ⟨(intact_append.mp (hintact hu)).1, intact_singleton.mpr hwhole⟩
  · obtain ⟨below, above, rfl, hbelow, habove⟩ :=
      Appender.exists_below_above hholds.ascending hvacant
    have hroomy' := (roomy_append.mp hroomy).1
    have hintact' (hu : undamaged) : Intact below := (intact_append.mp (hintact hu)).1
    rcases Appender.cut_vacant hholds hbelow habove hopen with
      ⟨n, d, hcut, htracks⟩ | ⟨e, d, hcut, hleft⟩
    · refine .inl ⟨_, d, _, hcut, ⟨h.place, htracks, Octets.whole_nil, .same, Octets.records_nil⟩,
        ?_, fun hu => ?_⟩
      · exact roomy_append.mpr ⟨hroomy', roomy_singleton.mpr (.inl rfl)⟩
      · exact intact_append.mpr ⟨hintact' hu, intact_singleton.mpr Octets.whole_nil⟩
    · rw [hcut] at hwilling
      refine .inr ⟨e, d, ?_⟩
      by_cases hid : id ≤ w.appender.active.id
      · refine ⟨below, [], w.appender.offset, hcut, ⟨h.place, hwilling, ⟨⟨below, .inr ⟨rfl, rfl⟩, hleft⟩,
          fun v hv => UInt64.lt_of_lt_of_le (hbelow v hv) hid, h.seated.named, ?_⟩,
          Octets.whole_nil, hroomy', .inl rfl, h.offset, fun hu => ⟨hintact' hu, Octets.whole_nil⟩⟩,
          fun _ => ⟨h.place ▸ hleft, rfl, rfl⟩⟩
        simp [Appender.dropped]
      · -- a segment above the active one: nothing is removed
        have hlt : w.appender.active.id < id := UInt64.not_le.mp hid
        obtain rfl : above = [] := by
          refine List.eq_nil_iff_forall_not_mem.mpr fun v hv => ?_
          exact UInt64.lt_asymm (habove v hv)
            (h.seated.below hbase hlt v (List.mem_append_right _ hv))
        rw [List.append_nil] at hbase
        refine ⟨front, settled, gap + w.appender.buffer.length, hcut, ⟨h.place, hwilling,
          ⟨⟨below, hbase, hleft⟩, h.seated.above, h.seated.named, ?_⟩, Octets.whole_nil,
          h.roomyFront, h.ampleSettled, h.ampleGap.add h.whole.ample, h.intact⟩,
          fun hle => absurd hle hid⟩
        have hoffset := h.seated.offset
        simp only [Appender.dropped, List.length_nil]
        omega

/-! ## Reachable appenders -/

/-- What happens to an appender that is not closed. A cut is made between two records. -/
def Usual (w : Writing) : Event → Prop
  | .cut id offset => Appender.Cuttable (w.disk.volumes w.appender.folder) id offset
  | e => w.Ordinary e

/-- The appender is in the wake of a cut that left nothing but empty volumes and such that have room
for a header; if nothing was damaged it left no gap, and intact volumes. Files can be written. -/
def Course (folder : String) (undamaged : Prop) (w : Writing) : Prop :=
  w.disk.Willing ∧ ∃ front s settled gap S L, Wake folder front s settled gap w S L ∧ Roomy front ∧
    Ample settled.length ∧ Ample gap ∧ (undamaged → gap = 0 ∧ Intact front ∧ settled.Whole)

/-- An appender over volumes that it tracks has nothing in its wake. -/
theorem Stands.course {ws : List Volume} (h : w.Stands folder ⟨ws, []⟩ ws [])
    (hw : w.disk.Willing) (hr : Roomy ws) (hi : undamaged → Intact ws) : Course folder undamaged w :=
  ⟨hw, ws, w.appender.active, [], 0, [], none, .passed (.inr ⟨rfl, rfl⟩) h (.inl rfl), hr, .inl rfl,
    .inl rfl, fun hu => ⟨rfl, hi hu, Octets.whole_nil⟩⟩

theorem Wake.held (h : Wake folder front s settled gap w S L) : w.appender.Held w.disk := by
  cases h with
  | adrift hplace hactive h hwhole hrecords hlanding =>
    obtain ⟨base, -, hholds⟩ := h.holds
    refine ⟨hholds.sound, h.named, fun n hn => ?_⟩
    rw [h.file] at hn
    cases hn
  | passed hbase h hpassed => exact h.tracks.held
  | filled hb h hrecords hlanding => exact h.tracks.held

/-- An appender does not change what is refused. -/
theorem willing_step (hh : w.appender.Held w.disk) (hw : w.disk.Willing) (hu : w.Usual e) :
    (w.step e).disk.Willing := by
  cases e with
  | append r force => exact hw.of_refusals (hh.append r force).frames.refusals
  | flush => exact hw.of_refusals hh.flush.frames.refusals
  | tick =>
    simp only [Writing.step, Appender.tick]
    split
    · exact hw
    · exact hw.of_refusals hh.flush.frames.refusals
  | cut id offset => exact hw.of_refusals (Appender.refusals_cut w.appender w.disk id offset)
  | close => exact hu.elim
  | disturb d => exact hu.2

theorem Course.sits (h : Course folder undamaged w) :
    ∃ front settled gap, w.Sits folder undamaged front settled gap := by
  obtain ⟨hw, front, s, settled, gap, S, L, hwake, hfront, hsettled, hgap, hclean⟩ := h
  -- where an appender sits that tracks volumes grown from these
  have htracked {p : Progress} {ws : List Volume} {written : List Record}
      (hs : w.Stands folder p ws written) (hr : Roomy p.found) (hi : undamaged → Intact p.found) :
      ∃ front settled gap, w.Sits folder undamaged front settled gap := by
    obtain ⟨front', settled', hbase, hseated⟩ := hs.tracks.seated
    obtain ⟨hroomy, hample⟩ := hbase.roomy.mp (hs.grows.roomy hr)
    exact ⟨front', settled', 0, hs.place, hw, hseated, hs.whole, hroomy, hample, .inl rfl,
      fun hu => hbase.intact.mp (hs.grows.intact (hi hu)).1⟩
  cases hwake with
  | adrift hplace hactive h hwhole hrecords hlanding =>
    exact ⟨front, settled, gap, hplace, hw, h.toSeated, hwhole, hfront, hsettled, hgap,
      fun hu => (hclean hu).2⟩
  | passed hbase h hpassed =>
    exact htracked h (hbase.roomy.mpr ⟨hfront, hsettled⟩) fun hu => hbase.intact.mpr (hclean hu).2
  | @filled bs added ws written hb h hrecords hlanding =>
    refine htracked h ?_ fun hu => ?_
    · refine roomy_append.mpr ⟨hfront, roomy_singleton.mpr ?_⟩
      simpa using hsettled.add (hgap.add hb.ample)
    · obtain ⟨rfl, hintact, hwhole⟩ := hclean hu
      exact intact_append.mpr ⟨hintact, intact_singleton.mpr (hwhole.append hb)⟩

theorem Course.mono {P Q : Prop} (h : Course folder P w) (hpq : Q → P) : Course folder Q w := by
  obtain ⟨hw, front, s, settled, gap, S, L, hwake, hfront, hsettled, hgap, hclean⟩ := h
  exact ⟨hw, front, s, settled, gap, S, L, hwake, hfront, hsettled, hgap, fun hq => hclean (hpq hq)⟩

theorem Course.step (h : Course folder undamaged w) (hu : w.Usual e) :
    Course folder (undamaged ∧ w.CutGranted e) (w.step e) := by
  have hw : (w.step e).disk.Willing := by
    obtain ⟨hw, _, _, _, _, _, _, hwake, -⟩ := h
    exact willing_step hwake.held hw hu
  have hordinary (ho : w.Ordinary e) : Course folder (undamaged ∧ w.CutGranted e) (w.step e) := by
    obtain ⟨-, front, s, settled, gap, S, L, hwake, hfront, hsettled, hgap, hclean⟩ := h
    exact ⟨hw, front, s, settled, gap, _, _, hwake.step ho, hfront, hsettled, hgap,
      fun hboth => hclean hboth.1⟩
  cases e with
  | append r force => exact hordinary hu
  | flush => exact hordinary hu
  | tick => exact hordinary hu
  | close => exact hordinary hu
  | disturb d => exact hordinary hu
  | cut id offset =>
    cases hc : w.appender.closed with
    | true =>
      have hstep : w.step (.cut id offset) = w := by
        simp only [Writing.step, Appender.cut, hc, if_true]
      rw [hstep]
      exact h.mono And.left
    | false =>
      obtain ⟨front, settled, gap, hsits⟩ := h.sits
      have hcuttable : Appender.Cuttable (w.disk.volumes folder) id offset := by
        rw [← hsits.place]
        exact hu
      rcases hsits.cut hc hcuttable with ⟨b, d, ws, hcut, hstands, hroomy, hintact⟩ |
        ⟨x, d, front', settled', gap', hcut, hsits', -⟩
      · have hstep : w.step (.cut id offset) = ⟨b, d⟩ := by simp only [Writing.step, hcut]
        rw [hstep]
        exact hstands.course (hstep ▸ hw) hroomy fun hboth => hintact hboth.1
      · have hstep : w.step (.cut id offset) = ⟨w.appender.dropped, d⟩ := by
          simp only [Writing.step, hcut]
        rw [hstep]
        refine ⟨hsits'.willing, front', w.appender.active, settled', gap', [], none,
          .adrift hsits'.place rfl ⟨hsits'.seated, rfl, hsits'.willing⟩ Octets.whole_nil
            Octets.records_nil rfl,
          hsits'.roomyFront, hsits'.ampleSettled, hsits'.ampleGap, fun hboth => ?_⟩
        have hgranted := hboth.2
        simp only [CutGranted, hcut] at hgranted
        exact absurd hgranted (by simp [Except.isOk, Except.toBool])

theorem Course.run (h : Course folder undamaged w) {es : List Event} (hu : w.Along Usual es) :
    Course folder (undamaged ∧ w.Along CutGranted es) (w.run es) := by
  induction es generalizing w undamaged with
  | nil => exact h.mono And.left
  | cons e es ih => exact (ih (h.step hu.1) hu.2).mono and_assoc.mpr

/-- An appender that is opened over a log that can be read has nothing in its wake. -/
theorem course_start {d d' : Disk} {vs : List Volume} {found : List Record} {settings : Settings}
    {a : Appender} (h : (d.makeFolders settings.folder).2.Holds settings.folder vs) (hw : d.Willing)
    (hfound : Log.recordsOf (d.makeFolders settings.folder).2 settings.folder = .ok found)
    (hstart : Appender.start d settings = (.ok a, d')) : Course settings.folder True ⟨a, d'⟩ := by
  obtain ⟨hi, -⟩ := h.intact_of_recordsOf hfound
  obtain ⟨⟨ws, hopened⟩, -⟩ := stands_start h (Appender.start_makeFolders h hstart)
  have hintact := (hopened.grows.intact hi).1
  exact Stands.course ⟨hopened.place, hopened.tracks, hopened.whole, .same, hopened.records⟩
    (hw.of_refusals (Appender.refusals_start hstart)) hintact.roomy fun _ => hintact

/-- Octets of the active segment that are on disk; a segment that has no file has none. -/
def onDisk (w : Writing) : Nat :=
  ((w.disk.bodyOf? w.appender.folder w.appender.active).map fun body =>
    (w.disk.bodies body).length).getD 0

theorem onDisk_le_iff {w : Writing} (hs : w.disk.Sound) {most : Nat} :
    w.onDisk ≤ most ↔ w.disk.Caps w.appender.folder w.appender.active most := by
  unfold onDisk
  constructor
  · intro h
    refine ⟨hs, fun body hb => ?_⟩
    rw [hb] at h
    exact h
  · intro h
    cases hb : w.disk.bodyOf? w.appender.folder w.appender.active with
    | none => exact Nat.zero_le _
    | some body => exact h.length_le body hb

/-- Wherever a cut is refused, at a removal, an opening, a change of length or a sync, the appender
takes its segment for as long as it was before, with what was in the buffer. On disk the segment has
not grown. So if it was ahead of the disk, it is ahead by no less afterwards, and with an empty
buffer. -/
theorem refused_cut {w : Writing} (hs : w.disk.Sound) (hn : w.appender.active.Named)
    (hopen : w.appender.closed = false) {id : UInt64} {offset : Nat}
    (hoffset : id = w.appender.active.id → offset ≤ w.onDisk)
    (hrefused : ¬ w.CutGranted (.cut id offset)) :
    let left := w.step (.cut id offset)
    left.appender = w.appender.dropped ∧ left.appender.settled = w.appender.offset ∧
      left.onDisk ≤ w.onDisk := by
  intro left
  have hcaps : left.disk.Caps w.appender.folder w.appender.active w.onDisk :=
    Appender.caps_cut ((onDisk_le_iff hs).mp (Nat.le_refl _)) hn hoffset
  have hdropped : left.appender = w.appender.dropped := Appender.cut_of_refused hopen hrefused
  refine ⟨hdropped, ?_, ?_⟩
  · rw [hdropped]
    exact Nat.sub_zero _
  · have hplace : left.appender.folder = w.appender.folder := by rw [hdropped]; rfl
    have hactive : left.appender.active = w.appender.active := by rw [hdropped]; rfl
    rw [onDisk_le_iff hcaps.sound, hplace, hactive]
    exact hcaps

/-- The same appender, where the disk refuses other things for its files. -/
def refusing (w : Writing) (R : Nat → Refusals) : Writing :=
  { w with disk := { w.disk with refusals := R } }

theorem onDisk_refusing (w : Writing) (R : Nat → Refusals) : (w.refusing R).onDisk = w.onDisk := by
  have hlook (p : Place) : (w.refusing R).disk.look p = w.disk.look p :=
    Disk.look_of_same (d := w.disk) (e := (w.refusing R).disk) rfl rfl p
  simp only [onDisk, Disk.bodyOf?, hlook]
  rfl

theorem Sits.onDisk_eq (h : w.Sits folder undamaged front settled gap) : w.onDisk = settled.length := by
  obtain ⟨base, hbase, hholds⟩ := h.seated.holds
  rcases hbase with rfl | ⟨rfl, rfl⟩
  · obtain ⟨-, body, hb, hoctets⟩ := hholds.shows ⟨w.appender.active, settled⟩ (by simp)
    simp only [Writing.onDisk, hb, Option.map_some, Option.getD_some]
    rw [← Body.length_octets, hoctets]
  · have hnone := hholds.bodyOf?_eq_none h.seated.named h.seated.above
    simp [onDisk, hnone]

theorem Sits.offset_le_onDisk (h : w.Sits folder undamaged front settled gap) {id : UInt64}
    {offset : Nat} (hc : Appender.Cuttable (w.disk.volumes folder) id offset)
    (hid : id = w.appender.active.id) : offset ≤ w.onDisk := by
  rw [h.onDisk_eq]
  obtain ⟨base, hbase, hholds⟩ := h.seated.holds
  rw [← h.place, hholds.volumes_eq] at hc
  rcases hc with ⟨v, hv, hvid, hlength, -⟩ | ⟨-, rfl⟩
  · have hnot : v ∉ front := fun hin =>
      UInt64.ne_of_lt (h.seated.above v hin) (hvid.trans hid)
    rcases hbase with rfl | ⟨rfl, -⟩
    · rcases List.mem_append.mp hv with hv | hv
      · exact absurd hv hnot
      · rw [List.mem_singleton.mp hv] at hlength
        exact hlength
    · exact absurd hv hnot
  · exact Nat.zero_le _

/-- What is known to be written is on disk after a refused cut only if nothing was in the buffer and
nothing of the active segment is gone. -/
theorem Sits.refused_anyhow (h : w.Sits folder undamaged front settled gap)
    (hopen : w.appender.closed = false) {id : UInt64} {offset : Nat}
    (hc : Appender.Cuttable (w.disk.volumes folder) id offset) {R : Nat → Refusals}
    (hrefused : ¬ (w.refusing R).CutGranted (.cut id offset)) :
    let left := (w.refusing R).step (.cut id offset)
    left.appender.settled = w.appender.offset ∧ left.onDisk ≤ w.onDisk ∧
      (left.appender.settled ≤ left.onDisk ↔
        w.appender.buffer = [] ∧ left.onDisk = w.appender.offset) := by
  intro left
  have hsound : (w.refusing R).disk.Sound := by
    obtain ⟨base, -, hholds⟩ := h.seated.holds
    exact ⟨hholds.sound.locations, hholds.sound.bodies, hholds.sound.inUse, hholds.sound.names⟩
  obtain ⟨-, hsettled, hle⟩ := refused_cut hsound h.seated.named hopen
    (fun hid => (w.onDisk_refusing R).symm ▸ h.offset_le_onDisk hc hid) hrefused
  have hknown : left.appender.settled = w.appender.offset := hsettled
  have hless : left.onDisk ≤ w.onDisk := w.onDisk_refusing R ▸ hle
  have hoffset := h.seated.offset
  have hbefore := h.onDisk_eq
  refine ⟨hknown, hless, ?_, fun ⟨_, he⟩ => ?_⟩
  · intro hbound
    rw [hknown] at hbound
    have hlength : w.appender.buffer.length = 0 := by omega
    exact ⟨List.length_eq_zero_iff.mp hlength, by omega⟩
  · rw [hknown, he]

/-- A refused cut in the active segment or before leaves nothing of that segment on disk, and the
appender takes it for as long as it was. -/
theorem Sits.refused (h : w.Sits folder undamaged front settled gap)
    (hopen : w.appender.closed = false) {id : UInt64} {offset : Nat}
    (hid : id ≤ w.appender.active.id) (hc : Appender.Cuttable (w.disk.volumes folder) id offset)
    (hrefused : ¬ w.CutGranted (.cut id offset)) :
    let left := w.step (.cut id offset)
    left.appender = w.appender.dropped ∧ left.onDisk = 0 ∧
      (undamaged → Intact (left.disk.volumes folder)) ∧
      Wake folder (left.disk.volumes folder) w.appender.active [] w.appender.offset left [] none := by
  rcases h.cut hopen hc with ⟨b, d, ws, hcut, -⟩ | ⟨x, d, kept, settled', gap', hcut, hleft, hkept⟩
  · exact absurd (by simp [CutGranted, hcut, Except.isOk, Except.toBool]) hrefused
  · obtain ⟨hholds, rfl, rfl⟩ := hkept hid
    have hnone := hholds.bodyOf?_eq_none hleft.seated.named hleft.seated.above
    have hstep : w.step (.cut id offset) = ⟨w.appender.dropped, d⟩ := by
      simp only [Writing.step, hcut]
    rw [hstep]
    dsimp only
    rw [hholds.volumes_eq]
    refine ⟨rfl, ?_, fun hu => (hleft.intact hu).1, ?_⟩
    · rw [← hleft.place] at hnone
      simp [onDisk, hnone]
    · exact .adrift hleft.place rfl ⟨hleft.seated, rfl, hleft.willing⟩ Octets.whole_nil
        Octets.records_nil rfl

/-- What a refused cut leaves. Where a folder or a full device stands in the way, nothing of the active
segment is on disk, but the appender takes it for as long as it was, with what was in the buffer. The
log can be read after any granted flush from then on if the segment was empty or the next record goes
to a later one; otherwise zeros stand in front of that record, and the log is damaged there. Where
devices refuse anything else (`R`) the appender is no wiser, and some of the segment may be left. -/
theorem after_refused_cut {d d' : Disk} {vs : List Volume} {found : List Record}
    {settings : Settings} {a : Appender} {es : List Event} {id : UInt64} {offset : Nat}
    (h : (d.makeFolders settings.folder).2.Holds settings.folder vs) (hw : d.Willing)
    (hfound : Log.recordsOf (d.makeFolders settings.folder).2 settings.folder = .ok found)
    (hstart : Appender.start d settings = (.ok a, d')) (hu : Along Usual ⟨a, d'⟩ es) :
    let w := run ⟨a, d'⟩ es
    let left := w.step (.cut id offset)
    let kept := left.disk.volumes settings.folder
    w.appender.closed = false → id ≤ w.appender.active.id →
    Appender.Cuttable (w.disk.volumes settings.folder) id offset →
      (¬ w.CutGranted (.cut id offset) →
        (left.appender.settled = w.appender.offset ∧ left.onDisk = 0) ∧
        (left.appender.settled ≤ left.onDisk ↔ w.appender.offset = 0) ∧
        (Along CutGranted ⟨a, d'⟩ es → Intact kept) ∧
        (∀ later, left.Along Ordinary later → (left.run later).appender.buffer = [] → Intact kept →
          Log.recordsOf (left.run later).disk settings.folder =
            if w.appender.offset = 0 ∨ left.landing? later ≠ some w.appender.active.id then
              .ok (recordsIn kept ++ left.gains later)
            else .error (.corruption (w.appender.active.path settings.folder) 0 (.unknownKind 0))) ∧
        ∀ r force rest, left.Ordinary (.append r force) →
          (left.appender.append left.disk r force).1.isOk →
          (left.landing? (.append r force :: rest) = some w.appender.active.id ↔
            w.appender.offset = 0 ∨
              w.appender.offset + r.encodedLength ≤ w.appender.segmentLimit)) ∧
      ∀ R, ¬ (w.refusing R).CutGranted (.cut id offset) →
        let stopped := (w.refusing R).step (.cut id offset)
        stopped.appender.settled = w.appender.offset ∧ stopped.onDisk ≤ w.onDisk ∧
        (stopped.appender.settled ≤ stopped.onDisk ↔
          w.appender.buffer = [] ∧ stopped.onDisk = w.appender.offset) := by
  intro w left kept hopen hid hc
  obtain ⟨front, settled, gap, hsits⟩ := ((course_start h hw hfound hstart).run hu).sits
  refine ⟨fun hrefused => ?_, fun R hrefused => hsits.refused_anyhow hopen hc hrefused⟩
  obtain ⟨hdropped, hnone, hclean, hwake⟩ := hsits.refused hopen hid hc hrefused
  have hsettled : left.appender.settled = w.appender.offset := by
    rw [show left.appender = w.appender.dropped from hdropped]
    exact Nat.sub_zero _
  refine ⟨⟨hsettled, hnone⟩, ?_, fun hg => hclean ⟨trivial, hg⟩, fun later ho hnil hkept => ?_,
    fun r force rest ho hgranted => ?_⟩
  · rw [hsettled, hnone, Nat.le_zero]
  · have hread := (hwake.run ho).recordsOf hkept Octets.whole_nil hsits.offset hnil
    simpa [Octets.records_nil] using hread
  · have hfirst : left.landing? (.append r force :: rest) = left.landing (.append r force) := by
      have hgained : left.gained (.append r force) ≠ [] := by simp [gained, hgranted]
      rw [landing?, landing, if_neg hgained]
      rfl
    have hland := landing_append ho hgranted
    rw [show left.appender = w.appender.dropped from hdropped] at hland
    rw [hfirst]
    exact hland.trans Appender.overflows_eq_false_iff

/-! ## A cut on a full device -/

/-- Settings under which two short records fit into a segment. -/
def narrow : Settings := { folder := "wal", segmentLimit := 60, sync := false }

/-- An appender opened on a full device. -/
def onFull : Writing where
  appender := (Appender.blank narrow).moveTo (Segment.ofId 1) .full 0
  disk := (Appender.start fullFirst narrow).2

/-- The place of the first segment. -/
def first : Location := (Location.top.enter "wal").enter "00000000000000000001.wal"

/-- The device goes away, and a record is appended and flushed. -/
def onceFree (w : Writing) (r : Record) : List Event :=
  [.disturb (w.disk.unlink first), .append r false, .flush]

/-- A record that fits behind another short one, and one that does not. -/
def short : Record := Record.write 2 1 [2] []

def long : Record := Record.write 3 1 [3] (List.replicate 30 0)

def notPermitted : Fault := .other "Operation not permitted (os error 1)"

/-- No file can be removed. -/
def unremovable (_ : Nat) : Refusals := { removing := some notPermitted }

/-- A record in the buffer is dropped by a cut that the device refuses. The next one is damaged if it
fits behind the one that was dropped, and otherwise it is read. -/
theorem after_refused_cut_onFull :
    let before : List Event := [.append (Record.write 1 1 [1] []) false]
    let w := onFull.run before
    let left := w.step (.cut 1 0)
    ((fullFirst.makeFolders narrow.folder).2.Holds narrow.folder [] ∧ fullFirst.Willing ∧
      Log.recordsOf (fullFirst.makeFolders narrow.folder).2 narrow.folder = .ok [] ∧
      Appender.start fullFirst narrow = (.ok onFull.appender, onFull.disk) ∧
      onFull.Along Usual before ∧ w.appender.closed = false ∧ 1 ≤ w.appender.active.id ∧
      Appender.Cuttable (w.disk.volumes narrow.folder) 1 0 ∧ ¬ w.CutGranted (.cut 1 0) ∧
      left.Along Ordinary (onceFree left short) ∧ left.Along Ordinary (onceFree left long)) ∧
    ¬ left.appender.settled ≤ left.onDisk ∧
    (¬ (w.refusing unremovable).CutGranted (.cut 1 0) ∧
      ((w.refusing unremovable).step (.cut 1 0)).appender.settled = w.appender.offset) ∧
    Log.recordsOf (left.run (onceFree left short)).disk "wal" =
      .error (.corruption "wal/00000000000000000001.wal" 0 (.unknownKind 0)) ∧
    Log.recordsOf (left.run (onceFree left long)).disk "wal" = .ok [long] := by
  intro before w left
  have hlocate : fullFirst.locate narrow.folder = .ok (Location.top.enter "wal") := by decide +kernel
  have hmade : (fullFirst.makeFolders narrow.folder).2 = fullFirst :=
    congrArg Prod.snd (Disk.makeFolders_of_locate hlocate)
  have hholds : (fullFirst.makeFolders narrow.folder).2.Holds narrow.folder [] := by
    rw [hmade]
    exact holds_fullFirst
  have hread : Log.recordsOf (fullFirst.makeFolders narrow.folder).2 narrow.folder = .ok [] := by
    rw [hmade]
    decide +kernel
  have hstart : Appender.start fullFirst narrow = (.ok onFull.appender, onFull.disk) :=
    Prod.ext (by decide +kernel) rfl
  have hu : onFull.Along Usual before := by
    refine ⟨?_, trivial⟩
    simp only [Usual, Ordinary, Allowed]
    decide +kernel
  have hopen : w.appender.closed = false := by decide +kernel
  have hid : 1 ≤ w.appender.active.id := by decide +kernel
  have hvolumes : w.disk.volumes narrow.folder = [] := by decide +kernel
  have hc : Appender.Cuttable (w.disk.volumes narrow.folder) 1 0 := by
    rw [hvolumes]
    exact .inr ⟨List.forall_mem_nil _, rfl⟩
  have hrefused : ¬ w.CutGranted (.cut 1 0) := by
    simp only [CutGranted]
    decide +kernel
  have hsound : left.disk.Sound :=
    ⟨by decide +kernel, by decide +kernel, by decide +kernel, by decide +kernel⟩
  have hl : left.disk.locate left.appender.folder = .ok (Location.top.enter "wal") := by
    decide +kernel
  have hspares : Disk.Spares left.appender.folder left.disk (left.disk.unlink first) :=
    Disk.spares_unlink_full hsound hl (by decide) (by decide +kernel)
  have hwilling : fullFirst.Willing := fun _ => rfl
  have hused := (course_start hholds hwilling hread hstart).run hu
  have hleft : (left.disk.unlink first).Willing := (hused.step (e := .cut 1 0) hc).1
  have hshort : left.Along Ordinary (onceFree left short) := by
    refine ⟨⟨hspares, hleft⟩, ?_, trivial, trivial⟩
    simp only [Ordinary, Allowed]
    decide +kernel
  have hlong : left.Along Ordinary (onceFree left long) := by
    refine ⟨⟨hspares, hleft⟩, ?_, trivial, trivial⟩
    simp only [Ordinary, Allowed]
    decide +kernel
  have hrefused' : ¬ (w.refusing unremovable).CutGranted (.cut 1 0) := by
    simp only [CutGranted]
    decide +kernel
  obtain ⟨hfree, hany⟩ := after_refused_cut hholds hwilling hread hstart hu hopen hid hc
  obtain ⟨-, hiff, hintact, hreads, -⟩ := hfree hrefused
  have hkept := hintact ⟨trivial, trivial⟩
  have hoffset : w.appender.offset ≠ 0 := by decide +kernel
  refine ⟨⟨hholds, hwilling, hread, hstart, hu, hopen, hid, hc, hrefused, hshort, hlong⟩,
    fun hle => hoffset (hiff.mp hle), ⟨hrefused', (hany unremovable hrefused').1⟩, ?_, ?_⟩
  · have hdamaged := hreads (onceFree left short) hshort (by decide +kernel) hkept
    have hlanding : left.landing? (onceFree left short) = some w.appender.active.id := by
      decide +kernel
    have hpath : w.appender.active.path narrow.folder = "wal/00000000000000000001.wal" := by
      decide +kernel
    rw [if_neg (not_or.mpr ⟨hoffset, not_not.mpr hlanding⟩)] at hdamaged
    exact hdamaged.trans
      (congrArg (fun path => Except.error (Error.corruption path 0 (.unknownKind 0))) hpath)
  · have hwhole := hreads (onceFree left long) hlong (by decide +kernel) hkept
    have hlanding : left.landing? (onceFree left long) ≠ some w.appender.active.id := by
      decide +kernel
    have hlog : recordsIn (left.disk.volumes narrow.folder) ++ left.gains (onceFree left long) =
        [long] := by
      decide +kernel
    rw [if_pos (.inr hlanding)] at hwhole
    exact hwhole.trans (congrArg Except.ok hlog)

/-- An appender opened in an empty folder, with a record in its first segment and one in the buffer that
begins the second. -/
def inSecond : Writing :=
  Writing.run ⟨(Appender.blank narrow).moveTo (Segment.ofId 1) (.file 0) 0,
    (Appender.start Session.emptyFolder narrow).2⟩ [.append short false, .append long false]

-- the second segment is not removed, and the record is dropped from the buffer
example :
    let w := inSecond.refusing unremovable
    (w.appender.cut w.disk 1 0).1 =
      .error (.io .removeSegment "wal/00000000000000000002.wal" notPermitted) ∧
    (w.step (.cut 1 0)).appender.settled = 57 ∧ (w.step (.cut 1 0)).onDisk = 0 := by
  decide +kernel

/-- A write is dropped by a refused cut. The device is removed, and another write and a flush are
granted. Its record cannot be read: the segment begins with as many zeros as the dropped record had
octets. -/
theorem zeros_after_refused_cut :
    let w := Writing.step ⟨onDevice, fullFirst⟩ (.append (Record.write 1 1 [107] [118]) false)
    let left := w.step (.cut 1 0)
    let free := left.step (.disturb Session.emptyFolder)
    let next := free.step (.append (Record.write 2 1 [120] []) false)
    (Log.recordsOf fullFirst "wal" = .ok [] ∧ (Appender.start fullFirst unsynced).1 = .ok onDevice) ∧
    (w.appender.cut w.disk 1 0).1 =
      .error (.io .truncateSegment "wal/00000000000000000001.wal" .invalid) ∧
    left.appender.settled = 28 ∧ left.onDisk = 0 ∧
    (free.appender.append free.disk (Record.write 2 1 [120] []) false).1 = .ok 2 ∧
    (next.appender.flush next.disk).1 = .ok () ∧
    Log.recordsOf (next.step .flush).disk "wal" =
      .error (.corruption "wal/00000000000000000001.wal" 0 (.unknownKind 0)) := by
  decide +kernel

end Writing

end SegmentLog
