import SegmentLog.Proofs.Exactness
import SegmentLog.Proofs.Repair

/-!
Strict openings. Under the policy that refuses damage a log is opened exactly if each of its
segments is a row of encoded records; otherwise the answer names the first place where octets stand
but no record does (`Log.start_strictly`). Whatever the answer, no file that was there is touched, and
no file comes to be but the first segment of an empty folder (`Log.opens_strictly`).
-/

namespace SegmentLog

/-! ## Rows of encoded records -/

namespace Octets

def Encoded (bs : Octets) : Prop :=
  ∃ rs : List (Record × Octets), (∀ p ∈ rs, p.1.encode = .ok p.2) ∧ bs = rs.flatMap (·.2)

theorem encoded_iff {bs : Octets} : bs.Encoded ↔ bs.Whole := by
  rw [whole_iff]
  constructor
  · rintro ⟨rs, hencode, rfl⟩
    refine ⟨rs.map (·.1), ?_, ?_⟩
    · intro r hr
      obtain ⟨p, hp, rfl⟩ := List.mem_map.mp hr
      exact (Record.encode_eq_ok_iff.mp (hencode p hp)).1
    · rw [List.flatMap_map]
      exact List.flatMap_congr fun p hp => (Record.encode_eq_ok_iff.mp (hencode p hp)).2
  · rintro ⟨rs, hfits, rfl⟩
    refine ⟨rs.map fun r => (r, r.form), ?_, ?_⟩
    · intro p hp
      obtain ⟨r, hr, rfl⟩ := List.mem_map.mp hp
      exact Record.encode_of_fits (hfits r hr)
    · rw [List.flatMap_map]

/-- A string ends inside a header, or inside the payload that its header declares. -/
def EndsInside (bs : Octets) : Prop :=
  bs.length < Header.size ∨ bs.length < (Header.ofOctets bs).recordLength

/-- A string that does not decode ends too early, or the payload that it declares is there. -/
theorem decode_error {bs : Octets} {e : Error} (h : Record.decode bs = .error e) :
    (bs.EndsInside ∧ ∃ needed, e = .shortBuffer bs.length needed ∨
      e = .unexpectedEnd bs.length needed) ∨
    (¬ bs.EndsInside ∧ (∃ computed, e = .checksumMismatch (Header.ofOctets bs).checksum computed) ∨
      ¬ bs.EndsInside ∧ e = .unknownKind (Header.ofOctets bs).tag) := by
  unfold Record.decode at h
  split at h
  · rename_i hsize
    cases h
    exact .inl ⟨.inl hsize, _, .inl rfl⟩
  · rename_i hsize
    simp only at h
    split at h
    · rename_i htorn
      cases h
      exact .inl ⟨.inr htorn, _, .inr rfl⟩
    · rename_i htorn
      have hends : ¬ bs.EndsInside := by
        rintro (hshort | hshort)
        · exact hsize hshort
        · exact htorn hshort
      unfold Record.assemble at h
      simp only at h
      split at h
      · cases h
        exact .inr (.inl ⟨hends, _, rfl⟩)
      · split at h
        · cases h
          exact .inr (.inr ⟨hends, rfl⟩)
        · cases h

end Octets

/-- What the reader of a segment says of octets from an offset on that do not decode: that the segment
ends too early, or that it is corrupt, and why. -/
inductive Error.Tells (path : String) (offset : Nat) (rest : Octets) : Error → Prop
  | truncated (h : rest.EndsInside) (needed : Nat) :
    Tells path offset rest (.truncated path offset needed rest.length)
  | corrupt (h : ¬ rest.EndsInside) {cause : Error} (hd : Record.decode rest = .error cause) :
    Tells path offset rest (.corruption path offset cause)

theorem Error.tells_foundAt {rest : Octets} {cause : Error} (h : Record.decode rest = .error cause)
    (path : String) (offset : Nat) : Error.Tells path offset rest (cause.foundAt path offset) := by
  rcases Octets.decode_error h with
    ⟨hends, needed, rfl | rfl⟩ | ⟨hends, computed, rfl⟩ | ⟨hends, rfl⟩
  · exact .truncated hends needed
  · exact .truncated hends needed
  · exact .corrupt hends h
  · exact .corrupt hends h

/-! ## The first flaw of a log -/

/-- The first place of a log, in the order of its segments, where octets stand but no record does. -/
structure FirstFlaw (vs : List Volume) (v : Volume) (offset : Nat) : Prop where
  segment : ∃ front back, vs = front ++ v :: back ∧ ∀ w ∈ front, w.octets.Encoded
  before : Octets.Encoded (v.octets.take offset)
  inside : offset < v.octets.length
  nothing : ∀ (r : Record) (bs : Octets), r.encode = .ok bs → ¬ bs <+: v.octets.drop offset

theorem FirstFlaw.cons {vs : List Volume} {v w : Volume} {offset : Nat} (hw : w.octets.Encoded)
    (h : FirstFlaw vs v offset) : FirstFlaw (w :: vs) v offset := by
  obtain ⟨front, back, rfl, hfront⟩ := h.segment
  refine ⟨⟨w :: front, back, rfl, ?_⟩, h.before, h.inside, h.nothing⟩
  intro u hu
  rcases List.mem_cons.mp hu with rfl | hu
  · exact hw
  · exact hfront u hu

theorem firstFlaw_of_damage {vs : List Volume} {x : Damage} (h : (survey vs).damage = some x) :
    ∃ v, v.segment = x.segment ∧ FirstFlaw vs v x.offset ∧
      Record.decode (v.octets.drop x.offset) = .error x.cause := by
  induction vs with
  | nil => cases h
  | cons v rest ih =>
    rw [survey, Survey.ofOctets] at h
    by_cases hv : v.octets.Whole
    · rw [if_pos hv] at h
      obtain ⟨w, hw, hflaw, hdecode⟩ := ih h
      exact ⟨w, hw, hflaw.cons (Octets.encoded_iff.mpr hv), hdecode⟩
    · rw [if_neg hv, Nat.zero_add] at h
      cases h
      have hdecode : Record.decode (v.octets.drop v.octets.wholeLength) = .error v.octets.flaw := by
        rw [Octets.drop_wholeLength]
        exact Octets.decode_remnant v.octets
      have hbefore : Octets.Encoded (v.octets.take v.octets.wholeLength) :=
        Octets.encoded_iff.mpr (Octets.whole_take_wholeLength v.octets)
      refine ⟨v, rfl, ⟨⟨[], rest, rfl, by simp⟩, hbefore, Octets.wholeLength_lt hv, ?_⟩, hdecode⟩
      intro r bs hencode hprefix
      rw [Record.decode_of_isPrefix hencode hprefix] at hdecode
      cases hdecode

/-! ## What an opening leaves on the disk -/

namespace Appender

variable {a : Appender} {d d' : Disk} {settings : Settings} {vs : List Volume}

theorem buffer_of_start (h : Appender.start d settings = (.ok a, d')) : a.buffer = [] := by
  unfold Appender.start at h
  split at h
  · cases h
  · split at h
    · cases h
    · split at h
      · cases h
      · cases h
        rfl

theorem close_of_nil (h : a.buffer = []) : (a.close d).2.2 = d := by
  unfold Appender.close
  split
  · rfl
  · simp only [Appender.flush, h, if_true]
    exact letGo_disk _ d

/-- An appender that starts creates the first segment of an empty folder, or nothing. -/
theorem start_disk (h : d.Holds settings.folder vs) :
    (Appender.start d settings).2 = d ∨
    vs = [] ∧ ∃ loc, d.locate settings.folder = .ok loc ∧
      d.node? (loc.enter (Segment.fileName Segment.firstId)) = none ∧
      (Appender.start d settings).2 = d.create (loc.enter (Segment.fileName Segment.firstId)) := by
  by_cases hne : vs = []
  · subst hne
    obtain ⟨loc, hl⟩ := h.located
    have hmake := Disk.makeFolders_of_locate hl
    have hlist := h.list
    have hnone := h.bodyOf?_eq_none (Segment.named_ofId Segment.firstId) (by simp)
    have hlast : lastOf (([] : List Volume).map (·.segment)) = Segment.ofId Segment.firstId := rfl
    rcases Disk.openWrite_cases hnone with ⟨f, hopen⟩ | hopen | ⟨at', hat, -, hnode, hopen⟩
    · left
      simp only [Appender.start, hmake, hlist, hlast, openSegment, hopen]
    · left
      simp only [Appender.start, hmake, hlist, hlast, openSegment, hopen]
    · right
      refine ⟨rfl, at', hat, hnode, ?_⟩
      simp only [Appender.start, hmake, hlist, hlast, openSegment, hopen]
      rfl
  · obtain ⟨n, length, hstart, -⟩ := start_of_ne_nil h hne
    exact .inl (congrArg Prod.snd hstart)

/-- An appender starts where there is a segment, or where the first one can be opened. -/
theorem start_of_openWrite (h : d.Holds settings.folder vs)
    (hfirst : vs = [] →
      ∃ opened, d.openWrite ((Segment.ofId Segment.firstId).place settings.folder) = .ok opened) :
    ∃ n length d' ws,
      Appender.start d settings =
        (.ok ((blank settings).moveTo (lastOf (vs.map (·.segment))) n length), d') ∧
      Opens settings d vs ((blank settings).moveTo (lastOf (vs.map (·.segment))) n length) d' ws := by
  rcases start_spec h with hstart | ⟨e, hrefused, -, -⟩
  · exact hstart
  · exfalso
    by_cases hne : vs = []
    · obtain ⟨⟨n, d'⟩, hopen⟩ := hfirst hne
      subst hne
      have hsegment : openSegment d settings.folder (lastOf (([] : List Volume).map (·.segment))) =
          .ok (n, d'.size n, d') := by
        rw [show lastOf (([] : List Volume).map (·.segment)) = Segment.ofId Segment.firstId from rfl,
          openSegment, hopen]
      rw [start_of_openSegment h hsegment] at hrefused
      cases hrefused
    · obtain ⟨n, length, hstart, -⟩ := start_of_ne_nil h hne
      rw [hstart] at hrefused
      cases hrefused

end Appender

namespace Log

variable {d : Disk} {settings : Settings} {vs : List Volume}

theorem cutAt_of_strict {c : Cursor} {report : Report}
    (h : Replay.run d c .strict = .ok report) : report.cutAt = none := by
  simp only [Replay.run, reduceCtorEq, false_and, if_false] at h
  split at h
  · cases h
    exact Replay.cutAt_ofRecords _
  · cases h

/-- All that a strict opening does to the disk is to start the appender, which the log then has. -/
theorem start_of_strict (hv : settings.validate = .ok ()) (hp : settings.policy = .strict) :
    (Log.start d settings).2 = (Appender.start d settings).2 ∧
    ∀ l, (Log.start d settings).1 = .ok l → (Appender.start d settings).1 = .ok l.appender := by
  -- whatever is refused after it, the disk is the one that the appender leaves
  have hrefused (e : Error) (h : Log.start d settings = (.error e, (Appender.start d settings).2)) :
      (Log.start d settings).2 = (Appender.start d settings).2 ∧
      ∀ l, (Log.start d settings).1 = .ok l → (Appender.start d settings).1 = .ok l.appender := by
    rw [h]
    exact ⟨rfl, nofun⟩
  rcases hstart : Appender.start d settings with ⟨e | a, d'⟩
  · rw [← hstart]
    exact hrefused e (by simp only [Log.start, hv, hstart])
  · cases hcursor : Cursor.start d' settings.folder with
    | error e =>
      rw [← hstart]
      exact hrefused e (by simp only [Log.start, hv, hstart, hcursor])
    | ok c =>
      cases hrun : Replay.run d' c .strict with
      | error e =>
        rw [← hstart]
        exact hrefused e (by simp only [Log.start, hv, hstart, hcursor, hp, hrun])
      | ok report =>
        have hopened : Log.start d settings = (.ok (ofReport settings a report), d') := by
          simp only [Log.start, hv, hstart, hcursor, hp, hrun, cutAt_of_strict hrun]
        rw [hopened]
        refine ⟨rfl, ?_⟩
        rintro l ⟨⟩
        rfl

theorem drop_of_strict (hv : settings.validate = .ok ()) (hp : settings.policy = .strict) {l : Log}
    (h : (Log.start d settings).1 = .ok l) (d' : Disk) : l.drop d' = d' := by
  have hstart := (start_of_strict hv hp).2 l h
  exact Appender.close_of_nil (Appender.buffer_of_start (Prod.ext hstart rfl))

/-- A strict opening is granted for rows of encoded records, and refused for their first flaw. -/
theorem start_strictly (h : d.Holds settings.folder vs) (hv : settings.validate = .ok ())
    (hp : settings.policy = .strict)
    (hfirst : vs = [] →
      ∃ opened, d.openWrite ((Segment.ofId Segment.firstId).place settings.folder) = .ok opened) :
    ((∀ v ∈ vs, v.octets.Encoded) ∧ ∃ l, (Log.start d settings).1 = .ok l) ∨
    ((¬ ∀ v ∈ vs, v.octets.Encoded) ∧ ∃ e v offset, (Log.start d settings).1 = .error e ∧
      FirstFlaw vs v offset ∧
      Error.Tells (v.segment.path settings.folder) offset (v.octets.drop offset) e) := by
  have hencoded : (∀ v ∈ vs, v.octets.Encoded) ↔ Intact vs :=
    forall₂_congr fun v _ => Octets.encoded_iff
  rw [hencoded]
  cases hx : (survey vs).damage with
  | none =>
    have hi := intact_of_survey hx
    obtain ⟨n, length, d', ws, hstart, hopens⟩ := Appender.start_of_openWrite h hfirst
    exact .inl ⟨hi, _, congrArg Prod.fst (start_of_opens hi hv hstart rfl hopens)⟩
  | some x =>
    obtain ⟨v, hv', hflaw, hdecode⟩ := firstFlaw_of_damage hx
    refine .inr ⟨?_, x.error settings.folder, v, x.offset, ?_, hflaw, ?_⟩
    · intro hi
      rw [survey_of_intact hi] at hx
      cases hx
    · rw [start_strict h hv hp hx]
    · rw [Damage.error, ← hv']
      exact Error.tells_foundAt hdecode _ _

/-- A strict opening accepts exactly the rows of encoded records. If one of the segments is none,
the answer names the path and the offset of the first place where no record starts, and calls the
segment truncated exactly if it ends inside a header or the payload that the header declares. In
every case, also when the log has been dropped again, each place on the disk is as before, but that
an empty folder may have got its first segment, with nothing in it. -/
theorem opens_strictly (h : d.Holds settings.folder vs) (hv : settings.validate = .ok ())
    (hp : settings.policy = .strict) :
    let answer := (Log.start d settings).1
    let after := (Log.start d settings).2
    ((vs = [] →
        ∃ opened, d.openWrite ((Segment.ofId Segment.firstId).place settings.folder) = .ok opened) →
      ((∃ l, answer = .ok l) ↔ ∀ v ∈ vs, v.octets.Encoded) ∧
      ∀ e, answer = .error e → ∃ v offset, FirstFlaw vs v offset ∧
        Error.Tells (v.segment.path settings.folder) offset (v.octets.drop offset) e) ∧
    (∀ l, answer = .ok l → l.drop after = after) ∧
    (vs ≠ [] → after = d) ∧
    ∀ loc, d.locate settings.folder = .ok loc → ∀ place, d.Untouched after place ∨
      vs = [] ∧ place = loc.enter (Segment.fileName Segment.firstId) ∧ d.node? place = none ∧
        ∃ body, after.node? place = some (.file body) ∧ (after.bodies body).octets = [] := by
  intro answer after
  have hafter : after = (Appender.start d settings).2 := (start_of_strict hv hp).1
  refine ⟨fun hfirst => ?_, fun l hl => drop_of_strict hv hp hl after, fun hne => ?_, ?_⟩
  · rcases start_strictly h hv hp hfirst with ⟨hall, l, hl⟩ | ⟨hnot, e, v, offset, he, htells⟩
    · refine ⟨⟨fun _ => hall, fun _ => ⟨l, hl⟩⟩, fun e he => ?_⟩
      cases hl.symm.trans he
    · refine ⟨⟨?_, fun hall => absurd hall hnot⟩, ?_⟩
      · rintro ⟨l, hl⟩
        cases he.symm.trans hl
      · intro e' he'
        cases he.symm.trans he'
        exact ⟨v, offset, htells⟩
  · rcases Appender.start_disk h with hsame | ⟨hnil, -⟩
    · exact hafter.trans hsame
    · exact absurd hnil hne
  · intro loc hl place
    rcases Appender.start_disk h with hsame | ⟨rfl, loc', hl', hnode, hcreated⟩
    · left
      rw [hafter, hsame]
      exact Disk.Untouched.refl d place
    · obtain rfl : loc = loc' := Except.ok.inj (hl.symm.trans hl')
      rw [hafter, hcreated]
      by_cases hplace : place = loc.enter (Segment.fileName Segment.firstId)
      · subst hplace
        refine .inr ⟨rfl, rfl, hnode, d.nextBody, Disk.node?_create_self d _ (by simp), ?_⟩
        rw [Disk.bodies_create_self]
        rfl
      · exact .inl (Disk.untouched_create h.sound hplace)

/-- A segment that ends inside a header is refused at its offset, and what is there stays. A segment
that holds one record is accepted, under whatever number. -/
theorem opens_strictly_tornRecord :
    let torn : Settings := { Session.cutting with policy := .strict }
    let answer := (Log.start Session.tornRecord torn).1
    (Session.tornRecord.Holds "wal" Session.tornVolumes ∧ torn.validate = .ok () ∧
      torn.policy = .strict) ∧
    answer = .error (.truncated "wal/1.wal" 28 26 3) ∧
    (∃ v, FirstFlaw Session.tornVolumes v 28 ∧ v.segment.path "wal" = "wal/1.wal") ∧
    (Log.start Session.tornRecord torn).2 = Session.tornRecord ∧
    ∃ l, (Log.start Session.oneRecord Session.smallSegments).1 = .ok l ∧
      l.drop Session.oneRecord = Session.oneRecord := by
  intro torn answer
  have hanswer : answer = .error (.truncated "wal/1.wal" 28 26 3) := by decide +kernel
  have htorn : Session.tornRecord.Holds torn.folder Session.tornVolumes := Session.holds_tornRecord
  obtain ⟨hopens, -, hsame, -⟩ := opens_strictly htorn rfl rfl
  obtain ⟨v, offset, hflaw, htells⟩ := (hopens (by simp [Session.tornVolumes])).2 _ hanswer
  have hsmall : Session.oneRecord.Holds Session.smallSegments.folder _ := Session.holds_oneRecord
  obtain ⟨hone, hdrop, hkept, -⟩ := opens_strictly hsmall rfl rfl
  have hencoded : ∀ v ∈ [(⟨⟨7, "7.wal"⟩, (Record.write 5 0 [1] [2]).form⟩ : Volume)],
      v.octets.Encoded := fun v hv => Octets.encoded_iff.mpr (Session.intact_oneRecord v hv)
  obtain ⟨l, hl⟩ := (hone (by simp)).1.mpr hencoded
  refine ⟨⟨Session.holds_tornRecord, rfl, rfl⟩, hanswer, ?_, hsame (by simp [Session.tornVolumes]),
    l, hl, ?_⟩
  · generalize he : Error.truncated "wal/1.wal" 28 26 3 = e at htells
    cases htells with
    | truncated _ needed =>
      injection he with hpath hoffset
      rw [← hoffset] at hflaw
      exact ⟨v, hflaw, hpath.symm⟩
    | corrupt => cases he
  · rw [hkept (by simp)] at hdrop
    exact hdrop l hl

end Log

end SegmentLog
