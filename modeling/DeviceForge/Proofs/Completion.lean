import DeviceForge.Proofs.Reinsertion
import DeviceForge.Proofs.Zone.Damage
import DeviceForge.Proofs.Zone.Rewriting

/-!
# Completing earlier files with fragments

Fragments for the zones that an earlier file does not provide are written behind
it, and the whole is read once more.  The first fragment opens its zone, so an
unfinished zone of the earlier file does no harm to it, and what the file closes
stays closed.  A zone that the file closes twice is given up, though: the fragment
closes it once more, and is given up with it.
-/

namespace DeviceForge

open Text

/-- The body that an earlier file provides for a zone. -/
def providedBody? (style : MarkerStyle) (prior : Option String) (id : ZoneId) :
    Option String :=
  prior.bind fun text => (recoverZones style text).zones.get? id

/-- The earlier file holds the zone more than once, and none of its bodies is taken. -/
def GivesUp (style : MarkerStyle) (prior : Option String) (id : ZoneId) : Prop :=
  ∃ text ∈ prior, .repeated id ∈ (recoverZones style text).damage

section Provided

variable {style : MarkerStyle} {prior : Option String} {text : String} {id : ZoneId}

theorem not_givesUp_none : ¬ GivesUp style none id := by
  simp [GivesUp]

theorem givesUp_some_iff : GivesUp style (some text) id ↔
    2 ≤ ((style.closings none (splitLines text.toList)).map Prod.fst).count id := by
  rw [← repeated_mem_damage_recoverZones_iff]
  simp [GivesUp]

instance : Decidable (GivesUp style prior id) :=
  match prior with
  | none => isFalse not_givesUp_none
  | some _ => decidable_of_iff' _ givesUp_some_iff

theorem providedBody?_eq_none_of_givesUp (h : GivesUp style prior id) :
    providedBody? style prior id = none := by
  cases prior with
  | none => rfl
  | some text =>
      have hcount := givesUp_some_iff.mp h
      rw [providedBody?, Option.bind_some, get?_recoverZones_eq_none_iff]
      omega

theorem providedBody?_some (style : MarkerStyle) (text : String) (id : ZoneId) :
    providedBody? style (some text) id = OrderedMap.find? id
      ((unrepeated (style.closings none (splitLines text.toList))).map
        ZoneText.entry) := by
  rw [providedBody?, Option.bind_some, OrderedMap.get?, entries_recoverZones]

theorem carriedBodies_empty (style : MarkerStyle) (prior : Option String)
    (id : ZoneId) :
    carriedBodies style prior {} id = providedBody? style prior id := by
  cases prior with
  | none => rfl
  | some text => exact carried?_empty _ id

end Provided

/-! ## What a file is completed with -/

section Completed

variable {s : Skeleton} {f : Fragments} {text : String} {id : ZoneId}

/-- The zones of a skeleton that an earlier text does not provide. -/
def unprovided (s : Skeleton) (text : String) (id : ZoneId) : Bool :=
  s.zoneIds.contains id && !(recoverZones s.style text).zones.contains id

theorem unprovided_iff : unprovided s text id = true ↔ id ∈ s.zoneIds ∧
    ((s.style.closings none (splitLines text.toList)).map Prod.fst).count id ≠ 1 := by
  rw [unprovided, Bool.and_eq_true, Bool.not_eq_true', ← Bool.not_eq_true,
    OrderedMap.contains_iff_mem_keys, mem_keys_recoverZones_iff, List.contains_iff_mem]

/-- The completed text closes the zones of the earlier one, and then those of the
fragments. -/
theorem closings_withFragments (hf : f.Readable s.style)
    (hnames : ∀ id ∈ s.zoneIds, id.text ≠ "") (text : String) :
    ∃ after, withFragments f s (some text) = some after ∧
      s.style.closings none (splitLines after.toList) =
        s.style.closings none (splitLines text.toList) ++
          (f.readBack (unprovided s text)).map fun e => (e.1, e.2.toList) := by
  have hwanted : ∀ id, unprovided s text id = true → id.text ≠ "" := fun id h =>
    hnames id (unprovided_iff.mp h).1
  have hadded := Fragments.closings_priorTextWhere_of_opened hf hwanted
  by_cases hempty : (f.priorTextWhere s.style (unprovided s text)).isEmpty = true
  · refine ⟨text, if_pos hempty, ?_⟩
    rw [← hadded none, String.isEmpty_iff.mp hempty]
    exact (List.append_nil _).symm
  · refine ⟨endLine text ++ f.priorTextWhere s.style (unprovided s text),
      if_neg hempty, ?_⟩
    rw [String.toList_append, toList_endLine, splitLines_append (complete_ended _),
      MarkerStyle.closings_append, ← MarkerStyle.closings_splitLines, hadded]

/-- The fragments for some ids, as zones that lines close. -/
def fragmentZones (f : Fragments) (wanted : ZoneId → Bool) : List ZoneText :=
  (f.readBack wanted).map fun e => (e.1, e.2.toList)

theorem map_fst_fragmentZones (f : Fragments) (wanted : ZoneId → Bool) :
    (fragmentZones f wanted).map Prod.fst = (f.readBack wanted).map Prod.fst := by
  simp [fragmentZones, Function.comp_def]

/-- The fragments that become zones are those that are wanted and whose id can be read
back. -/
theorem mem_fragmentZones_iff {wanted : ZoneId → Bool} {body : String} :
    (id, body.toList) ∈ fragmentZones f wanted ↔
      f.get? id = some body ∧ wanted id = true ∧ id.text ≠ "" := by
  rw [OrderedMap.get?_eq_some_iff, fragmentZones, Fragments.readBack]
  simp only [List.mem_map, List.mem_filter, Prod.mk.injEq, String.toList_inj,
    Prod.exists, Bool.and_eq_true, decide_eq_true_eq]
  constructor
  · rintro ⟨_, _, ⟨hentry, hwanted⟩, rfl, rfl⟩
    exact ⟨hentry, hwanted⟩
  · rintro ⟨hentry, hwanted⟩
    exact ⟨_, _, ⟨hentry, hwanted⟩, rfl, rfl⟩

theorem count_fragmentZones_of_not_wanted {wanted : ZoneId → Bool}
    (h : wanted id = false) :
    ((fragmentZones f wanted).map Prod.fst).count id = 0 := by
  rw [List.count_eq_zero, map_fst_fragmentZones]
  intro hid
  obtain ⟨e, he, rfl⟩ := List.mem_map.mp hid
  have htest := (List.mem_filter.mp he).2
  rw [h] at htest
  exact absurd htest (by simp)

theorem count_fragmentZones_of_mem {wanted : ZoneId → Bool} {chars : List Char}
    (h : (id, chars) ∈ fragmentZones f wanted) :
    ((fragmentZones f wanted).map Prod.fst).count id = 1 := by
  have hnodup := f.nodup_readBack wanted
  rw [← map_fst_fragmentZones] at hnodup
  exact List.count_eq_one_of_mem hnodup (List.mem_map_of_mem (f := Prod.fst) h)

/-- The body that a zone of a completed file takes. -/
def completedBody? (f : Fragments) (style : MarkerStyle) (prior : Option String)
    (id : ZoneId) :
    Option String :=
  (providedBody? style prior id).or (if GivesUp style prior id then none else f.get? id)

/-- A zone that the earlier text closes once keeps its body; one that it never closes
takes its fragment; and one that it closes more often is given up, with its fragment. -/
theorem get?_recoverZones_of_closings_append {style : MarkerStyle} {text after : String}
    {wanted : ZoneId → Bool} (hid : id.text ≠ "")
    (hwanted : wanted id = true ↔
      ((style.closings none (splitLines text.toList)).map Prod.fst).count id ≠ 1)
    (hafter : style.closings none (splitLines after.toList) =
      style.closings none (splitLines text.toList) ++ fragmentZones f wanted) :
    (recoverZones style after).zones.get? id =
      completedBody? f style (some text) id := by
  have hprovided (body : String) :
      (recoverZones style text).zones.get? id = some body ↔ _ :=
    get?_recoverZones_eq_some_iff
  have hcompleted (body : String) :
      (recoverZones style after).zones.get? id = some body ↔ _ :=
    get?_recoverZones_eq_some_iff
  have hunprovided : (recoverZones style text).zones.get? id = none ↔ _ :=
    get?_recoverZones_eq_none_iff
  have hlost : (recoverZones style after).zones.get? id = none ↔ _ :=
    get?_recoverZones_eq_none_iff
  have hgives : GivesUp style (some text) id ↔ _ := givesUp_some_iff
  simp only [hafter, List.map_append, List.count_append, List.mem_append]
    at hcompleted hlost
  generalize style.closings none (splitLines text.toList) = closed at *
  rw [completedBody?, providedBody?, Option.bind_some]
  rcases Nat.lt_trichotomy ((closed.map Prod.fst).count id) 1 with
    hcount | hcount | hcount
  · rw [hunprovided.mpr hcount.ne, Option.none_or, if_neg (hgives.not.mpr (by omega))]
    ext body
    rw [hcompleted]
    constructor
    · rintro ⟨-, hmem | hmem⟩
      · have hclosed : 0 < (closed.map Prod.fst).count id :=
          List.count_pos_iff.mpr (List.mem_map_of_mem (f := Prod.fst) hmem)
        omega
      · exact (mem_fragmentZones_iff.mp hmem).1
    · intro hbody
      have hmem := mem_fragmentZones_iff.mpr ⟨hbody, hwanted.mpr hcount.ne, hid⟩
      exact ⟨by rw [count_fragmentZones_of_mem hmem]; omega, Or.inr hmem⟩
  · have hunwanted : wanted id = false := by
      rw [← Bool.not_eq_true, hwanted]
      exact not_not_intro hcount
    have hclosed : id ∈ closed.map Prod.fst :=
      List.count_pos_iff.mp (by rw [hcount]; omega)
    obtain ⟨⟨_, chars⟩, hzone, rfl⟩ := List.mem_map.mp hclosed
    have htext := (hprovided (String.ofList chars)).mpr ⟨hcount, by simpa using hzone⟩
    have hcomplete := (hcompleted (String.ofList chars)).mpr
      ⟨by rw [count_fragmentZones_of_not_wanted hunwanted, hcount],
        Or.inl (by simpa using hzone)⟩
    rw [htext, hcomplete, Option.some_or]
  · rw [hunprovided.mpr hcount.ne', hlost.mpr (by omega), if_pos (hgives.mpr hcount),
      Option.none_or]

/-- What a merge finds in a completed file. -/
theorem carriedBodies_withFragments_of_prior (hf : f.Readable s.style)
    (hnames : ∀ id ∈ s.zoneIds, id.text ≠ "") (hid : id ∈ s.zoneIds)
    (prior : Option String) :
    carriedBodies s.style (withFragments f s prior) {} id =
      completedBody? f s.style prior id := by
  cases prior with
  | none =>
      rw [carriedBodies_withFragments_empty hf hid (hnames id hid), completedBody?,
        if_neg not_givesUp_none]
      rfl
  | some text =>
      obtain ⟨after, hafter, hclosings⟩ := closings_withFragments hf hnames text
      rw [carriedBodies_empty, hafter]
      refine get?_recoverZones_of_closings_append (hnames id hid) ?_ hclosings
      rw [unprovided_iff, and_iff_right hid]

end Completed

section Files

variable {settings : Settings} {cls : DeviceClass} {files : List Skeleton}
  {warnings : List Warning} {prior : PriorSource}

theorem text_ne_empty_of_skeletons
    (hfiles : skeletons settings cls = .ok (files, warnings)) {s : Skeleton}
    (hs : s ∈ files) : ∀ id ∈ s.zoneIds, id.text ≠ "" := by
  obtain ⟨i, issues, -, hemit, -⟩ := skeletons_eq_ok_iff.mp hfiles
  exact fun id hid => text_ne_empty_of_mem_zoneIds (eq_of_emit hemit ▸ hs) hid

/-- Whatever the earlier files are, a zone takes the body that its file provides, or
else its fragment unless the file has given the zone up. -/
theorem exists_generateWithFragments_completed
    (hfiles : skeletons settings cls = .ok (files, warnings))
    (hprior : ∀ s ∈ files, prior s.file ≠ .unreadable) {f : Fragments}
    (hf : f.Readable (.ofLanguage cls.language)) :
    ∃ out, generateWithFragments settings cls f prior {} = .ok (out, {}) ∧
      out.files.entries = files.map fun s =>
        (s.file, s.render (completedBody? f s.style (prior s.file).content?)) := by
  obtain ⟨out, hout, hentries, -⟩ :=
    exists_generateWithFragments_of_readable hfiles hprior f {}
  refine ⟨out, hout, ?_⟩
  rw [hentries, List.map_inj_left]
  intro s hs
  have hstyle := style_of_mem_skeletons hfiles hs
  rw [text_merge]
  congr 1
  refine Skeleton.render_congr fun id body indent hmem => ?_
  rw [carriedBodies_withFragments_of_prior (hstyle ▸ hf)
    (text_ne_empty_of_skeletons hfiles hs)
      (Skeleton.mem_zoneIds_iff.mpr ⟨body, indent, hmem⟩)]

/-- The body that the earlier file provides for a zone, or else the fragment of its id.
-/
def providedOrFragment? (f : Fragments) (style : MarkerStyle) (prior : Option String)
    (id : ZoneId) : Option String :=
  (providedBody? style prior id).or (f.get? id)

theorem completedBody?_of_not_givesUp {f : Fragments} {style : MarkerStyle}
    {content : Option String} {id : ZoneId} (h : ¬ GivesUp style content id) :
    completedBody? f style content id = providedOrFragment? f style content id := by
  rw [completedBody?, if_neg h]
  rfl

theorem completedBody?_of_givesUp {f : Fragments} {style : MarkerStyle}
    {content : Option String} {id : ZoneId} (h : GivesUp style content id) :
    completedBody? f style content id = none := by
  rw [completedBody?, if_pos h, providedBody?_eq_none_of_givesUp h]
  rfl

theorem providedOrFragment?_of_givesUp {f : Fragments} {style : MarkerStyle}
    {content : Option String} {id : ZoneId} (h : GivesUp style content id) :
    providedOrFragment? f style content id = f.get? id := by
  rw [providedOrFragment?, providedBody?_eq_none_of_givesUp h, Option.none_or]

/-- A fragment for a zone that an earlier file has given up is missed: with some bodies
the file comes out shorter than it should. -/
theorem exists_render_completedBody?_ne {s : Skeleton} {content : Option String}
    {ids : List ZoneId} (hids : ids.Nodup) (hlines : ∀ id ∈ ids, '\n' ∉ id.text.toList)
    {id : ZoneId} (hzone : id ∈ s.zoneIds) (hid : id ∈ ids)
    (hgives : GivesUp s.style content id) :
    ∃ f : Fragments, f.keys = ids ∧ (∀ style, f.Readable style) ∧
      s.render (completedBody? f s.style content) ≠
        s.render (providedOrFragment? f s.style content) := by
  obtain ⟨n, hn⟩ := exists_length_le s.segments
  obtain ⟨body, indent, hmem⟩ := Skeleton.mem_zoneIds_iff.mp hzone
  let f := unevenFragments hids id n
  have hkeys : f.keys = ids := keys_unevenFragments
  have hlength : ∀ target chars, f.get? target = some chars →
      (ended chars.toList).length = if target = id then n + 1 else n :=
    fun target chars h =>
      length_of_mem_unevenFragments (OrderedMap.get?_eq_some_iff.mp h)
  set few := completedBody? f s.style content with hfew
  set all := providedOrFragment? f s.style content with hall
  have hle : ∀ target default blanks, Segment.zone target default blanks ∈ s.segments →
      (Skeleton.bodyChars few target default).length ≤
        (Skeleton.bodyChars all target default).length := by
    intro target default blanks hsegment
    by_cases htarget : GivesUp s.style content target
    · rw [Skeleton.bodyChars, Skeleton.bodyChars, hfew,
        completedBody?_of_givesUp htarget, hall, providedOrFragment?_of_givesUp htarget]
      cases hget : f.get? target with
      | none => exact le_rfl
      | some chars =>
          have hdefault := hn target default blanks hsegment
          rw [Option.getD_none, Option.getD_some, hlength target chars hget]
          split <;> omega
    · rw [Skeleton.bodyChars, Skeleton.bodyChars, hfew,
        completedBody?_of_not_givesUp htarget]
  have hlonger :
      (Skeleton.bodyChars few id body).length <
        (Skeleton.bodyChars all id body).length := by
    obtain ⟨chars, hget⟩ : ∃ chars, f.get? id = some chars := by
      rw [← Option.ne_none_iff_exists', ne_eq, OrderedMap.get?_eq_none_iff, hkeys]
      exact not_not_intro hid
    have hdefault := hn id body indent hmem
    rw [Skeleton.bodyChars, Skeleton.bodyChars, hfew, completedBody?_of_givesUp hgives,
      hall, providedOrFragment?_of_givesUp hgives, hget, Option.getD_none,
      Option.getD_some, hlength id chars hget, if_pos rfl]
    omega
  exact ⟨f, hkeys, readable_unevenFragments hlines,
    Skeleton.render_ne_of_shorter hle hmem hlonger⟩

/-- Where an earlier file has given up a zone, there are fragments that are not put
where they belong. -/
theorem exists_fragment_missed {ids : List ZoneId} (hids : ids.Nodup)
    (hlines : ∀ id ∈ ids, '\n' ∉ id.text.toList)
    (hfiles : skeletons settings cls = .ok (files, warnings))
    (hprior : ∀ s ∈ files, prior s.file ≠ .unreadable) {s : Skeleton} (hs : s ∈ files)
    {id : ZoneId} (hzone : id ∈ s.zoneIds) (hid : id ∈ ids)
    (hgives : GivesUp s.style (prior s.file).content? id) :
    ∃ f : Fragments, f.keys = ids ∧ f.Readable (.ofLanguage cls.language) ∧ ∀ out,
      generateWithFragments settings cls f prior {} = .ok (out, {}) →
      out.files.entries ≠ files.map fun s =>
        (s.file, s.render (providedOrFragment? f s.style (prior s.file).content?)) := by
  obtain ⟨f, hkeys, hf, hne⟩ :=
    exists_render_completedBody?_ne hids hlines hzone hid hgives
  refine ⟨f, hkeys, hf _, fun out hout hsame => ?_⟩
  obtain ⟨out', hout', hentries⟩ :=
    exists_generateWithFragments_completed hfiles hprior (hf (.ofLanguage cls.language))
  obtain rfl : out = out' := (Prod.mk.inj (Except.ok.inj (hout.symm.trans hout'))).1
  rw [hentries, List.map_inj_left] at hsame
  exact hne (Prod.mk.inj (hsame s hs)).2

/-- With nothing pending, every zone takes the body that the earlier file of its name
provides, or else its fragment, or else its default, whatever the bodies of the
fragments are, in exactly these cases: no earlier file holds a zone more than once that
it has a fragment for. -/
theorem generateWithFragments_completes_iff {ids : List ZoneId} (hids : ids.Nodup)
    (hlines : ∀ id ∈ ids, '\n' ∉ id.text.toList)
    (hfiles : skeletons settings cls = .ok (files, warnings))
    (hprior : ∀ s ∈ files, prior s.file ≠ .unreadable) :
    (∀ f : Fragments, f.keys = ids → f.Readable (.ofLanguage cls.language) →
      ∃ out, generateWithFragments settings cls f prior {} = .ok (out, {}) ∧
        out.files.entries = files.map fun s =>
          (s.file, s.render (providedOrFragment? f s.style (prior s.file).content?))) ↔
    ∀ s ∈ files, ∀ id ∈ s.zoneIds, id ∈ ids →
      ¬ GivesUp s.style (prior s.file).content? id := by
  constructor
  · intro hall s hs id hzone hid hgives
    obtain ⟨f, hkeys, hf, hne⟩ :=
      exists_fragment_missed hids hlines hfiles hprior hs hzone hid hgives
    obtain ⟨out, hout, hentries⟩ := hall f hkeys hf
    exact hne out hout hentries
  · rintro hkept f rfl hf
    obtain ⟨out, hout, hentries⟩ :=
      exists_generateWithFragments_completed hfiles hprior hf
    refine ⟨out, hout, ?_⟩
    rw [hentries, List.map_inj_left]
    intro s hs
    congr 1
    refine Skeleton.render_congr fun id body indent hmem => ?_
    have hid : id ∈ s.zoneIds := Skeleton.mem_zoneIds_iff.mpr ⟨body, indent, hmem⟩
    by_cases hgives : GivesUp s.style (prior s.file).content? id
    · have hnone : f.get? id = none :=
        OrderedMap.get?_eq_none_iff.mpr fun hkey => hkept s hs id hid hkey hgives
      rw [completedBody?_of_givesUp hgives, providedOrFragment?_of_givesUp hgives,
        hnone]
    · rw [completedBody?_of_not_givesUp hgives]

end Files

def brokenOffText : String :=
  "int x;\n" ++ MarkerStyle.block.beginMarker (.ofMember .command "Go" .execute) ++
    "\n  old();\n" ++
    MarkerStyle.block.endMarker (.ofMember .command "Go" .execute) ++ "\n" ++
    MarkerStyle.block.beginMarker (.ofClass .includes) ++ "\n#include"

/-- The earlier file keeps its command, and the zone that it breaks off comes from the
fragments. -/
theorem generateWithFragments_completes_iff_goMotor :
    ∃ files out, skeletons {} goMotor = .ok (files, []) ∧
      generateWithFragments {} goMotor goFragments (fun _ => .text brokenOffText) {} =
        .ok (out, {}) ∧
      out.files.entries = files.map (fun s =>
        (s.file, s.render
          (providedOrFragment? goFragments s.style (some brokenOffText)))) ∧
      providedOrFragment? goFragments .block (some brokenOffText)
        (.ofMember .command "Go" .execute) = some "  old();\n" ∧
      providedOrFragment? goFragments .block (some brokenOffText)
        (.ofClass .additionalMethods) = some "int spare();\n" ∧
      providedOrFragment? goFragments .block (some brokenOffText) (.ofClass .includes) =
        none := by
  obtain ⟨i, files, hfiles, -⟩ := exists_skeletons_goMotor
  have hclosings : MarkerStyle.block.closings none (splitLines brokenOffText.toList) =
      [(.ofMember .command "Go" .execute, "  old();\n".toList)] := by
    simp only [brokenOffText, MarkerStyle.beginMarker, MarkerStyle.endMarker,
      String.toList_append]
    decide +kernel
  have hkept : ∀ id ∈ goFragments.keys, ¬ GivesUp .block (some brokenOffText) id := by
    simp only [givesUp_some_iff, hclosings]
    decide
  let prior : PriorSource := fun _ => .text brokenOffText
  have hprior : ∀ s ∈ files, prior s.file ≠ .unreadable := by simp [prior]
  have hlines : ∀ id ∈ goFragments.keys, '\n' ∉ id.text.toList := by decide
  obtain ⟨out, hout, hentries⟩ :=
    (generateWithFragments_completes_iff goFragments.nodup_keys hlines hfiles
      hprior).mpr (fun s hs id _ hid => by
        rw [style_of_mem_skeletons hfiles hs]
        exact hkept id hid)
      goFragments rfl readable_goFragments
  refine ⟨files, out, hfiles, hout, hentries, ?_, ?_, ?_⟩ <;>
    rw [providedOrFragment?, providedBody?_some, hclosings] <;> decide

/-- An earlier text that provides two bodies for the command. -/
def doubledText : String :=
  let zone :=
    MarkerStyle.block.beginMarker (.ofMember .command "Go" .execute) ++
      "\n  old();\n" ++
      MarkerStyle.block.endMarker (.ofMember .command "Go" .execute) ++ "\n"
  zone ++ zone

/-- Where the earlier file holds the zone of a fragment twice, the fragment is not put
there. -/
theorem not_forall_generateWithFragments_completes :
    ¬ ∀ settings cls files warnings prior,
      skeletons settings cls = .ok (files, warnings) →
      (∀ s ∈ files, prior s.file ≠ .unreadable) →
      ∀ f : Fragments, f.Readable (.ofLanguage cls.language) →
      ∃ out, generateWithFragments settings cls f prior {} = .ok (out, {}) ∧
        out.files.entries = files.map fun s =>
          (s.file, s.render
            (providedOrFragment? f s.style (prior s.file).content?)) := by
  intro hall
  obtain ⟨i, files, hfiles, -, hmem⟩ := exists_skeletons_goMotor
  obtain ⟨s, hs, hzone⟩ :
    ∃ s ∈ files, ZoneId.ofMember .command "Go" .execute ∈ s.zoneIds :=
    List.mem_flatMap.mp ((hmem _).mpr (Or.inr List.mem_cons_self))
  have hgives : GivesUp s.style (some doubledText)
      (.ofMember .command "Go" .execute) := by
    rw [style_of_mem_skeletons hfiles hs, givesUp_some_iff]
    simp only [doubledText, MarkerStyle.beginMarker, MarkerStyle.endMarker,
      String.toList_append]
    decide +kernel
  let prior : PriorSource := fun _ => .text doubledText
  have hprior : ∀ s ∈ files, prior s.file ≠ .unreadable := by simp [prior]
  obtain ⟨f, -, hf, hne⟩ := exists_fragment_missed (List.nodup_singleton _)
    (by decide) hfiles hprior hs hzone List.mem_cons_self hgives
  obtain ⟨out, hout, hentries⟩ := hall _ _ _ _ _ hfiles hprior f hf
  exact hne out hout hentries

end DeviceForge
