import DeviceForge.Proofs.Fragments
import DeviceForge.Proofs.Regeneration
import DeviceForge.Proofs.Source.Distribution

/-!
# Putting fragments into zones

A generation with fragments writes the ones that a file has zones for as an
earlier file of it, and merges that.  Without earlier files and without pending
renames every fragment goes where its id says.  Under pending renames the merge
sees only the fragments that the file has zones for already, so a fragment under
the old name of a member is left out.
-/

namespace DeviceForge

open Text

variable {settings : Settings} {cls : DeviceClass} {renames pending : Renames}
  {files : List Skeleton} {warnings : List Warning} {out : Output} {f : Fragments}

/-- What a generation with fragments that succeeds has done. -/
theorem generateWithFragments_eq_ok_iff {prior : PriorSource} :
    generateWithFragments settings cls f prior renames = .ok (out, pending) ↔
      ∃ files warnings, skeletons settings cls = .ok (files, warnings) ∧
        (∀ s ∈ files, prior s.file ≠ .unreadable) ∧
        out.files = (outputOf warnings (files.map fun s =>
          merge s (withFragments f s (prior s.file).content?) renames)).files ∧
        out.warnings = (outputOf warnings (files.map fun s =>
          merge s (withFragments f s (prior s.file).content?) renames)).warnings ++
          (f.leftOver files).map noSlotWarning ∧
        pending = {} := by
  rw [generateWithFragments, Outcome.bind_eq_ok_iff]
  simp only [Outcome.bind_eq_ok_iff, Outcome.pure_eq_ok_iff, readPriors_eq_ok_iff,
    Prod.exists, Prod.mk.injEq]
  constructor
  · rintro ⟨files, warnings, hfiles, priors, ⟨hreadable, rfl⟩, rfl, rfl⟩
    refine ⟨files, warnings, hfiles, hreadable, ?_, ?_, rfl⟩ <;>
      simp [mergeAll, Function.comp_def]
  · rintro ⟨files, warnings, hfiles, hreadable, hout, hwarnings, rfl⟩
    refine ⟨files, warnings, hfiles, _, ⟨hreadable, rfl⟩, ?_, rfl⟩
    obtain ⟨outFiles, outWarnings⟩ := out
    simp only at hout hwarnings
    simp [mergeAll, Function.comp_def, hout, hwarnings]

/-- Where all earlier files can be read, a generation with fragments fails only where
the class has no files. -/
theorem exists_generateWithFragments_of_readable
    (hfiles : skeletons settings cls = .ok (files, warnings)) {prior : PriorSource}
    (hprior : ∀ s ∈ files, prior s.file ≠ .unreadable) (f : Fragments)
    (renames : Renames) :
    ∃ out, generateWithFragments settings cls f prior renames = .ok (out, {}) ∧
      out.files.entries = files.map (fun s =>
        (s.file, (merge s (withFragments f s (prior s.file).content?) renames).text)) ∧
      out.warnings = warnings ++
        files.flatMap (fun s =>
          (merge s (withFragments f s (prior s.file).content?) renames).warnings) ++
        (f.leftOver files).map noSlotWarning := by
  let merged := outputOf warnings (files.map fun s =>
    merge s (withFragments f s (prior s.file).content?) renames)
  refine ⟨⟨merged.files, merged.warnings ++ (f.leftOver files).map noSlotWarning⟩,
    generateWithFragments_eq_ok_iff.mpr
      ⟨files, warnings, hfiles, hprior, rfl, rfl, rfl⟩, ?_, ?_⟩
  · exact entries_files_outputOf (nodup_files hfiles) warnings
      (fun s => withFragments f s (prior s.file).content?) renames
  · simp [merged, outputOf, List.flatMap_map]

/-- Without earlier files, generation merges every skeleton with its fragments. -/
theorem exists_generateWithFragments
    (hfiles : skeletons settings cls = .ok (files, warnings)) (f : Fragments)
    (renames : Renames) :
    ∃ out, generateWithFragments settings cls f .none renames = .ok (out, {}) ∧
      out.files.entries =
        files.map (fun s => (s.file, (merge s (withFragments f s none) renames).text)) ∧
      out.warnings = warnings ++
        files.flatMap (fun s => (merge s (withFragments f s none) renames).warnings) ++
        (f.leftOver files).map noSlotWarning :=
  exists_generateWithFragments_of_readable hfiles (by simp [PriorSource.none]) f renames

theorem exists_generate_of_text
    (hfiles : skeletons settings cls = .ok (files, warnings)) (text : String)
    (renames : Renames) :
    ∃ out, generate settings cls (fun _ => .text text) renames = .ok (out, {}) ∧
      out.files.entries =
        files.map fun s => (s.file, (merge s (some text) renames).text) := by
  refine ⟨_, generate_eq_ok_iff.mpr ⟨files, warnings, hfiles, by simp, rfl, rfl⟩, ?_⟩
  exact entries_files_outputOf (nodup_files hfiles) warnings
    (fun _ => some text) renames

/-- The zones that a merge finds in fragments that are written out. -/
theorem carriedBodies_priorTextWhere {style : MarkerStyle} (hf : f.Readable style)
    (wanted : ZoneId → Bool) (renames : Renames) (target : ZoneId) :
    carriedBodies style (some (f.priorTextWhere style wanted)) renames target =
      (carried? renames (f.readBack wanted) target).map Prod.snd := by
  rw [carriedBodies, Option.bind_some, Fragments.entries_recoverZones_priorTextWhere hf]

/-- Without an earlier file, a file is merged with the fragments that it has zones for,
if any. -/
theorem withFragments_none (f : Fragments) (s : Skeleton) :
    withFragments f s none =
      if (f.priorTextWhere s.style s.zoneIds.contains).isEmpty then none
      else some (f.priorTextWhere s.style s.zoneIds.contains) := by
  have hwanted : (fun id => s.zoneIds.contains id &&
      !(OrderedMap.empty : OrderedMap ZoneId String).contains id) =
        s.zoneIds.contains := by
    funext id
    exact Bool.and_true _
  rw [withFragments, hwanted]
  rfl

/-- What a merge takes from the fragments is what the record of renames gives, as their
text reads back exactly. -/
theorem carriedBodies_withFragments {s : Skeleton} (hf : f.Readable s.style)
    (renames : Renames) (target : ZoneId) :
    carriedBodies s.style (withFragments f s none) renames target =
      (carried? renames (f.readBack s.zoneIds.contains) target).map Prod.snd := by
  have hrecovered := carriedBodies_priorTextWhere hf s.zoneIds.contains renames target
  rw [withFragments_none]
  split
  · next hempty =>
      -- nothing is written, and nothing would be found in it
      rw [← hrecovered, String.isEmpty_iff.mp hempty]
      rfl
  · exact hrecovered

theorem eq_of_resolve_eq_keep {id target : ZoneId}
    (h : renames.resolve id = .keep target) :
    id = target := by
  rw [Renames.resolve] at h
  split at h
  · exact Resolution.keep.inj h
  · split at h
    · exact absurd h (by simp)
    · split at h
      · exact absurd h (by simp)
      · exact Resolution.keep.inj h

theorem text_ne_empty_of_resolve_eq_renamed {id target : ZoneId}
    (h : renames.resolve id = .renamed target) : id.text ≠ "" := by
  intro hempty
  have hslot : id.slot? = none := by simp [ZoneId.slot?, hempty, cut?]
  simp [Renames.resolve, hslot] at h

/-- The first element of a list that passes a test is the first one of a part that it is
in. -/
theorem find?_filter_of_find? {α : Type} {items : List α} {p q : α → Bool} {a : α}
    (hfind : items.find? q = some a) (ha : p a = true) :
    (items.filter p).find? q = some a := by
  obtain ⟨hq, before, after, rfl, hbefore⟩ := List.find?_eq_some_iff_append.mp hfind
  rw [List.filter_append, List.filter_cons_of_pos ha, List.find?_eq_some_iff_append]
  exact ⟨hq, _, _, rfl, fun other hother =>
    hbefore other (List.mem_of_mem_filter hother)⟩

theorem find?_filter_of_forall {α : Type} {items : List α} {p q : α → Bool}
    (h : ∀ a ∈ items, q a = true → p a = true) :
    (items.filter p).find? q = items.find? q := by
  rw [List.find?_filter]
  refine List.find?_congr fun a ha => ?_
  rw [Bool.eq_iff_iff, decide_eq_true_eq]
  exact ⟨fun hpq => hpq.2, fun hq => ⟨h a ha hq, hq⟩⟩

/-- Of some zones a merge carries the same one to a place as of all, if the first one
that moves there is among them and so is the one that stays there. -/
theorem carried?_filter {zones : List (ZoneId × String)} {p : ZoneId × String → Bool}
    {target : ZoneId}
    (hmoved : ∀ zone,
      zones.find? (fun zone => renames.resolve zone.1 = .renamed target) = some zone →
        p zone = true)
    (hkept : ∀ zone ∈ zones, zone.1 = target → p zone = true) :
    carried? renames (zones.filter p) target = carried? renames zones target := by
  rw [carried?, carried?]
  congr 1
  · cases hfind : zones.find? fun zone => renames.resolve zone.1 = .renamed target with
    | none => exact List.filter_sublist.find?_eq_none hfind
    | some zone => exact find?_filter_of_find? hfind (hmoved zone hfind)
  · refine find?_filter_of_forall fun zone hzone hkeep => hkept zone hzone ?_
    exact eq_of_resolve_eq_keep (by simpa using hkeep)

/-! ## Fragments and renames -/

theorem readBack_contains (f : Fragments) (s : Skeleton) :
    f.readBack s.zoneIds.contains =
      (f.readBack fun _ => true).filter fun e => s.zoneIds.contains e.1 := by
  rw [Fragments.readBack, Fragments.readBack, List.filter_filter]
  simp

/-- The first fragment that a rename moves to a zone, found by its id alone. -/
theorem map_fst_find?_readBack (renames : Renames) (f : Fragments) (target : ZoneId) :
    ((f.readBack fun _ => true).find? fun e =>
      renames.resolve e.1 = .renamed target).map Prod.fst =
      f.keys.find? fun id => renames.resolve id = .renamed target := by
  rw [OrderedMap.keys, List.find?_map, Fragments.readBack, find?_filter_of_forall]
  · rfl
  · intro e _ hrenamed
    simpa using text_ne_empty_of_resolve_eq_renamed (by simpa using hrenamed)

/-- A file takes in its fragments as if they all were its earlier file, if the fragments
that renames move into its zones are among those it has zones for. -/
theorem text_merge_withFragments {s : Skeleton} (hf : f.Readable s.style)
    (hmoved : ∀ zone ∈ s.zoneIds, ∀ id,
      f.keys.find? (fun id => renames.resolve id = .renamed zone) = some id →
      id ∈ s.zoneIds) :
    (merge s (withFragments f s none) renames).text =
      (merge s (some (f.priorText s.style)) renames).text := by
  rw [text_merge, text_merge]
  refine Skeleton.render_congr fun zone body indent hmem => ?_
  have hzone : zone ∈ s.zoneIds := Skeleton.mem_zoneIds_iff.mpr ⟨body, indent, hmem⟩
  rw [carriedBodies_withFragments hf, Fragments.priorText,
    carriedBodies_priorTextWhere hf, readBack_contains, carried?_filter]
  · intro e hfind
    have hkey := map_fst_find?_readBack renames f zone
    rw [hfind, Option.map_some] at hkey
    simpa using hmoved zone hzone e.1 hkey.symm
  · rintro e - rfl
    simpa using hzone

def newlines (n : ℕ) : String :=
  String.ofList (List.replicate n '\n')

theorem zoneBody_newlines (style : MarkerStyle) (n : ℕ) :
    style.ZoneBody (newlines n).toList := by
  constructor
  · rw [newlines, String.toList_ofList, Complete, List.getLast?_replicate]
    cases n <;> simp
  · apply MarkerStyle.plain_of_lacks_dash
    simp [Lacks, newlines]

/-- Bodies of line feeds under some ids, where one body is longer than the others. -/
def unevenFragments {ids : List ZoneId} (hids : ids.Nodup) (longer : ZoneId) (n : ℕ) :
    Fragments where
  entries := ids.map fun id => (id, newlines (if id = longer then n + 1 else n))
  nodup_keys := by simpa [Function.comp_def] using hids

section Uneven

variable {ids : List ZoneId} {hids : ids.Nodup} {longer : ZoneId} {n : ℕ}

theorem keys_unevenFragments : (unevenFragments hids longer n).keys = ids := by
  simp [OrderedMap.keys, unevenFragments, Function.comp_def]

theorem readable_unevenFragments (hlines : ∀ id ∈ ids, '\n' ∉ id.text.toList)
    (style : MarkerStyle) : (unevenFragments hids longer n).Readable style := by
  constructor <;> intro e he <;> obtain ⟨id, hid, rfl⟩ := List.mem_map.mp he
  · exact hlines id hid
  · exact zoneBody_newlines style _

theorem length_of_mem_unevenFragments {e : ZoneId × String}
    (he : e ∈ (unevenFragments hids longer n).entries) :
    (ended e.2.toList).length = if e.1 = longer then n + 1 else n := by
  obtain ⟨id, -, rfl⟩ := List.mem_map.mp he
  rw [ended_of_complete (zoneBody_newlines .hash _).1, newlines, String.toList_ofList,
    List.length_replicate]

end Uneven

/-- The default bodies of a file are not longer than some number. -/
theorem exists_length_le (segments : List Segment) :
    ∃ n, ∀ id body indent, Segment.zone id body indent ∈ segments →
      (ended body.toList).length ≤ n := by
  induction segments with
  | nil => exact ⟨0, by simp⟩
  | cons segment rest ih =>
      obtain ⟨n, hn⟩ := ih
      cases segment with
      | text t => exact ⟨n, by simpa using hn⟩
      | zone id body indent =>
          refine ⟨max n (ended body.toList).length, fun other text blanks hmem => ?_⟩
          rcases List.mem_cons.mp hmem with heq | hmem
          · rw [(Segment.zone.inj heq).2.1]
            exact le_max_right _ _
          · exact (hn other text blanks hmem).trans (le_max_left _ _)

theorem mem_entries_of_carried?_readBack {wanted : ZoneId → Bool} {target : ZoneId}
    {e : ZoneId × String} (h : carried? renames (f.readBack wanted) target = some e) :
    e ∈ f.entries ∧ wanted e.1 = true := by
  obtain ⟨hmem, htest⟩ := List.mem_filter.mp (mem_of_carried? h)
  rw [Bool.and_eq_true] at htest
  exact ⟨hmem, htest.1⟩

theorem carried?_eq_none_of_sublist {zones others : List (ZoneId × String)}
    (hsublist : zones.Sublist others) {target : ZoneId}
    (h : carried? renames others target = none) :
    carried? renames zones target = none := by
  rw [carried?, Option.or_eq_none_iff] at h ⊢
  exact ⟨hsublist.find?_eq_none h.1, hsublist.find?_eq_none h.2⟩

/-- A zone that takes a body out of uneven fragments is as long as that body. -/
theorem length_bodyChars_unevenFragments {ids : List ZoneId} {hids : ids.Nodup}
    {longer target : ZoneId} {n : ℕ} {wanted : ZoneId → Bool}
    {content : ZoneId → Option String} {e : ZoneId × String}
    (hcontent : content target =
      (carried? renames ((unevenFragments hids longer n).readBack wanted) target).map
        Prod.snd)
    (h : carried? renames ((unevenFragments hids longer n).readBack wanted) target =
      some e) (default : String) :
    (Skeleton.bodyChars content target default).length =
      if e.1 = longer then n + 1 else n := by
  rw [Skeleton.bodyChars, hcontent, h, Option.map_some, Option.getD_some,
    length_of_mem_unevenFragments (mem_entries_of_carried?_readBack h).1]

/-- A fragment that a rename moves into a zone of a file is missed if the file does not
have the zone of its own id: with some bodies the file comes out shorter than it should.
-/
theorem exists_text_merge_withFragments_ne {s : Skeleton} {ids : List ZoneId}
    (hids : ids.Nodup) (hlines : ∀ id ∈ ids, '\n' ∉ id.text.toList) {zone id : ZoneId}
    (hzone : zone ∈ s.zoneIds)
    (hmoved : ids.find? (fun id => renames.resolve id = .renamed zone) = some id)
    (hid : id ∉ s.zoneIds) :
    ∃ f : Fragments, f.keys = ids ∧ (∀ style, f.Readable style) ∧
      (merge s (withFragments f s none) renames).text ≠
        (merge s (some (f.priorText s.style)) renames).text := by
  obtain ⟨n, hn⟩ := exists_length_le s.segments
  obtain ⟨body, indent, hmem⟩ := Skeleton.mem_zoneIds_iff.mp hzone
  let f := unevenFragments hids id n
  have hf : ∀ style, f.Readable style := readable_unevenFragments hlines
  have hkeys : f.keys = ids := keys_unevenFragments
  set few := carriedBodies s.style (withFragments f s none) renames with hfew
  set all := carriedBodies s.style (some (f.priorText s.style)) renames with hall
  replace hfew : ∀ target, few target =
      (carried? renames (f.readBack s.zoneIds.contains) target).map Prod.snd :=
    carriedBodies_withFragments (hf _) renames
  replace hall : ∀ target, all target =
      (carried? renames (f.readBack fun _ => true) target).map Prod.snd :=
    carriedBodies_priorTextWhere (hf _) _ renames
  have hshort : ∀ target default blanks,
      Segment.zone target default blanks ∈ s.segments →
      (Skeleton.bodyChars few target default).length ≤ n := by
    intro target default blanks hsegment
    cases hcarried : carried? renames (f.readBack s.zoneIds.contains) target with
    | none =>
        rw [Skeleton.bodyChars, hfew, hcarried]
        exact hn target default blanks hsegment
    | some e =>
        have hwanted := (mem_entries_of_carried?_readBack hcarried).2
        have hne : e.1 ≠ id := by
          rintro heq
          exact hid (by simpa [heq] using hwanted)
        rw [length_bodyChars_unevenFragments (hfew target) hcarried, if_neg hne]
  have hle : ∀ target default blanks, Segment.zone target default blanks ∈ s.segments →
      (Skeleton.bodyChars few target default).length ≤
        (Skeleton.bodyChars all target default).length := by
    intro target default blanks hsegment
    cases hcarried : carried? renames (f.readBack fun _ => true) target with
    | none =>
        have hnone : few target = none := by
          rw [hfew, readBack_contains,
            carried?_eq_none_of_sublist List.filter_sublist hcarried]
          rfl
        rw [Skeleton.bodyChars, Skeleton.bodyChars, hnone, hall, hcarried,
          Option.map_none]
    | some e =>
        refine (hshort target default blanks hsegment).trans ?_
        rw [length_bodyChars_unevenFragments (hall target) hcarried]
        split <;> omega
  have hlonger : (Skeleton.bodyChars all zone body).length = n + 1 := by
    rw [← hkeys, ← map_fst_find?_readBack, Option.map_eq_some_iff] at hmoved
    obtain ⟨e, he, hid⟩ := hmoved
    have hcarried : carried? renames (f.readBack fun _ => true) zone = some e := by
      rw [carried?, he, Option.some_or]
    rw [length_bodyChars_unevenFragments (hall zone) hcarried, if_pos hid]
  refine ⟨f, hkeys, hf, ?_⟩
  rw [text_merge, text_merge]
  refine Skeleton.render_ne_of_shorter hle hmem ?_
  rw [hlonger]
  exact Nat.lt_succ_of_le (hshort zone body indent hmem)

/-- If a fragment is for a zone that goes by another name now, and the file has no zone
of the old name, there are bodies for which the file lacks the one that moves. -/
theorem exists_files_generateWithFragments_ne {ids : List ZoneId} (hids : ids.Nodup)
    (hlines : ∀ id ∈ ids, '\n' ∉ id.text.toList)
    (hfiles : skeletons settings cls = .ok (files, warnings)) (renames : Renames)
    {s : Skeleton} (hs : s ∈ files) {zone id : ZoneId} (hzone : zone ∈ s.zoneIds)
    (hmoved : ids.find? (fun id => renames.resolve id = .renamed zone) = some id)
    (hid : id ∉ s.zoneIds) :
    ∃ f : Fragments, f.keys = ids ∧ (∀ style, f.Readable style) ∧ ∀ out merged,
      generateWithFragments settings cls f .none renames = .ok (out, {}) →
      generate settings cls (fun _ => .text (f.priorText (.ofLanguage cls.language)))
        renames = .ok (merged, {}) →
      out.files ≠ merged.files := by
  obtain ⟨f, hkeys, hf, hne⟩ :=
    exists_text_merge_withFragments_ne hids hlines hzone hmoved hid
  refine ⟨f, hkeys, hf, fun out merged hout hmerged hsame => ?_⟩
  obtain ⟨out', hout', hentries, -⟩ := exists_generateWithFragments hfiles f renames
  obtain ⟨merged', hmerged', hentries'⟩ := exists_generate_of_text hfiles
    (f.priorText (.ofLanguage cls.language)) renames
  obtain rfl : out = out' := (Prod.mk.inj (Except.ok.inj (hout.symm.trans hout'))).1
  obtain rfl : merged = merged' :=
    (Prod.mk.inj (Except.ok.inj (hmerged.symm.trans hmerged'))).1
  rw [hsame, hentries', List.map_inj_left] at hentries
  rw [style_of_mem_skeletons hfiles hs] at hne
  exact hne (Prod.mk.inj (hentries s hs)).2.symm

/-- Under pending renames, fragments are put into the files of a class as if all of them
were the earlier text of every file, whatever their bodies are, in exactly these cases:
the first fragment that a rename moves to a zone has an id that the file of the zone
still has. -/
theorem files_generateWithFragments_eq_iff {ids : List ZoneId} (hids : ids.Nodup)
    (hlines : ∀ id ∈ ids, '\n' ∉ id.text.toList)
    (hfiles : skeletons settings cls = .ok (files, warnings)) (renames : Renames) :
    (∀ f : Fragments, f.keys = ids → f.Readable (.ofLanguage cls.language) →
      ∃ out merged, generateWithFragments settings cls f .none renames = .ok (out, {}) ∧
        generate settings cls (fun _ => .text (f.priorText (.ofLanguage cls.language)))
          renames = .ok (merged, {}) ∧
        out.files = merged.files) ↔
    ∀ s ∈ files, ∀ zone ∈ s.zoneIds, ∀ id,
      ids.find? (fun id => renames.resolve id = .renamed zone) = some id →
      id ∈ s.zoneIds := by
  constructor
  · intro hall s hs zone hzone id hmoved
    by_contra hid
    obtain ⟨f, hkeys, hf, hne⟩ :=
      exists_files_generateWithFragments_ne hids hlines hfiles renames hs hzone
        hmoved hid
    obtain ⟨out, merged, hout, hmerged, hsame⟩ := hall f hkeys (hf _)
    exact hne out merged hout hmerged hsame
  · rintro hmoved f rfl hf
    obtain ⟨out, hout, hentries, -⟩ := exists_generateWithFragments hfiles f renames
    obtain ⟨merged, hmerged, hentries'⟩ := exists_generate_of_text hfiles
      (f.priorText (.ofLanguage cls.language)) renames
    refine ⟨out, merged, hout, hmerged, OrderedMap.eq_of_entries_eq ?_⟩
    rw [hentries, hentries', List.map_inj_left]
    intro s hs
    have hstyle := style_of_mem_skeletons hfiles hs
    rw [← hstyle] at hf ⊢
    rw [text_merge_withFragments hf (hmoved s hs)]

def goMotor : DeviceClass where
  name := "Motor"
  language := .cpp
  commands := [{ name := "Go" }]

def startedAsStart : Renames where
  renamed := .ofList [(⟨.command, "Start"⟩, "Go")]

/-- The motor has the zones of the class and two for its command. -/
theorem exists_skeletons_goMotor :
    ∃ i files, skeletons {} goMotor = .ok (files, []) ∧
      files = Language.cpp.skeletons ⟨i, goMotor.toClassBody, {}⟩ ∧
      ∀ id, id ∈ files.flatMap (·.zoneIds) ↔ (∃ role, id = ZoneId.ofClass role) ∨
        id ∈ [ZoneId.ofMember .command "Go" .execute,
          .ofMember .command "Go" .isAllowed] := by
  obtain ⟨i, hfiles, hzones⟩ : ∃ i,
      skeletons {} goMotor =
        .ok (Language.cpp.skeletons ⟨i, goMotor.toClassBody, {}⟩, []) ∧
      zonesOf (i.rolesOf .cpp) i.localMembers =
        [.ofMember .command "Go" .execute, .ofMember .command "Go" .isAllowed] :=
    ⟨_, skeletons_eq_ok_iff.mpr ⟨_, _, rfl, rfl, rfl⟩, rfl⟩
  refine ⟨i, _, hfiles, rfl, fun id => ?_⟩
  rw [mem_zoneIds_skeletons_iff, hzones]

/-- What is stored under the new name is put where an earlier text would put it. -/
theorem files_generateWithFragments_eq_iff_goMotor :
    let f : Fragments := .store .empty (.ofMember .command "Go" .execute) "axis.move();"
    ∃ out merged, generateWithFragments {} goMotor f .none startedAsStart =
      .ok (out, {}) ∧
      generate {} goMotor (fun _ => .text (f.priorText .block)) startedAsStart =
        .ok (merged, {}) ∧
      out.files = merged.files := by
  intro f
  obtain ⟨i, files, hfiles, -⟩ := exists_skeletons_goMotor
  have hkeys : f.keys = [.ofMember .command "Go" .execute] := rfl
  have hf : f.Readable .block := Fragments.readable_empty.store (by decide) (by decide)
  refine (files_generateWithFragments_eq_iff (List.nodup_singleton _) (by decide) hfiles
    startedAsStart).mpr ?_ f hkeys hf
  intro s _ zone _ id hmoved
  have hkept : startedAsStart.resolve (.ofMember .command "Go" .execute) =
      .keep (.ofMember .command "Go" .execute) := by decide
  simp [hkept] at hmoved

/-- What is stored under the old name is left out, and an earlier text would bring it
in. -/
theorem not_forall_files_generateWithFragments_eq :
    ¬ ∀ settings cls files warnings, skeletons settings cls = .ok (files, warnings) →
      ∀ (f : Fragments) renames, f.Readable (.ofLanguage cls.language) →
      ∃ out merged, generateWithFragments settings cls f .none renames = .ok (out, {}) ∧
        generate settings cls (fun _ => .text (f.priorText (.ofLanguage cls.language)))
          renames = .ok (merged, {}) ∧
        out.files = merged.files := by
  intro hall
  obtain ⟨i, files, hfiles, -, hmem⟩ := exists_skeletons_goMotor
  obtain ⟨s, hs, hzone⟩ :
    ∃ s ∈ files, ZoneId.ofMember .command "Go" .execute ∈ s.zoneIds :=
    List.mem_flatMap.mp ((hmem _).mpr (Or.inr List.mem_cons_self))
  have hold : ZoneId.ofMember .command "Start" .execute ∉ s.zoneIds := by
    intro hid
    rcases (hmem _).mp (List.mem_flatMap.mpr ⟨s, hs, hid⟩) with ⟨role, heq⟩ | hid
    · exact ZoneId.ofClass_ne_ofMember role _ _ _ heq.symm
    · exact absurd hid (by decide)
  obtain ⟨f, -, hf, hne⟩ := exists_files_generateWithFragments_ne
    (List.nodup_singleton (.ofMember .command "Start" .execute)) (by decide) hfiles
    startedAsStart hs hzone (by decide) hold
  obtain ⟨out, merged, hout, hmerged, hsame⟩ :=
    hall _ _ _ _ hfiles f startedAsStart (hf _)
  exact hne out merged hout hmerged hsame

/-- With nothing pending, a zone takes the fragment of its id. -/
theorem carriedBodies_withFragments_empty {s : Skeleton} (hf : f.Readable s.style)
    {id : ZoneId} (hid : id ∈ s.zoneIds) (hne : id.text ≠ "") :
    carriedBodies s.style (withFragments f s none) {} id = f.get? id := by
  rw [carriedBodies_withFragments hf, Fragments.readBack, carried?_filter,
    carried?_empty]
  · intro e he
    have hrenamed := List.find?_some he
    simp at hrenamed
  · rintro e - rfl
    simp [hid, hne]

/-- Fragments under the ids of a skeleton leave nothing to report, unless something was
renamed. -/
theorem issues_merge_withFragments {s : Skeleton} (hf : f.Readable s.style) :
    (merge s (withFragments f s none) {}).issues = [] := by
  rw [withFragments_none]
  split
  · rfl
  · refine issues_merge_empty (Fragments.damage_recoverZones_priorTextWhere hf _)
      fun id hid => ?_
    rw [OrderedMap.keys, Fragments.entries_recoverZones_priorTextWhere hf] at hid
    obtain ⟨e, he, rfl⟩ := List.mem_map.mp hid
    have htest := (List.mem_filter.mp he).2
    rw [Bool.and_eq_true] at htest
    simpa using htest.1

/-- A body for additional methods, one for a command, and one for a command that is not
there. -/
def goFragments : Fragments :=
  ((Fragments.store .empty (.ofClass .additionalMethods) "int spare();").store
    (.ofMember .command "Go" .execute) "axis.move();").store
      (.ofMember .command "Halt" .execute) ""

theorem readable_goFragments : goFragments.Readable (.ofLanguage goMotor.language) :=
  ((Fragments.readable_empty.store (by decide) (by decide)).store (by decide)
    (by decide)).store (by decide) (by decide)

end DeviceForge
