import DeviceForge.Proofs.Zone.Recovery

/-!
# Rewriting the body of a zone

A developer who writes another body between the two markers of a zone changes
what is recovered for that zone and for no other one.
-/

namespace DeviceForge

open Text

/-- A recovered body is the one of the only zone that is closed under the id. -/
theorem get?_recoverZones_eq_some_iff {style : MarkerStyle} {text : String}
    {id : ZoneId} {body : String} :
    (recoverZones style text).zones.get? id = some body ↔
      ((style.closings none (splitLines text.toList)).map Prod.fst).count id = 1 ∧
        (id, body.toList) ∈ style.closings none (splitLines text.toList) := by
  rw [OrderedMap.get?_eq_some_iff, entries_recoverZones]
  constructor
  · intro h
    obtain ⟨zone, hzone, hentry⟩ := List.mem_map.mp h
    obtain ⟨rfl, rfl⟩ := Prod.mk.inj hentry
    obtain ⟨hmem, hcount⟩ := List.mem_filter.mp hzone
    rw [String.toList_ofList]
    exact ⟨by simpa using hcount, hmem⟩
  · rintro ⟨hcount, hmem⟩
    refine List.mem_map.mpr ⟨_, List.mem_filter.mpr ⟨hmem, by simpa using hcount⟩, ?_⟩
    rw [ZoneText.entry, String.ofList_toList]

theorem mem_keys_recoverZones_iff {style : MarkerStyle} {text : String} {id : ZoneId} :
    id ∈ (recoverZones style text).zones.keys ↔
      ((style.closings none (splitLines text.toList)).map Prod.fst).count id = 1 := by
  rw [OrderedMap.keys, entries_recoverZones, Scan.map_fst_entry,
    mem_map_fst_unrepeated_iff]

theorem get?_recoverZones_eq_none_iff {style : MarkerStyle} {text : String}
    {id : ZoneId} :
    (recoverZones style text).zones.get? id = none ↔
      ((style.closings none (splitLines text.toList)).map Prod.fst).count id ≠ 1 := by
  rw [OrderedMap.get?_eq_none_iff, mem_keys_recoverZones_iff]

namespace MarkerStyle

variable {style : MarkerStyle} {id : ZoneId} {body text after : String}

/-- The line leaves a zone open: it opens no other one and does not close it. -/
def Inside (style : MarkerStyle) (id : ZoneId) (line : List Char) : Prop :=
  ∀ marker ∈ style.read? line, ∃ other, marker = .closes other ∧ other ≠ id

/-- The second text is the first one with the body between two markers of the
id written anew.  The marker that closes the zone begins what follows it. -/
inductive Rewrites (style : MarkerStyle) (id : ZoneId) (body : String) :
    String → String → Prop
  | intro {text after : String} {front opening inner closing : List Char}
      {rest : List (List Char)} {back : List Char}
      (hfront : Complete front) (hopening : IsLine opening)
      (hopens : style.read? opening = some (.opens id)) (hcomplete : Complete inner)
      (hinner : ∀ line ∈ splitLines inner, style.Inside id line)
      (hback : splitLines back = closing :: rest)
      (hcloses : style.read? closing = some (.closes id))
      (htext : text.toList = front ++ (opening ++ (inner ++ back)))
      (hafter : after.toList = front ++ (opening ++ (body.toList ++ back))) :
      Rewrites style id body text after

/-- A line of this kind becomes part of the body. -/
theorem openAfter_of_inside {line : List Char} (h : style.Inside id line)
    (body : List Char) :
    ∃ found, style.openAfter (some (id, body)) line = some (id, found) ∧
      style.closedBy (some (id, body)) line = none := by
  cases hread : style.read? line with
  | none => exact ⟨_, by rw [openAfter, hread]; rfl, by rw [closedBy, hread]⟩
  | some marker =>
      obtain ⟨other, rfl, hother⟩ := h marker hread
      refine ⟨body, ?_, ?_⟩
      · simp [openAfter, hread, Option.filter, Ne.symm hother]
      · simp [closedBy, hread, Option.filter, Ne.symm hother]

/-- Lines that leave a zone open add up to its body and close nothing. -/
theorem openAfterAll_of_inside {lines : List (List Char)}
    (h : ∀ line ∈ lines, style.Inside id line) (body : List Char) :
    ∃ found, style.openAfterAll (some (id, body)) lines = some (id, found) ∧
      style.closings (some (id, body)) lines = [] := by
  induction lines generalizing body with
  | nil => exact ⟨body, rfl, rfl⟩
  | cons line rest ih =>
      obtain ⟨next, hopened, hclosed⟩ :=
        openAfter_of_inside (h line List.mem_cons_self) body
      obtain ⟨found, hrest, hnone⟩ :=
        ih (fun l hl => h l (List.mem_cons_of_mem _ hl)) next
      refine ⟨found, ?_, ?_⟩
      · rw [openAfterAll, List.foldl_cons, hopened]
        exact hrest
      · rw [closings, hopened, hclosed, hnone]
        rfl

/-- The lines between two markers of an id give one zone, and what stands around the
markers gives the others. -/
theorem closings_between {front opening inner closing back found : List Char}
    {rest : List (List Char)} (hfront : Complete front) (hopening : IsLine opening)
    (hopens : style.read? opening = some (.opens id)) (hcomplete : Complete inner)
    (hopened : style.openAfterAll (some (id, [])) (splitLines inner) = some (id, found))
    (hnone : style.closings (some (id, [])) (splitLines inner) = [])
    (hback : splitLines back = closing :: rest)
    (hcloses : style.read? closing = some (.closes id)) :
    style.closings none (splitLines (front ++ (opening ++ (inner ++ back)))) =
      style.closings none (splitLines front) ++ (id, found) ::
        style.closings none rest := by
  rw [splitLines_append hfront, splitLines_append hopening.complete,
    splitLines_append hcomplete, hopening.splitLines_eq, hback, closings_append,
    List.singleton_append, closings_cons_of_opens hopens, closings_append,
    hopened, hnone, List.nil_append]
  exact congrArg _ (closings_cons_of_closes hcloses rest)

/-- Only the body of one closed zone changes. -/
theorem Rewrites.closings_eq (h : style.Rewrites id body text after)
    (hbody : style.ZoneBody body.toList) :
    ∃ before inner later,
      style.closings none (splitLines text.toList) = before ++ (id, inner) :: later ∧
        style.closings none (splitLines after.toList) =
          before ++ (id, body.toList) :: later := by
  obtain ⟨hfront, hopening, hopens, hcomplete, hinner, hback, hcloses, htext, hafter⟩ :=
    h
  obtain ⟨found, hopened, hnone⟩ := openAfterAll_of_inside hinner []
  have hwritten : style.openAfterAll (some (id, [])) (splitLines body.toList) =
      some (id, body.toList) := by
    rw [openAfterAll_of_plain hbody.2, Scan.map_bodyLine_splitLines,
      ended_of_complete hbody.1, flatten_splitLines]
    rfl
  rw [htext, hafter]
  exact ⟨_, _, _,
    closings_between hfront hopening hopens hcomplete hopened hnone hback hcloses,
    closings_between hfront hopening hopens hbody.1 hwritten
      (closings_of_plain hbody.2 _) hback hcloses⟩

/-- A zone that lines close is open before one of them. -/
theorem exists_closing_of_mem_closings {opened : Option ZoneText}
    {lines : List (List Char)} {zone : ZoneText}
    (h : zone ∈ style.closings opened lines) :
    ∃ front closing rest, lines = front ++ closing :: rest ∧
      style.openAfterAll opened front = some zone ∧
      style.read? closing = some (.closes zone.1) := by
  induction lines generalizing opened with
  | nil => simp [closings] at h
  | cons line rest ih =>
      rw [closings, List.mem_append] at h
      rcases h with h | h
      · refine ⟨[], line, rest, rfl, ?_⟩
        unfold closedBy at h
        split at h
        · next id hread =>
            simp only [Option.mem_toList, Option.filter_eq_some_iff,
              decide_eq_true_eq] at h
            obtain ⟨hopened, rfl⟩ := h
            exact ⟨hopened, hread⟩
        · simp at h
      · obtain ⟨front, closing, back, rfl, hopened, hcloses⟩ := ih h
        exact ⟨line :: front, closing, back, rfl, hopened, hcloses⟩

/-- A zone that is open was opened by a line, and no line since has opened
another one or closed it. -/
theorem exists_opening_of_openAfterAll {lines : List (List Char)} {zone : ZoneText}
    (h : style.openAfterAll none lines = some zone) :
    ∃ front opening inner, lines = front ++ opening :: inner ∧
      style.read? opening = some (.opens zone.1) ∧
      ∀ line ∈ inner, style.Inside zone.1 line := by
  induction lines using List.reverseRecOn generalizing zone with
  | nil => simp [openAfterAll] at h
  | append_singleton lines line ih =>
      have hlast : style.openAfter (style.openAfterAll none lines) line =
          some zone := by
        simpa [openAfterAll] using h
      have hearlier : ∀ body, style.openAfterAll none lines = some (zone.1, body) →
          style.Inside zone.1 line →
          ∃ front opening inner, lines ++ [line] = front ++ opening :: inner ∧
            style.read? opening = some (.opens zone.1) ∧
            ∀ line ∈ inner, style.Inside zone.1 line := by
        intro body hopened hline
        obtain ⟨front, opening, inner, rfl, hopens, hinner⟩ := ih hopened
        refine ⟨front, opening, inner ++ [line], by simp, hopens,
          fun other hother => ?_⟩
        rcases List.mem_append.mp hother with hother | hother
        · exact hinner other hother
        · rw [List.mem_singleton.mp hother]
          exact hline
      unfold openAfter at hlast
      split at hlast
      · next id hread =>
          obtain rfl := Option.some.inj hlast
          exact ⟨lines, line, [], rfl, hread, by simp⟩
      · next id hread =>
          rw [Option.filter_eq_some_iff] at hlast
          obtain ⟨hopened, hne⟩ := hlast
          refine hearlier zone.2 hopened fun marker hmarker => ⟨id, ?_, ?_⟩
          · rw [Option.mem_def, hread] at hmarker
            exact (Option.some.inj hmarker).symm
          · exact Ne.symm (of_decide_eq_true hne)
      · next hread =>
          obtain ⟨before, hopened, rfl⟩ := Option.map_eq_some_iff.mp hlast
          refine hearlier before.2 hopened fun marker hmarker => ?_
          rw [Option.mem_def, hread] at hmarker
          exact absurd hmarker (by simp)

/-- Whatever the body is, it can be written into a recovered zone. -/
theorem exists_rewrites (hid : id ∈ (recoverZones style text).zones.keys)
    (body : String) :
    ∃ after, style.Rewrites id body text after := by
  rw [mem_keys_recoverZones_iff] at hid
  obtain ⟨zone, hzone, rfl⟩ :=
    List.mem_map.mp (List.count_pos_iff.mp (by rw [hid]; decide))
  obtain ⟨before, closing, rest, hlines, hopened, hcloses⟩ :=
    exists_closing_of_mem_closings hzone
  obtain ⟨front, opening, inner, rfl, hopens, hinner⟩ :=
    exists_opening_of_openAfterAll hopened
  obtain ⟨hwhole, hrest⟩ := splitLines_eq_append hlines
  have hfront : ∀ line ∈ front, IsLine line :=
    fun line hline => hwhole line (by simp [hline])
  have hbody : ∀ line ∈ inner, IsLine line :=
    fun line hline => hwhole line (by simp [hline])
  refine ⟨String.ofList
    (front.flatten ++ (opening ++ (body.toList ++ (closing :: rest).flatten))),
    .intro (Complete.flatten fun line hline => (hfront line hline).complete)
      (hwhole opening (by simp)) hopens
      (Complete.flatten fun line hline => (hbody line hline).complete) ?_
      hrest hcloses ?_ (by simp)⟩
  · rw [splitLines_flatten hbody]
    exact hinner
  · rw [← flatten_splitLines text.toList, hlines]
    simp only [List.flatten_append, List.flatten_cons, List.append_assoc]

/-- The same zones are recovered. -/
theorem Rewrites.mem_keys_iff (h : style.Rewrites id body text after)
    (hbody : style.ZoneBody body.toList) {other : ZoneId} :
    other ∈ (recoverZones style after).zones.keys ↔
      other ∈ (recoverZones style text).zones.keys := by
  obtain ⟨before, inner, later, htext, hafter⟩ := h.closings_eq hbody
  rw [mem_keys_recoverZones_iff, mem_keys_recoverZones_iff, htext, hafter]
  simp only [List.map_append, List.map_cons]

/-- The zone has the new body, and the other zones keep theirs. -/
theorem Rewrites.get?_eq (h : style.Rewrites id body text after)
    (hbody : style.ZoneBody body.toList)
    (hid : id ∈ (recoverZones style text).zones.keys) (other : ZoneId) :
    (recoverZones style after).zones.get? other =
      if other = id then some body else (recoverZones style text).zones.get? other := by
  have hkeys : id ∈ (recoverZones style after).zones.keys ↔ _ := h.mem_keys_iff hbody
  obtain ⟨before, inner, later, htext, hafter⟩ := h.closings_eq hbody
  by_cases hother : other = id
  · subst hother
    rw [if_pos rfl, get?_recoverZones_eq_some_iff, hafter]
    refine ⟨?_, by simp⟩
    rw [← hafter, ← mem_keys_recoverZones_iff, hkeys]
    exact hid
  · rw [if_neg hother]
    ext found
    simp only [get?_recoverZones_eq_some_iff, htext, hafter, List.map_append,
      List.map_cons, List.mem_append, List.mem_cons, Prod.mk.injEq, hother, false_and,
      false_or]

end MarkerStyle

end DeviceForge
