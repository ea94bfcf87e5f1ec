import DeviceForge.Proofs.Zone.Closing

/-!
# What a recovery keeps

The scan of a file keeps the zones whose id is closed exactly once, in the
order of the file.  Where the markers of a file pair up one after another,
under ids that are all different, there is no damage to report.
-/

namespace DeviceForge

open Text

/-- The zones whose id is closed only once. -/
def unrepeated (zones : List ZoneText) : List ZoneText :=
  zones.filter fun zone => (zones.map Prod.fst).count zone.1 = 1

/-- A zone as an entry of a recovery. -/
def ZoneText.entry (zone : ZoneText) : ZoneId × String :=
  (zone.1, String.ofList zone.2)

/-- The ids of the zones that count are those that were closed once. -/
theorem mem_map_fst_unrepeated_iff {zones : List ZoneText} {id : ZoneId} :
    id ∈ (unrepeated zones).map Prod.fst ↔ (zones.map Prod.fst).count id = 1 := by
  constructor
  · intro hid
    obtain ⟨zone, hzone, rfl⟩ := List.mem_map.mp hid
    simpa [unrepeated] using (List.mem_filter.mp hzone).2
  · intro hcount
    have hmem : id ∈ zones.map Prod.fst :=
      List.count_pos_iff.mp (by omega)
    obtain ⟨zone, hzone, rfl⟩ := List.mem_map.mp hmem
    exact List.mem_map_of_mem (List.mem_filter.mpr ⟨hzone, by simpa using hcount⟩)

theorem unrepeated_of_nodup {zones : List ZoneText}
    (hzones : (zones.map Prod.fst).Nodup) : unrepeated zones = zones := by
  apply List.filter_eq_self.mpr
  intro zone hzone
  simpa using List.count_eq_one_of_mem hzones (List.mem_map_of_mem hzone)

/-- A zone under a new id is one more that counts. -/
theorem unrepeated_concat_of_notMem {zones : List ZoneText} (zone : ZoneText)
    (hzone : zone.1 ∉ zones.map Prod.fst) :
    unrepeated (zones ++ [zone]) = unrepeated zones ++ [zone] := by
  have hne : ∀ other ∈ zones, other.1 ≠ zone.1 := fun other hother heq =>
    hzone (heq ▸ List.mem_map_of_mem hother)
  have hcount : (zones.map Prod.fst).count zone.1 = 0 := List.count_eq_zero.mpr hzone
  simp only [unrepeated, List.filter_append]
  congr 1
  · apply List.filter_congr
    intro other hother
    simp [Ne.symm (hne other hother)]
  · simp [hcount]

/-- A zone under a known id takes the earlier one of this id with it. -/
theorem unrepeated_concat_of_mem {zones : List ZoneText} (zone : ZoneText)
    (hzone : zone.1 ∈ zones.map Prod.fst) :
    unrepeated (zones ++ [zone]) =
      (unrepeated zones).filter fun other => other.1 ≠ zone.1 := by
  have hcount : 0 < (zones.map Prod.fst).count zone.1 := List.count_pos_iff.mpr hzone
  have hlast : ¬ ((zones.map Prod.fst).count zone.1 + 1 = 1) := by omega
  simp only [unrepeated, List.filter_append, List.filter_filter]
  have hend : [zone].filter (fun other =>
      decide (((zones ++ [zone]).map Prod.fst).count other.1 = 1)) = [] := by
    simpa using hlast
  rw [hend, List.append_nil]
  apply List.filter_congr
  intro other _
  by_cases heq : other.1 = zone.1
  · simpa [heq] using hlast
  · simp [heq, Ne.symm heq]

/-- A zone whose id was closed several times before changes nothing. -/
theorem unrepeated_concat_of_two_le {zones : List ZoneText} {zone : ZoneText}
    (hzone : 2 ≤ (zones.map Prod.fst).count zone.1) :
    unrepeated (zones ++ [zone]) = unrepeated zones := by
  rw [unrepeated_concat_of_mem zone (List.count_pos_iff.mp (by omega)),
    List.filter_eq_self]
  intro other hother
  have hone :=
    mem_map_fst_unrepeated_iff.mp (List.mem_map_of_mem (f := Prod.fst) hother)
  rw [decide_eq_true_eq]
  intro heq
  rw [heq] at hone
  omega

/-- An id is closed several times if it was before, or if it was closed once and is
closed again. -/
theorem two_le_count_concat_iff {zones : List ZoneText} {zone : ZoneText}
    {id : ZoneId} :
    2 ≤ ((zones ++ [zone]).map Prod.fst).count id ↔
      2 ≤ (zones.map Prod.fst).count id ∨ id = zone.1 ∧ id ∈ zones.map Prod.fst := by
  rw [List.map_append, List.count_append, List.map_singleton, List.count_singleton,
    ← List.count_pos_iff]
  by_cases heq : id = zone.1
  · subst heq
    simp only [beq_self_eq_true, if_true, true_and]
    omega
  · simp [heq, Ne.symm heq]

namespace Scan

/-- After lines that have closed the given zones, a scan holds the unrepeated
ones and knows the others. -/
structure Holds (s : Scan) (opened : Option ZoneText) (closed : List ZoneText) :
    Prop where
  opened_eq : s.opened.map (fun zone => (zone.id, zone.body)) = opened
  entries_eq : s.zones.entries = (unrepeated closed).map ZoneText.entry
  mem_repeated_iff : ∀ id, id ∈ s.repeated ↔ 2 ≤ (closed.map Prod.fst).count id

theorem map_fst_entry (zones : List ZoneText) :
    (zones.map ZoneText.entry).map Prod.fst = zones.map Prod.fst := by
  simp [ZoneText.entry, Function.comp_def]

theorem Holds.contains_iff {s : Scan} {opened : Option ZoneText}
    {closed : List ZoneText} (h : s.Holds opened closed) (id : ZoneId) :
    s.zones.contains id = true ↔ (closed.map Prod.fst).count id = 1 := by
  rw [OrderedMap.contains_iff_mem_keys, OrderedMap.keys, h.entries_eq,
    map_fst_entry, mem_map_fst_unrepeated_iff]

/-- Storing a zone keeps what a scan holds in step with the zones that were closed. An
id may be new, it may be there and is given up now, or it may have been given up before;
in the last two cases the zone counts no more than the earlier one does. -/
theorem Holds.store {s : Scan} {closed : List ZoneText} (h : s.Holds none closed)
    (zone : OpenZone) :
    (s.store zone).Holds none (closed ++ [(zone.id, zone.body)]) := by
  rw [Scan.store]
  split
  · next hrepeated =>
      -- the id was given up before, and stays so
      have hmany := (h.mem_repeated_iff zone.id).mp hrepeated
      refine ⟨h.opened_eq, ?_, fun id => ?_⟩
      · rw [h.entries_eq, unrepeated_concat_of_two_le hmany]
      · rw [h.mem_repeated_iff, two_le_count_concat_iff, iff_self_or]
        rintro ⟨rfl, -⟩
        exact hmany
  · split
    · next hcontains =>
        have hone := (h.contains_iff zone.id).mp hcontains
        have hmem : zone.id ∈ closed.map Prod.fst := List.count_pos_iff.mp (by omega)
        refine ⟨h.opened_eq, ?_, fun id => ?_⟩
        · change (s.zones.erase zone.id).entries = _
          rw [OrderedMap.entries_erase, h.entries_eq,
            unrepeated_concat_of_mem (zone.id, zone.body) hmem, List.filter_map]
          rfl
        · change id ∈ zone.id :: s.repeated ↔ _
          rw [List.mem_cons, h.mem_repeated_iff, two_le_count_concat_iff, or_comm]
          exact or_congr_right ⟨fun heq => ⟨heq, heq ▸ hmem⟩, And.left⟩
    · next hrepeated hcontains =>
        have hnew : zone.id ∉ closed.map Prod.fst := by
          rw [h.mem_repeated_iff] at hrepeated
          rw [h.contains_iff] at hcontains
          rw [← List.count_eq_zero]
          omega
        refine ⟨h.opened_eq, ?_, fun id => ?_⟩
        · change (s.zones.insert zone.id (String.ofList zone.body)).entries = _
          rw [Bool.not_eq_true] at hcontains
          rw [OrderedMap.entries_insert_of_not_contains _ hcontains, h.entries_eq,
            unrepeated_concat_of_notMem (zone.id, zone.body) hnew, List.map_append]
          rfl
        · change id ∈ s.repeated ↔ _
          rw [h.mem_repeated_iff, two_le_count_concat_iff, iff_self_or]
          rintro ⟨rfl, hmem⟩
          exact absurd hmem hnew

variable {style : MarkerStyle}

@[simp]
theorem zones_report (s : Scan) (d : Damage) : (s.report d).zones = s.zones := rfl

@[simp]
theorem repeated_report (s : Scan) (d : Damage) :
    (s.report d).repeated = s.repeated := rfl

@[simp]
theorem opened_report (s : Scan) (d : Damage) : (s.report d).opened = s.opened := rfl

/-- One line: the open zone moves on, and the zone that the line closes is
added to the closed ones. -/
theorem Holds.step {s : Scan} {opened : Option ZoneText} {closed : List ZoneText}
    (h : s.Holds opened closed) (number : ℕ) (line : List Char) :
    (s.step style number line).Holds (style.openAfter opened line)
      (closed ++ (style.closedBy opened line).toList) := by
  have hopened := h.opened_eq
  unfold Scan.step MarkerStyle.openAfter MarkerStyle.closedBy
  cases hread : style.read? line with
  | none =>
      cases hs : s.opened with
      | none =>
          rw [hs] at hopened
          subst hopened
          simpa using h
      | some zone =>
          rw [hs] at hopened
          subst hopened
          exact ⟨rfl, by simpa using h.entries_eq, by simpa using h.mem_repeated_iff⟩
  | some marker =>
      cases marker with
      | opens id =>
          cases hs : s.opened <;>
            exact ⟨rfl, by simpa using h.entries_eq, by simpa using h.mem_repeated_iff⟩
      | closes id =>
          cases hs : s.opened with
          | none =>
              rw [hs] at hopened
              subst hopened
              exact ⟨by simp [hs], by simpa using h.entries_eq,
                by simpa using h.mem_repeated_iff⟩
          | some zone =>
              rw [hs] at hopened
              subst hopened
              by_cases hid : zone.id = id
              · have hclosed : Holds { s with opened := none } none closed :=
                  ⟨rfl, h.entries_eq, h.mem_repeated_iff⟩
                have hstore := hclosed.store zone
                simpa [hid, Option.filter] using hstore
              · simp only [hid, if_false]
                exact ⟨by simp [hs, Option.filter, hid],
                  by simpa [Option.filter, hid] using h.entries_eq,
                  by simpa [Option.filter, hid] using h.mem_repeated_iff⟩

/-- A run over lines adds the zones that they close. -/
theorem Holds.run {s : Scan} {opened : Option ZoneText} {closed : List ZoneText}
    (h : s.Holds opened closed) (number : ℕ) (lines : List (List Char)) :
    (Scan.run style s number lines).Holds (style.openAfterAll opened lines)
      (closed ++ style.closings opened lines) := by
  induction lines generalizing s opened closed number with
  | nil => simpa [Scan.run, MarkerStyle.openAfterAll, MarkerStyle.closings] using h
  | cons line rest ih =>
      have hline : (s.step style number line).Holds _ _ := h.step number line
      have hrest := ih hline (number + 1)
      rw [List.append_assoc] at hrest
      exact hrest

theorem holds_start : Scan.Holds {} none [] :=
  ⟨rfl, rfl, by simp⟩

@[simp]
theorem zones_finish (s : Scan) : s.finish.zones = s.zones := by
  unfold finish
  cases s.opened <;> rfl

end Scan

/-- Recovery keeps the zones whose id is closed once, in the order of the
file. -/
theorem entries_recoverZones (style : MarkerStyle) (text : String) :
    (recoverZones style text).zones.entries =
      (unrepeated (style.closings none (splitLines text.toList))).map
        ZoneText.entry := by
  have hrun : (Scan.run style {} 1 (splitLines text.toList)).Holds _ _ :=
    Scan.holds_start.run 1 _
  rw [recoverZones, Scan.zones_finish, hrun.entries_eq, List.nil_append]

/-- Every recovered body is made of whole lines that are no markers. -/
theorem zoneBody_of_get?_recoverZones {style : MarkerStyle} {text : String}
    {id : ZoneId} {body : String}
    (h : (recoverZones style text).zones.get? id = some body) :
    style.ZoneBody body.toList := by
  rw [OrderedMap.get?_eq_some_iff, entries_recoverZones] at h
  obtain ⟨zone, hzone, hentry⟩ := List.mem_map.mp h
  obtain ⟨rfl, rfl⟩ := Prod.mk.inj hentry
  rw [String.toList_ofList]
  exact MarkerStyle.zoneBody_of_mem_closings (by simp)
    (fun line hline => Scan.isLine_bodyLine hline) (List.mem_filter.mp hzone).1

/-- The markers among some lines. -/
def MarkerStyle.markers (style : MarkerStyle) (lines : List (List Char)) :
    List Marker :=
  lines.filterMap style.read?

theorem MarkerStyle.markers_cons_of_plain {style : MarkerStyle} {line : List Char}
    (hline : style.read? line = none) (rest : List (List Char)) :
    style.markers (line :: rest) = style.markers rest := by
  simp [markers, hline]

theorem MarkerStyle.markers_cons_of_marker {style : MarkerStyle} {line : List Char}
    {marker : Marker} (hline : style.read? line = some marker)
    (rest : List (List Char)) :
    style.markers (line :: rest) = marker :: style.markers rest := by
  simp [markers, hline]

/-- The markers of zones that follow one another. -/
def paired (ids : List ZoneId) : List Marker :=
  ids.flatMap fun id => [.opens id, .closes id]

namespace Scan

variable {style : MarkerStyle}

/-- None of the ids was closed before. -/
def New (s : Scan) (ids : List ZoneId) : Prop :=
  ∀ id ∈ ids, id ∉ s.repeated ∧ s.zones.contains id = false

/-- A zone under a new id is stored without damage, and the ids ahead stay new. -/
theorem store_of_new {s : Scan} {zone : OpenZone} {rest : List ZoneId}
    (hnew : s.New (zone.id :: rest)) (hrest : zone.id ∉ rest) :
    (s.store zone).damage = s.damage ∧ (s.store zone).opened = s.opened ∧
      (s.store zone).New rest := by
  obtain ⟨hrepeated, hcontains⟩ := hnew zone.id List.mem_cons_self
  have hstore : s.store zone =
      { s with zones := s.zones.insert zone.id (String.ofList zone.body) } := by
    simp [Scan.store, hrepeated, hcontains]
  rw [hstore]
  refine ⟨rfl, rfl, fun id hid => ?_⟩
  obtain ⟨hidRepeated, hidContains⟩ := hnew id (List.mem_cons_of_mem _ hid)
  refine ⟨hidRepeated, ?_⟩
  have hne : id ≠ zone.id := fun heq => hrest (heq ▸ hid)
  rw [← Bool.not_eq_true, OrderedMap.contains_iff_mem_keys] at hidContains ⊢
  rw [OrderedMap.mem_keys_insert_iff]
  exact not_or.mpr ⟨hne, hidContains⟩

/-- What the markers of the lines ahead do: they close the zone that is open, and then
open and close zones under the given ids, and no id comes twice. -/
structure Expects (style : MarkerStyle) (s : Scan) (lines : List (List Char))
    (ids : List ZoneId) : Prop where
  markers_eq : style.markers lines =
    (s.opened.map fun zone => Marker.closes zone.id).toList ++ paired ids
  nodup : ((s.opened.map OpenZone.id).toList ++ ids).Nodup
  new : s.New ((s.opened.map OpenZone.id).toList ++ ids)

/-- A line does no damage where zones follow one another, and nor will the lines behind
it. -/
theorem Expects.step {s : Scan} {line : List Char} {lines : List (List Char)}
    {ids : List ZoneId} (h : s.Expects style (line :: lines) ids) (number : ℕ) :
    (s.step style number line).damage = s.damage ∧
      ∃ rest, (s.step style number line).Expects style lines rest := by
  obtain ⟨hmarkers, hnodup, hnew⟩ := h
  rw [Scan.step]
  cases hread : style.read? line with
  | none =>
      rw [MarkerStyle.markers_cons_of_plain hread] at hmarkers
      cases hopened : s.opened with
      | none => exact ⟨rfl, ids, hmarkers, hnodup, hnew⟩
      | some zone =>
          rw [hopened] at hmarkers hnodup hnew
          exact ⟨rfl, ids, hmarkers, hnodup, hnew⟩
  | some marker =>
      rw [MarkerStyle.markers_cons_of_marker hread] at hmarkers
      cases hopened : s.opened with
      | none =>
          rw [hopened] at hmarkers hnodup hnew
          cases ids with
          | nil => simp [paired] at hmarkers
          | cons id rest =>
              obtain ⟨rfl, htail⟩ := List.cons.inj hmarkers
              exact ⟨rfl, rest, htail, hnodup, hnew⟩
      | some zone =>
          rw [hopened] at hmarkers hnodup hnew
          obtain ⟨rfl, htail⟩ := List.cons.inj hmarkers
          obtain ⟨hid, hrest⟩ := List.nodup_cons.mp hnodup
          obtain ⟨hdamage, hclosed, hnewRest⟩ :=
            store_of_new (s := { s with opened := none }) hnew hid
          simp only [if_true]
          refine ⟨hdamage, ids, ?_⟩
          constructor
          · rw [hclosed]
            exact htail
          · rw [hclosed]
            exact hrest
          · rw [hclosed]
            exact hnewRest

/-- Lines in which zones follow one another leave no damage and no open zone. -/
theorem Expects.run {s : Scan} {lines : List (List Char)} {ids : List ZoneId}
    (h : s.Expects style lines ids) (number : ℕ) :
    (Scan.run style s number lines).damage = s.damage ∧
      (Scan.run style s number lines).opened = none := by
  induction lines generalizing s ids number with
  | nil =>
      refine ⟨rfl, ?_⟩
      have hmarkers := h.markers_eq
      cases hopened : s.opened with
      | none => exact hopened
      | some zone => simp [hopened, MarkerStyle.markers] at hmarkers
  | cons line lines ih =>
      obtain ⟨hdamage, rest, hrest⟩ := h.step number
      rw [Scan.run, ← hdamage]
      exact ih hrest (number + 1)

end Scan

/-- Markers that pair up under different ids do no damage. -/
theorem damage_recoverZones_of_paired {style : MarkerStyle} {text : String}
    {ids : List ZoneId} (hids : ids.Nodup)
    (hmarkers : style.markers (splitLines text.toList) = paired ids) :
    (recoverZones style text).damage = [] := by
  have hstart : Scan.Expects style {} (splitLines text.toList) ids :=
    ⟨hmarkers, hids, fun id _ => ⟨by simp, rfl⟩⟩
  obtain ⟨hdamage, hopened⟩ := hstart.run 1
  rw [recoverZones, Scan.finish, hopened]
  exact hdamage

end DeviceForge
