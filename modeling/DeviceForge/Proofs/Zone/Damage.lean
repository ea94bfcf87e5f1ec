import DeviceForge.Proofs.Zone.Recovery

/-!
# Damage, and nothing else

A scan finds no damage exactly where zones follow one another, each between two
markers that name it and no other zone.  Whatever the markers of a file are, a
zone that opens is recovered or some damage tells that it is lost.
-/

namespace DeviceForge

open Text

namespace Damage

/-- The zone that is lost.  A line that closes no open zone is passed over, and
nothing is lost with it. -/
def lost? : Damage → Option ZoneId
  | .abandoned id _ _ | .repeated id | .unfinished id _ => some id
  | .mismatched .. | .unopened .. => none

/-- The message holds the id in quotes. -/
def Quotes (d : Damage) (id : ZoneId) : Prop :=
  ("'" ++ id.text ++ "'").toList <:+: d.message.toList

theorem infix_toList_append {cs : List Char} {s : String} (h : cs <:+: s.toList)
    (t : String) :
    cs <:+: (s ++ t).toList := by
  rw [String.toList_append]
  exact h.trans (List.prefix_append _ _).isInfix

theorem infix_zone (id : ZoneId) (back tail : String)
    (hback : back.toList = '\'' :: tail.toList) :
    ("'" ++ id.text ++ "'").toList <:+: ("zone '" ++ id.text ++ back).toList := by
  refine ⟨"zone ".toList, tail.toList, ?_⟩
  simp [hback]

/-- Damage that loses a zone names it in its message. -/
theorem quotes_of_lost? {d : Damage} {id : ZoneId} (h : d.lost? = some id) :
    d.Quotes id := by
  unfold Quotes message
  cases d with
  | abandoned lost openedAt line =>
      obtain rfl := Option.some.inj h
      have hzone := infix_zone lost "' opened at line " " opened at line " rfl
      exact infix_toList_append (infix_toList_append (infix_toList_append hzone _) _) _
  | repeated lost =>
      obtain rfl := Option.some.inj h
      exact infix_zone lost _ " appears more than once; using its default" rfl
  | unfinished lost openedAt =>
      obtain rfl := Option.some.inj h
      have hzone := infix_zone lost "' opened at line " " opened at line " rfl
      exact infix_toList_append (infix_toList_append hzone _) _
  | mismatched | unopened => simp [lost?] at h

end Damage

namespace Scan

/-- The scans that a line can lead to. -/
inductive Step (style : MarkerStyle) (s : Scan) (number : ℕ) (line : List Char) :
    Scan → Prop
  | plain (hread : style.read? line = none) :
      Step style s number line
        { s with opened := s.opened.map fun zone =>
          { zone with body := zone.body ++ bodyLine line } }
  | opens {id : ZoneId} (hread : style.read? line = some (.opens id))
      (hopened : s.opened = none) :
      Step style s number line { s with opened := some ⟨id, number, []⟩ }
  | abandons {id : ZoneId} {zone : OpenZone}
      (hread : style.read? line = some (.opens id)) (hopened : s.opened = some zone) :
      Step style s number line
        { s.report (.abandoned zone.id zone.openedAt number) with
          opened := some ⟨id, number, []⟩ }
  /-- No open zone is closed. -/
  | strays {id : ZoneId} {d : Damage} (hread : style.read? line = some (.closes id))
      (hlost : d.lost? = none) : Step style s number line (s.report d)
  | keeps {zone : OpenZone} (hread : style.read? line = some (.closes zone.id))
      (hopened : s.opened = some zone) (hrepeated : zone.id ∉ s.repeated)
      (hcontains : s.zones.contains zone.id = false) :
      Step style s number line
        { s with
          opened := none
          zones := s.zones.insert zone.id (String.ofList zone.body) }
  /-- The id was closed once before. -/
  | repeats {zone : OpenZone} (hread : style.read? line = some (.closes zone.id))
      (hopened : s.opened = some zone) (hrepeated : zone.id ∉ s.repeated)
      (hcontains : s.zones.contains zone.id = true) :
      Step style s number line
        { s.report (.repeated zone.id) with
          opened := none
          zones := s.zones.erase zone.id
          repeated := zone.id :: s.repeated }
  /-- The id was given up before. -/
  | ignores {zone : OpenZone} (hread : style.read? line = some (.closes zone.id))
      (hopened : s.opened = some zone) (hrepeated : zone.id ∈ s.repeated) :
      Step style s number line { s with opened := none }

variable {style : MarkerStyle}

/-- A marker that closes the open zone stores it, under a new id or a repeated one. -/
theorem step_store {s : Scan} {zone : OpenZone} {number : ℕ} {line : List Char}
    (hread : style.read? line = some (.closes zone.id))
    (hopened : s.opened = some zone) :
    Step style s number line ({ s with opened := none }.store zone) := by
  rw [store]
  split
  · next hrepeated => exact .ignores hread hopened hrepeated
  · next hrepeated =>
      split
      · next hcontains => exact .repeats hread hopened hrepeated hcontains
      · next hcontains =>
          exact .keeps hread hopened hrepeated (by simpa using hcontains)

/-- Every line takes a scan one of the steps. -/
theorem step_step (s : Scan) (number : ℕ) (line : List Char) :
    Step style s number line (s.step style number line) := by
  obtain ⟨zones, repeated, damage, opened⟩ := s
  rw [Scan.step]
  split
  · next id hread hopened => exact .opens hread hopened
  · next id zone hread hopened => exact .abandons hread hopened
  · next id hread hopened => exact .strays hread rfl
  · next id zone hread hopened =>
      split
      · next hid =>
          subst hid
          exact step_store hread hopened
      · exact .strays hread rfl
  · next hread hopened =>
      obtain rfl : opened = none := hopened
      exact .plain hread
  · next zone hread hopened =>
      obtain rfl : opened = some zone := hopened
      exact .plain hread

/-- What every line keeps is kept by a run, which adds its lines to those before. -/
theorem run_of_step {p : Scan → List (List Char) → Prop}
    (hstep : ∀ {s after number line front}, p s front → Step style s number line after →
      p after (front ++ [line]))
    {s : Scan} {front : List (List Char)} (h : p s front) (number : ℕ)
    (lines : List (List Char)) :
    p (Scan.run style s number lines) (front ++ lines) := by
  induction lines generalizing s front number with
  | nil =>
      rw [List.append_nil]
      exact h
  | cons line rest ih =>
      have hrest := ih (hstep h (step_step s number line)) (number + 1)
      rw [List.append_assoc, List.singleton_append] at hrest
      exact hrest

/-- What holds at the start, and is kept by every line, holds for all lines of a text.
-/
theorem run_start {p : Scan → List (List Char) → Prop}
    (hstep : ∀ {s after number line front}, p s front → Step style s number line after →
      p after (front ++ [line]))
    (h : p {} []) (lines : List (List Char)) : p (Scan.run style {} 1 lines) lines :=
  run_of_step hstep h 1 lines

theorem markers_concat (style : MarkerStyle) (front : List (List Char))
    (line : List Char) :
    style.markers (front ++ [line]) = style.markers front ++
      (style.read? line).toList := by
  simp only [MarkerStyle.markers, List.filterMap_append, List.filterMap_cons,
    List.filterMap_nil]
  cases style.read? line <;> rfl

variable {s after : Scan} {number : ℕ} {line : List Char} {front : List (List Char)}

/-! ## No damage -/

/-- If a scan has found no damage in some lines, their markers pair up under the
ids of the zones, and a last one opens the zone that is open. -/
def Pairs (style : MarkerStyle) (s : Scan) (front : List (List Char)) : Prop :=
  s.damage = [] →
    s.repeated = [] ∧
      style.markers front =
        paired s.zones.keys ++ (s.opened.map fun zone => Marker.opens zone.id).toList

theorem paired_concat (ids : List ZoneId) (id : ZoneId) :
    paired (ids ++ [id]) = paired ids ++ [.opens id, .closes id] := by
  simp [paired]

/-- Only a line that makes no damage goes on with the pairs: it opens a zone under a new
id where none is open, closes the open one, or is a line between markers. -/
theorem Pairs.step (h : s.Pairs style front) (hstep : Step style s number line after) :
    after.Pairs style (front ++ [line]) := by
  intro hdamage
  rw [markers_concat]
  cases hstep with
  | plain hread =>
      obtain ⟨hrepeated, hmarkers⟩ := h hdamage
      refine ⟨hrepeated, ?_⟩
      rw [hmarkers, hread, Option.map_map, Option.toList_none, List.append_nil]
      rfl
  | opens hread hopened =>
      obtain ⟨hrepeated, hmarkers⟩ := h hdamage
      refine ⟨hrepeated, ?_⟩
      rw [hmarkers, hread, hopened]
      simp
  | abandons | strays | repeats => simp [report] at hdamage
  | @keeps zone hread hopened _ hcontains =>
      obtain ⟨hrepeated, hmarkers⟩ := h hdamage
      have hnew : s.zones.get? zone.id = none := by
        rw [OrderedMap.get?_eq_none_iff, ← OrderedMap.contains_iff_mem_keys, hcontains]
        exact Bool.false_ne_true
      refine ⟨hrepeated, ?_⟩
      rw [hmarkers, hread, hopened, OrderedMap.keys_insert_of_get?_eq_none _ hnew,
        paired_concat]
      simp
  | ignores hread hopened hrepeated =>
      rw [(h hdamage).1] at hrepeated
      exact absurd hrepeated List.not_mem_nil

/-! ## No zone lost in silence -/

/-- Some damage tells that the zone is lost. -/
def Lost (s : Scan) (id : ZoneId) : Prop :=
  ∃ d ∈ s.damage, d.lost? = some id

theorem Lost.report {id : ZoneId} (h : s.Lost id) (d : Damage) :
    (s.report d).Lost id := by
  obtain ⟨known, hknown, hlost⟩ := h
  exact ⟨known, List.mem_append_left _ hknown, hlost⟩

theorem lost_report (s : Scan) {id : ZoneId} {d : Damage} (h : d.lost? = some id) :
    (s.report d).Lost id :=
  ⟨d, List.mem_append_right _ List.mem_cons_self, h⟩

/-- Every zone that lines open is there, or open, or known to be lost. -/
structure Accounts (style : MarkerStyle) (s : Scan) (front : List (List Char)) :
    Prop where
  repeated : ∀ id ∈ s.repeated, s.Lost id
  opened : ∀ id, .opens id ∈ style.markers front →
    id ∈ s.zones.keys ∨ (∃ zone ∈ s.opened, zone.id = id) ∨ s.Lost id

theorem opens_mem_markers_concat_iff {id : ZoneId} :
    .opens id ∈ style.markers (front ++ [line]) ↔
      .opens id ∈ style.markers front ∨ style.read? line = some (.opens id) := by
  rw [markers_concat, List.mem_append, Option.mem_toList]

/-- A line that closes a zone opens none. -/
theorem opens_mem_of_closes {id closed : ZoneId}
    (hread : style.read? line = some (.closes closed))
    (h : .opens id ∈ style.markers (front ++ [line])) :
    .opens id ∈ style.markers front := by
  rw [opens_mem_markers_concat_iff, hread] at h
  simpa using h

/-- A zone that has been opened is there, open or lost, also when the open zone is
named. -/
theorem Accounts.of_opened (h : s.Accounts style front) {zone : OpenZone}
    (hopened : s.opened = some zone) {id : ZoneId}
    (hid : .opens id ∈ style.markers front) :
    id ∈ s.zones.keys ∨ id = zone.id ∨ s.Lost id := by
  rcases h.opened id hid with hkey | ⟨other, hother, rfl⟩ | hlost
  · exact Or.inl hkey
  · obtain rfl := Option.some.inj (hopened.symm.trans hother)
    exact Or.inr (Or.inl rfl)
  · exact Or.inr (Or.inr hlost)

/-- One case for each step. A zone that was open is stored, given up with its id, or
abandoned with damage that names it; and zones stored before stay there unless their id
is closed again, which loses them with damage too. -/
theorem Accounts.step (h : s.Accounts style front)
    (hstep : Step style s number line after) :
    after.Accounts style (front ++ [line]) := by
  cases hstep with
  | plain hread =>
      refine ⟨h.repeated, fun id hid => ?_⟩
      rw [opens_mem_markers_concat_iff, hread] at hid
      rcases h.opened id (by simpa using hid) with hkey | ⟨zone, hzone, rfl⟩ | hlost
      · exact Or.inl hkey
      · exact Or.inr (Or.inl ⟨_, Option.mem_map_of_mem _ hzone, rfl⟩)
      · exact Or.inr (Or.inr hlost)
  | opens hread hopened =>
      refine ⟨h.repeated, fun id hid => ?_⟩
      rw [opens_mem_markers_concat_iff, hread] at hid
      rcases hid with hid | hid
      · rcases h.opened id hid with hkey | ⟨zone, hzone, -⟩ | hlost
        · exact Or.inl hkey
        · rw [hopened] at hzone
          exact absurd hzone (Option.not_mem_none zone)
        · exact Or.inr (Or.inr hlost)
      · obtain rfl := Marker.opens.inj (Option.some.inj hid)
        exact Or.inr (Or.inl ⟨_, rfl, rfl⟩)
  | abandons hread hopened =>
      refine ⟨fun id hid => (h.repeated id hid).report _, fun id hid => ?_⟩
      rw [opens_mem_markers_concat_iff, hread] at hid
      rcases hid with hid | hid
      · rcases h.of_opened hopened hid with hkey | rfl | hlost
        · exact Or.inl hkey
        · exact Or.inr (Or.inr (lost_report s rfl))
        · exact Or.inr (Or.inr (hlost.report _))
      · obtain rfl := Marker.opens.inj (Option.some.inj hid)
        exact Or.inr (Or.inl ⟨_, rfl, rfl⟩)
  | strays hread =>
      refine ⟨fun id hid => (h.repeated id hid).report _, fun id hid => ?_⟩
      have hknown := h.opened id (opens_mem_of_closes hread hid)
      exact hknown.imp_right (Or.imp_right fun hlost => hlost.report _)
  | keeps hread hopened =>
      refine ⟨h.repeated, fun id hid => ?_⟩
      rw [OrderedMap.mem_keys_insert_iff]
      rcases h.of_opened hopened (opens_mem_of_closes hread hid) with
        hkey | hsame | hlost
      · exact Or.inl (Or.inr hkey)
      · exact Or.inl (Or.inl hsame)
      · exact Or.inr (Or.inr hlost)
  | @repeats zone hread hopened =>
      have hzone : (s.report (.repeated zone.id)).Lost zone.id := lost_report s rfl
      refine ⟨fun id hid => ?_, fun id hid => ?_⟩
      · rcases List.mem_cons.mp hid with rfl | hid
        · exact hzone
        · exact (h.repeated id hid).report _
      · by_cases hsame : id = zone.id
        · exact Or.inr (Or.inr (hsame ▸ hzone))
        · rcases h.of_opened hopened (opens_mem_of_closes hread hid) with
            hkey | heq | hlost
          · exact Or.inl (OrderedMap.mem_keys_erase_iff.mpr ⟨hkey, hsame⟩)
          · exact absurd heq hsame
          · exact Or.inr (Or.inr (hlost.report _))
  | ignores hread hopened hrepeated =>
      refine ⟨h.repeated, fun id hid => ?_⟩
      rcases h.of_opened hopened (opens_mem_of_closes hread hid) with hkey | rfl | hlost
      · exact Or.inl hkey
      · exact Or.inr (Or.inr (h.repeated _ hrepeated))
      · exact Or.inr (Or.inr hlost)

/-- A zone that is open at the end is lost, and nothing else changes there. -/
theorem exists_damage_finish {id : ZoneId}
    (h : (∃ zone ∈ s.opened, zone.id = id) ∨ s.Lost id) :
    ∃ d ∈ s.finish.damage, d.lost? = some id := by
  rw [finish]
  cases hopened : s.opened with
  | none =>
      rcases h with ⟨zone, hzone, -⟩ | h
      · rw [hopened] at hzone
        exact absurd hzone (Option.not_mem_none zone)
      · exact h
  | some zone =>
      rcases h with ⟨other, hother, rfl⟩ | ⟨d, hd, hlost⟩
      · obtain rfl := Option.some.inj (hopened.symm.trans hother)
        exact ⟨_, List.mem_append_right _ List.mem_cons_self, rfl⟩
      · exact ⟨d, List.mem_append_left _ hd, hlost⟩

/-- The ids that a scan has given up are those that it has reported as repeated. -/
def NotesRepeated (s : Scan) : Prop :=
  ∀ id, .repeated id ∈ s.damage ↔ id ∈ s.repeated

theorem notesRepeated_report (h : s.NotesRepeated) {d : Damage}
    (hd : ∀ id, d ≠ .repeated id) :
    (s.report d).NotesRepeated := by
  intro id
  rw [repeated_report, ← h id, report, List.mem_append, List.mem_singleton]
  exact or_iff_left (hd id).symm

/-- Ids are given up in the step that reports them. -/
theorem NotesRepeated.step (h : s.NotesRepeated)
    (hstep : Step style s number line after) :
    after.NotesRepeated := by
  cases hstep with
  | plain | opens | keeps | ignores => exact h
  | abandons => exact notesRepeated_report h (by simp)
  | strays hread hlost =>
      refine notesRepeated_report h fun id heq => ?_
      rw [heq, Damage.lost?] at hlost
      exact absurd hlost (Option.some_ne_none id)
  | @repeats zone =>
      intro id
      rw [List.mem_cons, ← h id, report, List.mem_append, List.mem_singleton,
        Damage.repeated.injEq, or_comm]

theorem repeated_mem_finish_iff {id : ZoneId} :
    .repeated id ∈ s.finish.damage ↔ .repeated id ∈ s.damage := by
  rw [finish]
  cases s.opened <;> simp

end Scan

namespace MarkerStyle

/-- The lines hold zones one after another, each with the lines between its two
markers, and no other markers. -/
inductive Zoned (style : MarkerStyle) : List (List Char) → List ZoneText → Prop
  | nil {rest : List (List Char)} (hrest : ∀ line ∈ rest, style.read? line = none) :
      Zoned style rest []
  | cons {gap inner rest : List (List Char)} {opening closing : List Char} {id : ZoneId}
      {zones : List ZoneText} (hgap : ∀ line ∈ gap, style.read? line = none)
      (hopens : style.read? opening = some (.opens id))
      (hinner : ∀ line ∈ inner, style.read? line = none)
      (hcloses : style.read? closing = some (.closes id))
      (hrest : Zoned style rest zones) :
      Zoned style (gap ++ opening :: (inner ++ closing :: rest))
        ((id, inner.flatten) :: zones)

variable {style : MarkerStyle} {lines : List (List Char)}

/-- Where markers pair up, the lines hold zones of these ids. -/
theorem exists_zoned_of_markers {ids : List ZoneId}
    (h : style.markers lines = paired ids) :
    ∃ zones, style.Zoned lines zones ∧ zones.map Prod.fst = ids := by
  induction ids generalizing lines with
  | nil => exact ⟨[], .nil (List.filterMap_eq_nil_iff.mp h), rfl⟩
  | cons id ids ih =>
      obtain ⟨gap, opening, back, rfl, hgap, hopens, h⟩ :=
        List.filterMap_eq_cons_iff.mp h
      obtain ⟨inner, closing, rest, rfl, hinner, hcloses, h⟩ :=
        List.filterMap_eq_cons_iff.mp h
      obtain ⟨zones, hzones, rfl⟩ := ih h
      exact ⟨_, .cons hgap hopens hinner hcloses hzones, rfl⟩

/-- The zones that lines hold are those that they close.  A line in front of another
one is whole, so nothing is added to the body. -/
theorem Zoned.closings_eq {zones : List ZoneText} (h : style.Zoned lines zones)
    (hlines : ∀ line ∈ lines.dropLast, IsLine line) :
    style.closings none lines = zones := by
  induction h with
  | nil hrest => exact closings_of_plain hrest none
  | @cons gap inner rest opening closing zoneId zones hgap hopens hinner hcloses
    hrest ih =>
      rw [List.dropLast_append_of_ne_nil (by simp),
        List.dropLast_cons_of_ne_nil (by simp),
        List.dropLast_append_of_ne_nil (by simp)] at hlines
      have hbody : inner.map Scan.bodyLine = inner := by
        rw [List.map_congr_left (g := id) ?_, List.map_id]
        intro line hline
        exact Scan.bodyLine_of_isLine (hlines line (by simp [hline]))
      have hback : ∀ line ∈ rest.dropLast, IsLine line := by
        intro line hline
        have hne : rest ≠ [] := fun hnil => by simp [hnil] at hline
        rw [List.dropLast_cons_of_ne_nil hne] at hlines
        exact hlines line (by simp [hline])
      rw [closings_append, closings_of_plain hgap, List.nil_append,
        closings_cons_of_opens hopens, closings_append, closings_of_plain hinner,
        List.nil_append, openAfterAll_of_plain hinner, hbody, Option.map_some,
        List.nil_append, closings_cons_of_closes hcloses, ih hback]

end MarkerStyle

theorem isLine_of_mem_dropLast {cs line : List Char}
    (h : line ∈ (splitLines cs).dropLast) :
    IsLine line := by
  have hlines : splitLines cs ≠ [] := by
    intro hnil
    simp [hnil] at h
  exact (splitLines_eq_append (List.dropLast_concat_getLast hlines).symm).1 line h

section Recovery

variable {style : MarkerStyle} {text : String}

/-- Without damage the markers pair up, and no id comes twice. -/
theorem exists_paired_of_damage (h : (recoverZones style text).damage = []) :
    ∃ ids, ids.Nodup ∧ style.markers (splitLines text.toList) = paired ids := by
  let s := Scan.run style {} 1 (splitLines text.toList)
  have hpairs : s.Pairs style (splitLines text.toList) :=
    Scan.run_start (p := Scan.Pairs style) Scan.Pairs.step (fun _ => ⟨rfl, rfl⟩) _
  have hfinish : s.finish.damage = [] := h
  cases hopened : s.opened with
  | none =>
      rw [Scan.finish, hopened] at hfinish
      obtain ⟨-, hmarkers⟩ := hpairs hfinish
      rw [hopened, Option.map_none, Option.toList_none, List.append_nil] at hmarkers
      exact ⟨_, s.zones.keys_nodup, hmarkers⟩
  | some zone => simp [Scan.finish, hopened] at hfinish

/-- Markers that pair up give the zones between them, in their order and with their
lines. -/
theorem exists_zoned_recoverZones {ids : List ZoneId} (hids : ids.Nodup)
    (h : style.markers (splitLines text.toList) = paired ids) :
    ∃ zones, style.Zoned (splitLines text.toList) zones ∧ zones.map Prod.fst = ids ∧
      (recoverZones style text).zones.entries = zones.map ZoneText.entry := by
  obtain ⟨zones, hzones, rfl⟩ := MarkerStyle.exists_zoned_of_markers h
  refine ⟨zones, hzones, rfl, ?_⟩
  rw [entries_recoverZones, hzones.closings_eq fun _ => isLine_of_mem_dropLast,
    unrepeated_of_nodup hids]

/-- No zone that is opened anywhere in the text gets lost without a word. -/
theorem mem_keys_or_lost {id : ZoneId}
    (h : .opens id ∈ style.markers (splitLines text.toList)) :
    id ∈ (recoverZones style text).zones.keys ∨
      ∃ d ∈ (recoverZones style text).damage, d.lost? = some id := by
  let s := Scan.run style {} 1 (splitLines text.toList)
  have hstart : Scan.Accounts style {} [] := ⟨by simp, by simp [MarkerStyle.markers]⟩
  have haccounts : s.Accounts style (splitLines text.toList) :=
    Scan.run_start (p := Scan.Accounts style) Scan.Accounts.step hstart _
  rw [recoverZones, Scan.zones_finish]
  exact (haccounts.opened id h).imp_right Scan.exists_damage_finish

/-- A zone is reported as repeated if and only if it is closed more than once. -/
theorem repeated_mem_damage_recoverZones_iff {id : ZoneId} :
    .repeated id ∈ (recoverZones style text).damage ↔
      2 ≤ ((style.closings none (splitLines text.toList)).map Prod.fst).count id := by
  let s := Scan.run style {} 1 (splitLines text.toList)
  have hnotes : s.NotesRepeated :=
    Scan.run_start (p := fun s _ => s.NotesRepeated) Scan.NotesRepeated.step
      (by simp [Scan.NotesRepeated]) _
  have hholds : s.Holds _ _ := Scan.holds_start.run 1 (splitLines text.toList)
  rw [recoverZones, Scan.repeated_mem_finish_iff, hnotes id, hholds.mem_repeated_iff id,
    List.nil_append]

end Recovery

end DeviceForge
