import DeviceForge.Merge
import DeviceForge.Proofs.Skeleton

/-!
# Merging settles at once

A zone of the merged file takes the first body that was moved to it, or else
the first one that stayed.  These bodies come out of a recovery, so they are
free of markers, and a second merge recovers exactly what the first one wrote.
-/

namespace DeviceForge

open Text

/-- The zone of an earlier file whose body a place takes: the first one that
moves there, or else the first one that stays. -/
def carried? (renames : Renames) (zones : List (ZoneId × String)) (target : ZoneId) :
    Option (ZoneId × String) :=
  (zones.find? fun zone => renames.resolve zone.1 = .renamed target).or
    (zones.find? fun zone => renames.resolve zone.1 = .keep target)

namespace Placement

variable {renames : Renames}

theorem ofZones_concat (renames : Renames) (zones : List (ZoneId × String))
    (zone : ZoneId × String) :
    ofZones renames (zones ++ [zone]) =
      (ofZones renames zones).add renames zone.1 zone.2 := by
  simp [ofZones]

/-- A place after one more body was put somewhere. -/
theorem get?_put (p : Placement) (target : ZoneId) (zone : PlacedZone)
    (place : ZoneId) :
    (p.put target zone).placed.get? place =
      if target = place then
        match p.placed.get? place with
        | none => some zone
        | some taken => some (if zone.renamed && !taken.renamed then zone else taken)
      else p.placed.get? place := by
  unfold put
  by_cases hplace : target = place
  · subst hplace
    rw [if_pos rfl]
    cases htaken : p.placed.get? target with
    | none => simp [OrderedMap.get?_insert]
    | some taken =>
        by_cases hwins : (zone.renamed && !taken.renamed) = true
        · simp [hwins, OrderedMap.get?_insert]
        · simp only [hwins, Bool.false_eq_true, if_false, htaken]
  · rw [if_neg hplace]
    cases p.placed.get? target with
    | none => simp [OrderedMap.get?_insert, hplace]
    | some taken =>
        by_cases hwins : (zone.renamed && !taken.renamed) = true
        · simp [hwins, OrderedMap.get?_insert, hplace]
        · simp only [hwins, Bool.false_eq_true, if_false]

/-- What a place holds when all zones of the earlier file are placed. -/
theorem get?_ofZones (zones : List (ZoneId × String)) (place : ZoneId) :
    (ofZones renames zones).placed.get? place =
      match zones.find? fun zone => renames.resolve zone.1 = .renamed place with
      | some zone => some ⟨zone.2, true⟩
      | none => (zones.find? fun zone => renames.resolve zone.1 = .keep place).map
          fun zone => ⟨zone.2, false⟩ := by
  induction zones using List.reverseRecOn with
  | nil => rfl
  | append_singleton zones zone ih =>
      rw [ofZones_concat, add, List.find?_append, List.find?_append]
      cases hzone : renames.resolve zone.1 with
      | dropped => simpa [hzone] using ih
      | keep target =>
          rw [get?_put, ih]
          by_cases htarget : target = place
          · subst htarget
            cases zones.find? fun zone => renames.resolve zone.1 = .renamed target with
            | some moved => simp
            | none =>
                cases zones.find? fun zone => renames.resolve zone.1 = .keep target <;>
                  simp [hzone]
          · simp [hzone, htarget]
      | renamed target =>
          rw [get?_put, ih]
          by_cases htarget : target = place
          · subst htarget
            cases zones.find? fun zone => renames.resolve zone.1 = .renamed target with
            | some moved => simp
            | none =>
                cases zones.find? fun zone => renames.resolve zone.1 = .keep target <;>
                  simp [hzone]
          · simp [hzone, htarget]

theorem get?_ofZones_body (zones : List (ZoneId × String)) (place : ZoneId) :
    ((ofZones renames zones).placed.get? place).map PlacedZone.body =
      (carried? renames zones place).map Prod.snd := by
  rw [get?_ofZones, carried?]
  cases zones.find? fun zone => renames.resolve zone.1 = .renamed place with
  | some moved => rfl
  | none => simp [Function.comp_def]

end Placement

theorem mem_of_carried? {renames : Renames} {zones : List (ZoneId × String)}
    {target : ZoneId} {zone : ZoneId × String}
    (h : carried? renames zones target = some zone) : zone ∈ zones := by
  rw [carried?, Option.or_eq_some_iff] at h
  rcases h with h | ⟨-, h⟩
  · exact List.mem_of_find?_eq_some h
  · exact List.mem_of_find?_eq_some h

/-- A body that is carried to a place comes from a zone that belongs there. -/
theorem target?_of_carried? {renames : Renames} {zones : List (ZoneId × String)}
    {target : ZoneId} {zone : ZoneId × String}
    (h : carried? renames zones target = some zone) :
    (renames.resolve zone.1).target? = some target := by
  rw [carried?, Option.or_eq_some_iff] at h
  rcases h with h | ⟨-, h⟩
  · have hmoved : renames.resolve zone.1 = .renamed target := by
      simpa using List.find?_some h
    rw [hmoved, Resolution.target?]
  · have hkept : renames.resolve zone.1 = .keep target := by
      simpa using List.find?_some h
    rw [hkept, Resolution.target?]

/-- A place takes the body of some zone if any belongs to it. -/
theorem target?_ne_of_carried?_eq_none {renames : Renames}
    {zones : List (ZoneId × String)} {target : ZoneId}
    (h : carried? renames zones target = none) {zone : ZoneId × String}
    (hzone : zone ∈ zones) : (renames.resolve zone.1).target? ≠ some target := by
  rw [carried?, Option.or_eq_none_iff, List.find?_eq_none, List.find?_eq_none] at h
  have hmoved := h.1 zone hzone
  have hkept := h.2 zone hzone
  intro htarget
  cases hresolve : renames.resolve zone.1 with
  | dropped => simp [hresolve, Resolution.target?] at htarget
  | keep id =>
      rw [hresolve, Resolution.target?, Option.some.injEq] at htarget
      simp [hresolve, htarget] at hkept
  | renamed id =>
      rw [hresolve, Resolution.target?, Option.some.injEq] at htarget
      simp [hresolve, htarget] at hmoved

/-- The bodies that a merge takes from an earlier file. -/
def carriedBodies (style : MarkerStyle) (prior : Option String) (renames : Renames)
    (target : ZoneId) : Option String :=
  prior.bind fun text =>
    (carried? renames (recoverZones style text).zones.entries target).map Prod.snd

/-- A merged file is its skeleton with the carried bodies. -/
theorem text_merge (s : Skeleton) (prior : Option String) (renames : Renames) :
    (merge s prior renames).text = s.render (carriedBodies s.style prior renames) := by
  cases prior with
  | none => rfl
  | some text =>
      simp only [merge, Placement.get?_ofZones_body]
      rfl

theorem file_merge (s : Skeleton) (prior : Option String) (renames : Renames) :
    (merge s prior renames).file = s.file := by
  cases prior <;> rfl

/-- However damaged the earlier file is, the carried bodies are made of whole
lines that are no markers. -/
theorem zoneBody_of_mem_carriedBodies {style : MarkerStyle} {prior : Option String}
    {renames : Renames} {target : ZoneId} {body : String}
    (h : body ∈ carriedBodies style prior renames target) :
    style.ZoneBody body.toList := by
  simp only [carriedBodies, Option.mem_def, Option.bind_eq_some_iff,
    Option.map_eq_some_iff] at h
  obtain ⟨text, -, zone, hzone, rfl⟩ := h
  exact zoneBody_of_get?_recoverZones
    (OrderedMap.get?_eq_some_iff.mpr (mem_of_carried? hzone))

theorem plainContent_carriedBodies (style : MarkerStyle) (prior : Option String)
    (renames : Renames) :
    Skeleton.PlainContent style (carriedBodies style prior renames) :=
  fun _ _ hbody => (zoneBody_of_mem_carriedBodies hbody).2

namespace Skeleton

variable {s : Skeleton}

theorem Sound.recoverable_carriedBodies (hs : s.Sound) (prior : Option String)
    (renames : Renames) : s.Recoverable (carriedBodies s.style prior renames) :=
  hs.recoverable (plainContent_carriedBodies _ _ _)

/-- A merged file shows the zones of its skeleton. -/
theorem Sound.keys_recoverZones_merge (hs : s.Sound) (htexts : s.PlainTexts)
    (prior : Option String) (renames : Renames) :
    (recoverZones s.style (merge s prior renames).text).zones.keys = s.zoneIds := by
  rw [text_merge]
  exact (hs.recoverable_carriedBodies prior renames).keys_recoverZones_render htexts

/-- A zone of a merged file has the body that is carried to it, or else the
default one. -/
theorem Sound.get?_recoverZones_merge (hs : s.Sound) {id : ZoneId}
    {body indent : String} (hmem : Segment.zone id body indent ∈ s.segments)
    (hforged : id ∉ s.forgedIds) (prior : Option String) (renames : Renames) :
    (recoverZones s.style (merge s prior renames).text).zones.get? id =
      some ((carriedBodies s.style prior renames id).getD body) := by
  have hcomplete :
      Complete ((carriedBodies s.style prior renames id).getD body).toList := by
    cases hcarried : carriedBodies s.style prior renames id with
    | none => exact hs.bodiesComplete id body indent hmem
    | some carried => exact (zoneBody_of_mem_carriedBodies hcarried).1
  rw [text_merge,
    (hs.recoverable_carriedBodies prior renames).get?_recoverZones_render hmem hforged,
    endLine_of_complete hcomplete]

end Skeleton

@[simp]
theorem resolve_empty (id : ZoneId) : Renames.resolve {} id = .keep id := by
  unfold Renames.resolve
  cases id.slot? <;> rfl

theorem carried?_empty (zones : OrderedMap ZoneId String) (target : ZoneId) :
    (carried? {} zones.entries target).map Prod.snd = zones.get? target := by
  have hmoved : (zones.entries.find? fun _ => false) = none := by simp
  simp [carried?, OrderedMap.get?_eq_find?, hmoved]

/-- With nothing pending every zone stays where it is. -/
theorem Placement.ofZones_empty {zones : List (ZoneId × String)}
    (hzones : (zones.map Prod.fst).Nodup) :
    (ofZones {} zones).placed.keys = zones.map Prod.fst ∧
      (ofZones {} zones).issues = [] := by
  induction zones using List.reverseRecOn with
  | nil => exact ⟨rfl, rfl⟩
  | append_singleton zones zone ih =>
      rw [List.map_append, List.map_singleton, List.nodup_append_comm,
        List.singleton_append, List.nodup_cons] at hzones
      obtain ⟨hkeys, hissues⟩ := ih hzones.2
      have hfree : (ofZones {} zones).placed.get? zone.1 = none := by
        rw [OrderedMap.get?_eq_none_iff, hkeys]
        exact hzones.1
      rw [ofZones_concat, add, resolve_empty]
      simp only [put, hfree]
      refine ⟨?_, hissues⟩
      rw [OrderedMap.keys_insert_of_get?_eq_none _ hfree, hkeys, List.map_append,
        List.map_singleton]

/-- A merge with nothing pending is silent if the earlier file is undamaged and
all its zones are still there. -/
theorem issues_merge_empty {s : Skeleton} {text : String}
    (hdamage : (recoverZones s.style text).damage = [])
    (hzones : ∀ id ∈ (recoverZones s.style text).zones.keys, id ∈ s.zoneIds) :
    (merge s (some text) {}).issues = [] := by
  obtain ⟨hkeys, hissues⟩ :=
    Placement.ofZones_empty (recoverZones s.style text).zones.nodup_keys
  have horphans : (Placement.ofZones {}
      (recoverZones s.style text).zones.entries).orphans s.zoneIds = [] := by
    have hnone : (recoverZones s.style text).zones.keys.filter (· ∉ s.zoneIds) =
        [] := by
      simpa [List.filter_eq_nil_iff] using hzones
    rw [Placement.orphans, hkeys, ← OrderedMap.keys, hnone, List.mergeSort_nil]
  simp [merge, hdamage, hissues, horphans]

/-- A merge with nothing pending fills in the bodies that it recovers. -/
theorem text_merge_empty (s : Skeleton) (text : String) :
    (merge s (some text) {}).text =
      s.render (recoverZones s.style text).zones.get? := by
  rw [text_merge]
  congr 1
  funext target
  exact carried?_empty _ target

/-! ## Merging twice -/

/-- A second merge recovers what the first one wrote: it changes nothing and has
nothing to report. -/
theorem merge_settles {s : Skeleton} (hbuilt : s.Built) (hids : s.zoneIds.Nodup)
    (hreadable : Skeleton.Readable s.segments) (htexts : s.PlainTexts)
    (hdefaults : Skeleton.PlainBodies s.style (fun _ => none) s.segments)
    (prior : Option String) (renames : Renames) :
    (merge s (some (merge s prior renames).text) {}).text =
        (merge s prior renames).text ∧
      (merge s (some (merge s prior renames).text) {}).warnings = [] := by
  have hs : s.Sound :=
    ⟨hbuilt.separated, hreadable, hids, hbuilt.bodiesComplete, hdefaults⟩
  constructor
  · rw [text_merge_empty, text_merge s prior renames]
    apply Skeleton.render_congr
    intro id body indent hmem
    have hforged : id ∉ s.forgedIds := by simp [htexts.forgedIds_eq_nil]
    rw [← text_merge s prior renames, hs.get?_recoverZones_merge hmem hforged,
      Option.getD_some]
  · have hdamage : (recoverZones s.style (merge s prior renames).text).damage = [] := by
      rw [text_merge]
      exact hs.damage_recoverZones_render htexts (plainContent_carriedBodies _ _ _)
    have hissues := issues_merge_empty hdamage
      fun id hid => by rwa [hs.keys_recoverZones_merge htexts] at hid
    rw [Merged.warnings, hissues]
    rfl

/-- A header with the zone of one command. -/
def headerSkeleton : Skeleton :=
  (((⟨"Motor.h", .block, []⟩ : Skeleton).pushText "class Motor \x7b").pushZone
    ⟨"command:On:body"⟩ "    " "").pushText "\x7d;\n"

/-- The earlier file has no line end and a zone of a command that is renamed and
one that is not closed. -/
theorem merge_settles_headerSkeleton :
    let prior :=
      some ("/*----- PROTECTED REGION ID(command:Start:body) ENABLED START -----*/\n" ++
      "    go();\n/*----- PROTECTED REGION END(command:Start:body) -----*/\n" ++
      "/*----- PROTECTED REGION ID(command:Off:body) ENABLED START -----*/")
    let renames : Renames := { renamed := .ofList [(⟨.command, "Start"⟩, "On")] }
    let text := (merge headerSkeleton prior renames).text
    (merge headerSkeleton (some text) {}).text = text ∧
      (merge headerSkeleton (some text) {}).warnings = [] := by
  have hsegments : headerSkeleton.segments =
      [.text "class Motor \x7b", .zone ⟨"command:On:body"⟩ "" "    ",
        .text "\x7d;\n"] := by decide
  have hreadable : Skeleton.Readable headerSkeleton.segments := by
    intro id body indent hmem
    rw [hsegments] at hmem
    simp only [List.mem_cons, reduceCtorEq, Segment.zone.injEq, List.not_mem_nil,
      or_false, false_or] at hmem
    obtain ⟨rfl, rfl, rfl⟩ := hmem
    exact ⟨by decide, by decide, allBlank_replicate_space 4, by decide⟩
  have htexts : headerSkeleton.PlainTexts := by
    intro t hmem
    rw [hsegments] at hmem
    simp only [List.mem_cons, reduceCtorEq, Segment.text.injEq, List.not_mem_nil,
      or_false, false_or] at hmem
    rcases hmem with rfl | rfl
    · decide
    · decide
  have hdefaults :
      Skeleton.PlainBodies headerSkeleton.style
        (fun _ => none) headerSkeleton.segments := by
    intro id body indent hmem
    rw [hsegments] at hmem
    simp only [List.mem_cons, reduceCtorEq, Segment.zone.injEq, List.not_mem_nil,
      or_false, false_or] at hmem
    obtain ⟨-, rfl, -⟩ := hmem
    exact MarkerStyle.plain_nil _
  exact merge_settles (.pushText (.pushZone (.pushText (.start _ _) _) _ _ _) _)
    (by decide) hreadable htexts hdefaults _ _

end DeviceForge
