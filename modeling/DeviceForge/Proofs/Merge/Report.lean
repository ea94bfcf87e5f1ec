import DeviceForge.Proofs.Merge

/-!
# What a merge reports

The zones of an earlier file are placed one after another, and a place takes
one body only.  A zone whose body is not carried over is named by a warning: its
member is gone, its place is not in the new file, or its place is taken.
-/

namespace DeviceForge

namespace Placement

variable {renames : Renames} {zones : List (ZoneId × String)}

/-- The zones that belong to a place. -/
def claimants (renames : Renames) (zones : List (ZoneId × String)) (target : ZoneId) :
    List (ZoneId × String) :=
  zones.filter fun zone => (renames.resolve zone.1).target? = some target

theorem mem_claimants_iff {target : ZoneId} {zone : ZoneId × String} :
    zone ∈ claimants renames zones target ↔
      zone ∈ zones ∧ (renames.resolve zone.1).target? = some target := by
  simp [claimants]

/-- What a placement holds and reports once the given zones are taken in. -/
structure Reports (renames : Renames) (p : Placement) (zones : List (ZoneId × String)) :
    Prop where
  mem_keys_iff : ∀ target, target ∈ p.placed.keys ↔ claimants renames zones target ≠ []
  dropped_iff : ∀ id, .dropped id ∈ p.issues ↔
    ∃ zone ∈ zones, zone.1 = id ∧ renames.resolve id = .dropped
  collision_iff : ∀ target, .collision target ∈ p.issues ↔
    2 ≤ (claimants renames zones target).length
  orphaned_notMem : ∀ target, .orphaned target ∉ p.issues

theorem Reports.start (renames : Renames) : Reports renames {} [] := by
  constructor <;> simp [claimants, OrderedMap.keys]

theorem mem_keys_put_iff {p : Placement} {target place : ZoneId} {zone : PlacedZone} :
    place ∈ (p.put target zone).placed.keys ↔
      place = target ∨ place ∈ p.placed.keys := by
  rw [← not_iff_not, ← OrderedMap.get?_eq_none_iff, get?_put, not_or,
    ← OrderedMap.get?_eq_none_iff]
  by_cases hplace : target = place
  · subst hplace
    cases p.placed.get? target <;> simp
  · simp [hplace, Ne.symm hplace]

/-- A body that finds its place taken is reported. -/
theorem issues_put (p : Placement) (target : ZoneId) (zone : PlacedZone) :
    (p.put target zone).issues =
      p.issues ++ if target ∈ p.placed.keys then [.collision target] else [] := by
  unfold put
  cases htaken : p.placed.get? target with
  | none =>
      rw [OrderedMap.get?_eq_none_iff] at htaken
      simp [htaken]
  | some taken =>
      have hmem : target ∈ p.placed.keys := by
        by_contra hmem
        rw [OrderedMap.get?_eq_none_iff.mpr hmem] at htaken
        exact absurd htaken (by simp)
      simp [hmem]

theorem claimants_concat (zone : ZoneId × String) (target : ZoneId) :
    claimants renames (zones ++ [zone]) target = claimants renames zones target ++
      if (renames.resolve zone.1).target? = some target then [zone] else [] := by
  rw [claimants, List.filter_append, claimants]
  congr 1
  by_cases h : (renames.resolve zone.1).target? = some target <;> simp [h]

/-- A zone with a place claims it, and collides there with an earlier one. -/
theorem Reports.put {p : Placement} (h : p.Reports renames zones)
    {zone : ZoneId × String} {target : ZoneId}
    (htarget : (renames.resolve zone.1).target? = some target)
    (hdropped : renames.resolve zone.1 ≠ .dropped) (moved : Bool) :
    (p.put target ⟨zone.2, moved⟩).Reports renames (zones ++ [zone]) := by
  have hissue : ∀ issue, issue ∈ (p.put target ⟨zone.2, moved⟩).issues ↔
      issue ∈ p.issues ∨ (target ∈ p.placed.keys ∧ issue = .collision target) := by
    intro issue
    rw [issues_put, List.mem_append]
    split <;> simp [*]
  constructor
  · intro place
    rw [mem_keys_put_iff, h.mem_keys_iff, claimants_concat, htarget]
    by_cases hplace : target = place
    · simp [hplace]
    · simp [hplace, Ne.symm hplace]
  · intro id
    rw [hissue, h.dropped_iff]
    simp only [reduceCtorEq, and_false, or_false, List.mem_append, List.mem_singleton]
    constructor
    · rintro ⟨other, hother, hid⟩
      exact ⟨other, Or.inl hother, hid⟩
    · rintro ⟨other, hother | rfl, rfl, hgone⟩
      · exact ⟨other, hother, rfl, hgone⟩
      · exact absurd hgone hdropped
  · intro place
    rw [hissue, h.collision_iff, h.mem_keys_iff, claimants_concat, htarget]
    by_cases hplace : target = place
    · subst hplace
      rw [if_pos rfl, List.length_append, ← List.length_pos_iff]
      simp only [and_true, List.length_singleton]
      omega
    · simp [hplace, Ne.symm hplace]
  · intro place
    rw [hissue]
    simpa using h.orphaned_notMem place

/-- One more zone claims its place, which is a collision if another one did before it,
or is reported as dropped. -/
theorem Reports.add {p : Placement} (h : p.Reports renames zones)
    (zone : ZoneId × String) :
    (p.add renames zone.1 zone.2).Reports renames (zones ++ [zone]) := by
  unfold Placement.add
  cases hresolve : renames.resolve zone.1 with
  | keep target =>
    exact h.put (by rw [hresolve, Resolution.target?]) (by simp [hresolve]) false
  | renamed target =>
    exact h.put (by rw [hresolve, Resolution.target?]) (by simp [hresolve]) true
  | dropped =>
      have hclaimants :
          claimants renames (zones ++ [zone]) = claimants renames zones := by
        funext target
        rw [claimants_concat, hresolve, Resolution.target?]
        simp
      constructor
      · rw [hclaimants]
        exact h.mem_keys_iff
      · intro id
        simp only [List.mem_append, List.mem_singleton, MergeIssue.dropped.injEq,
          h.dropped_iff]
        constructor
        · rintro (⟨other, hother, hid⟩ | rfl)
          · exact ⟨other, Or.inl hother, hid⟩
          · exact ⟨zone, Or.inr rfl, rfl, hresolve⟩
        · rintro ⟨other, hother | rfl, rfl, hgone⟩
          · exact Or.inl ⟨other, hother, rfl, hgone⟩
          · exact Or.inr rfl
      · intro target
        rw [hclaimants, ← h.collision_iff]
        simp
      · intro target
        simpa using h.orphaned_notMem target

theorem reports_ofZones (renames : Renames) (zones : List (ZoneId × String)) :
    (ofZones renames zones).Reports renames zones := by
  induction zones using List.reverseRecOn with
  | nil => exact .start renames
  | append_singleton zones zone ih =>
      rw [ofZones_concat]
      exact ih.add zone

theorem mem_orphans_iff {p : Placement} {expected : List ZoneId} {target : ZoneId} :
    target ∈ p.orphans expected ↔ target ∈ p.placed.keys ∧ target ∉ expected := by
  simp [orphans, List.mem_mergeSort]

/-- Two zones that belong to a place are both among its claimants. -/
theorem two_le_length_claimants {target : ZoneId} {zone other : ZoneId × String}
    (hzone : zone ∈ claimants renames zones target)
    (hother : other ∈ claimants renames zones target) (hne : other ≠ zone) :
    2 ≤ (claimants renames zones target).length := by
  have hrest : other ∈ (claimants renames zones target).erase zone :=
    (List.mem_erase_of_ne hne).mpr hother
  have hpos := List.length_pos_of_mem hrest
  rw [List.length_erase_of_mem hzone] at hpos
  omega

end Placement

section Warnings

open Placement

variable (s : Skeleton) (text : String) (renames : Renames)

theorem issues_merge :
    (merge s (some text) renames).issues =
      (recoverZones s.style text).damage.map .damaged ++
        (ofZones renames (recoverZones s.style text).zones.entries).issues ++
        ((ofZones renames (recoverZones s.style text).zones.entries).orphans
          s.zoneIds).map .orphaned := rfl

theorem dropped_mem_issues_merge_iff {id : ZoneId} :
    .dropped id ∈ (merge s (some text) renames).issues ↔
      ∃ zone ∈ (recoverZones s.style text).zones.entries,
        zone.1 = id ∧ renames.resolve id = .dropped := by
  rw [issues_merge, ← (reports_ofZones renames _).dropped_iff]
  simp

theorem collision_mem_issues_merge_iff {target : ZoneId} :
    .collision target ∈ (merge s (some text) renames).issues ↔
      2 ≤ (claimants renames (recoverZones s.style text).zones.entries
        target).length := by
  rw [issues_merge, ← (reports_ofZones renames _).collision_iff]
  simp

theorem orphaned_mem_issues_merge_iff {target : ZoneId} :
    .orphaned target ∈ (merge s (some text) renames).issues ↔
      claimants renames (recoverZones s.style text).zones.entries target ≠ [] ∧
        target ∉ s.zoneIds := by
  have hreports := reports_ofZones renames (recoverZones s.style text).zones.entries
  rw [issues_merge, ← hreports.mem_keys_iff, ← mem_orphans_iff]
  simp [hreports.orphaned_notMem]

end Warnings

theorem toWarning_mem_warnings_merge {s : Skeleton} {prior : Option String}
    {renames : Renames} {issue : MergeIssue}
    (h : issue ∈ (merge s prior renames).issues) :
    issue.toWarning s.file ∈ (merge s prior renames).warnings := by
  rw [Merged.warnings, file_merge]
  exact List.mem_map_of_mem h

/-- What becomes of a zone of the earlier file: its body is carried over, or one of
the warnings on the new file says why it is not. -/
inductive Accounted (s : Skeleton) (renames : Renames) (zones : List (ZoneId × String))
    (warnings : List Warning) (zone : ZoneId × String) : Prop
  | carried {target : ZoneId} (htarget : target ∈ s.zoneIds)
      (h : carried? renames zones target = some zone)
  /-- The member is gone. -/
  | dropped (h : renames.resolve zone.1 = .dropped)
      (hwarning : (MergeIssue.dropped zone.1).toWarning s.file ∈ warnings)
  /-- The place is not in the new file. -/
  | orphaned {target : ZoneId} (h : (renames.resolve zone.1).target? = some target)
      (htarget : target ∉ s.zoneIds)
      (hwarning : (MergeIssue.orphaned target).toWarning s.file ∈ warnings)
  /-- Another zone belongs to the same place. -/
  | collided {target : ZoneId} (h : (renames.resolve zone.1).target? = some target)
      {other : ZoneId × String} (hother : other ∈ zones) (hne : other ≠ zone)
      (hsame : (renames.resolve other.1).target? = some target)
      (hwarning : (MergeIssue.collision target).toWarning s.file ∈ warnings)

def readerSkeleton : Skeleton :=
  (⟨"Motor.py", .hash, []⟩ : Skeleton).pushZone ⟨"attribute:B:read"⟩ "" ""

/-- The earlier file, with the readers of two attributes. -/
def earlierReaders : Skeleton :=
  ((⟨"Motor.py", .hash, []⟩ : Skeleton).pushZone ⟨"attribute:A:read"⟩ "" "a").pushZone
    ⟨"attribute:B:read"⟩ "" "b"

theorem entries_recoverZones_earlierReaders :
    (recoverZones readerSkeleton.style earlierReaders.renderDefault).zones.entries =
      [(⟨"attribute:A:read"⟩, "a\n"), (⟨"attribute:B:read"⟩, "b\n")] := by
  have hsegments : earlierReaders.segments =
      [.zone ⟨"attribute:A:read"⟩ "a\n" "", .zone ⟨"attribute:B:read"⟩ "b\n" ""] := by
    decide
  have hreadable : Skeleton.Readable earlierReaders.segments := by
    rw [hsegments]
    intro id body indent hmem
    simp only [List.mem_cons, Segment.zone.injEq, List.not_mem_nil, or_false] at hmem
    rcases hmem with ⟨rfl, rfl, rfl⟩ | ⟨rfl, rfl, rfl⟩
    · exact ⟨by decide, by decide, by simp [Text.AllBlank], by decide⟩
    · exact ⟨by decide, by decide, by simp [Text.AllBlank], by decide⟩
  have hbodies : Skeleton.PlainBodies .hash (fun _ => none)
      earlierReaders.segments := by
    rw [hsegments]
    intro id body indent hmem
    simp only [List.mem_cons, Segment.zone.injEq, List.not_mem_nil, or_false] at hmem
    rcases hmem with ⟨-, rfl, -⟩ | ⟨-, rfl, -⟩
    · exact (by decide : MarkerStyle.hash.Plain "a\n".toList)
    · exact (by decide : MarkerStyle.hash.Plain "b\n".toList)
  have hbuilt : earlierReaders.Built := .pushZone (.pushZone (.start _ _) _ _ _) _ _ _
  have hs : earlierReaders.Recoverable fun _ => none :=
    ⟨hbuilt.separated, hreadable, by decide, hbodies⟩
  have htexts : earlierReaders.PlainTexts := by simp [Skeleton.PlainTexts, hsegments]
  have hfilled : earlierReaders.filledZones (fun _ => none) =
      [(⟨"attribute:A:read"⟩, "a\n"), (⟨"attribute:B:read"⟩, "b\n")] := by
    rw [Skeleton.filledZones, hsegments]
    decide
  have hstyle : readerSkeleton.style = earlierReaders.style := rfl
  rw [hstyle, Skeleton.renderDefault, hs.entries_recoverZones_render htexts, hfilled]

end DeviceForge
