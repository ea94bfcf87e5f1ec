import DeviceForge.Proofs.Legacy.Upgrade
import DeviceForge.Proofs.Reinsertion
import DeviceForge.Proofs.Source.Support

/-!
# Generating what an upgrade makes

A generation resolves a class and checks that its language can express it.  An
upgraded class is always resolved, and its types fit, since an upgrade replaces
those that do not.  It takes over formats, labels and dimensions as they are
recorded, so these are all that can keep an upgraded class from being generated.
-/

namespace DeviceForge

/-- Without ancestors, the members in effect are those of the class. -/
theorem KindView.exists_mem_values_effective_iff {α : Type} [Declaration α]
    {kind : MemberKind} (view : KindView α kind) {cls : DeviceClass}
    (hroot : cls.ancestors = []) (hunique : cls.UniqueNames) {member : α} :
    (∃ r ∈ (view.effective cls).values, r.member = member) ↔
      member ∈ view.members cls.toClassBody := by
  have hlevels : ∀ level ∈ cls.levels, level.UniqueNames := by
    simpa [DeviceClass.levels, hroot] using hunique
  have hlocal : ∀ r ∈ (view.effective cls).values, r.isLocal = true := by
    intro r hr
    obtain ⟨e, he, rfl⟩ := List.mem_map.mp hr
    rw [effective, hroot] at he
    rcases mem_entries_declareAll he with he | ⟨-, -, -, -, -, hinherited⟩
    · exact absurd he List.not_mem_nil
    · simp [Resolved.isLocal, hinherited]
  rw [← mem_locals_effectiveMembers_iff fun _ => view.nodup_of_levels hlevels,
    MemberMap.locals, List.mem_map, ← effective, List.filter_eq_self.mpr hlocal]

namespace DeviceClass

variable {cls : DeviceClass} {i : Interface} {issues : List InterfaceIssue}

theorem obstacle?_eq_none_iff_of_wellFormed (h : cls.toClassBody.WellFormed)
    {a : Attribute} (ha : a ∈ cls.attributes) :
    a.obstacle? cls.language = none ↔ a.Expressible cls.language := by
  have hfits : a.dataType.isAttributeType = true :=
    h.fits .attribute (.attribute a) (List.mem_map_of_mem ha)
  rw [Attribute.obstacle?_eq_none_iff, and_iff_right hfits]

section Root

variable (hroot : cls.ancestors = []) (h : cls.toClassBody.WellFormed)
  (hresolve : cls.resolve = .ok (i, issues))

include hroot h hresolve

theorem exists_mem_attributes_iff_of_root {a : Attribute} :
    (∃ r ∈ i.attributes.values, r.member = a) ↔ a ∈ cls.attributes := by
  obtain ⟨-, -, rfl, -⟩ := resolve_eq_ok_iff.mp hresolve
  exact KindView.attributes.exists_mem_values_effective_iff hroot h.named.unique

/-- A property is expressed if its type fits, and it does. -/
theorem obstacle?_of_mem_properties {p : MemberKind × Resolved Property}
    (hp : p ∈ i.properties) : p.2.member.obstacle? = none := by
  obtain ⟨-, -, rfl, -⟩ := resolve_eq_ok_iff.mp hresolve
  rw [Property.obstacle?, if_pos]
  rcases List.mem_append.mp hp with hp | hp <;>
    obtain ⟨r, hr, rfl⟩ := List.mem_map.mp hp
  · have hmem := (KindView.classProperties.exists_mem_values_effective_iff hroot
      h.named.unique).mp ⟨r, hr, rfl⟩
    exact h.fits .classProperty (.classProperty r.member) (List.mem_map_of_mem hmem)
  · have hmem := (KindView.deviceProperties.exists_mem_values_effective_iff hroot
      h.named.unique).mp ⟨r, hr, rfl⟩
    exact h.fits .deviceProperty (.deviceProperty r.member) (List.mem_map_of_mem hmem)

/-- A language can express a class without ancestors exactly if it can express its
attributes. -/
theorem unsupported?_eq_none_iff_of_root :
    i.unsupported? cls.language = none ↔
      ∀ a ∈ cls.attributes, a.Expressible cls.language := by
  have hproperties : ∀ p ∈ i.properties, p.2.member.obstacle? = none := fun _ =>
    obstacle?_of_mem_properties hroot h hresolve
  rw [Interface.unsupported?_eq_none_iff, and_iff_left hproperties]
  constructor
  · intro hnone a ha
    obtain ⟨r, hr, rfl⟩ := (exists_mem_attributes_iff_of_root hroot h hresolve).mpr ha
    exact (obstacle?_eq_none_iff_of_wellFormed h ha).mp (hnone r hr)
  · intro hall r hr
    have ha := (exists_mem_attributes_iff_of_root hroot h hresolve).mp ⟨r, hr, rfl⟩
    exact (obstacle?_eq_none_iff_of_wellFormed h ha).mpr (hall _ ha)

end Root

end DeviceClass

namespace Legacy

/-- An upgraded class is generated, with the recovered bodies and without earlier files,
if its language can express the labels, formats and dimensions of its attributes.
Otherwise an attribute that it cannot express is the error; nothing else is. -/
theorem generateWithFragments_upgrade_iff {desc : LegacyDescription}
    {settings : Settings} {conv : Conversion} (h : upgrade desc settings = .ok conv)
    (target : Settings) :
    ((∃ out,
        generateWithFragments target conv.cls conv.fragments .none {} = .ok (out, {})) ↔
      ∀ a ∈ conv.cls.attributes, a.Expressible conv.cls.language) ∧
    ∀ error,
      generateWithFragments target conv.cls conv.fragments .none {} = .error error →
      ∃ a ∈ conv.cls.attributes, ¬ a.Expressible conv.cls.language ∧
        ∃ obstacle, a.obstacle? conv.cls.language = some obstacle ∧
          error = .unsupported ⟨conv.cls.language, ⟨.attribute, a.name⟩, obstacle⟩ := by
  obtain ⟨hbody, hroot, -⟩ := wellFormed_of_upgrade h
  obtain ⟨i, hresolve⟩ := conv.cls.exists_resolve_of_wellFormed hroot hbody
  have hiff := DeviceClass.unsupported?_eq_none_iff_of_root hroot hbody hresolve
  have hskeletons := skeletons_of_resolve hresolve target
  cases hmember : i.unsupported? conv.cls.language with
  | none =>
      rw [hmember] at hskeletons
      obtain ⟨out, hout, -⟩ := exists_generateWithFragments hskeletons conv.fragments {}
      refine ⟨⟨fun _ => hiff.mp hmember, fun _ => ⟨out, hout⟩⟩, fun error herror => ?_⟩
      exact absurd (hout.symm.trans herror) (by simp)
  | some member =>
      have hfails : generateWithFragments target conv.cls conv.fragments .none {} =
          .error (.unsupported member) := by
        rw [generateWithFragments, hskeletons, hmember]
        rfl
      have hproperties : ∀ p ∈ i.properties, p.2.member.obstacle? = none := fun _ =>
        DeviceClass.obstacle?_of_mem_properties hroot hbody hresolve
      obtain ⟨r, hr, obstacle, hobstacle, rfl⟩ :=
        i.exists_of_unsupported? hproperties hmember
      have ha :=
        (DeviceClass.exists_mem_attributes_iff_of_root hroot hbody hresolve).mp
          ⟨r, hr, rfl⟩
      have hinexpressible : ¬ r.member.Expressible conv.cls.language := by
        rw [← DeviceClass.obstacle?_eq_none_iff_of_wellFormed hbody ha, hobstacle]
        simp
      refine ⟨⟨?_, fun hall => absurd (hall _ ha) hinexpressible⟩,
        fun error herror => ?_⟩
      · rintro ⟨out, hout⟩
        exact absurd (hout.symm.trans hfails) (by simp)
      · rw [hfails] at herror
        obtain rfl := Except.error.inj herror
        exact ⟨r.member, ha, hinexpressible, obstacle, hobstacle, rfl⟩

def modalMotor : LegacyDescription where
  record := [
    ("class_name", .text "Motor"),
    ("attributes", .list
      [.record [("name", .text "Modes"), ("data_type", .text "DevEnum"),
      ("format", .text "SPECTRUM"), ("max_x", .text "8"),
      ("enum_labels", .list [.text "SLOW", .text "FAST"])]])]

def modesOfMotor : Attribute where
  name := "Modes"
  dataType := .enum
  format := .spectrum
  maxX := 8
  enumLabels := ["SLOW", "FAST"]

theorem generateWithFragments_upgrade_iff_modalMotor :
    ∃ conv out, upgrade modalMotor {} = .ok conv ∧ conv.cls.language = .cpp ∧
      conv.cls.attributes = [modesOfMotor] ∧
      generateWithFragments {} conv.cls conv.fragments .none {} = .ok (out, {}) := by
  obtain ⟨conv, h⟩ : ∃ conv, upgrade modalMotor {} = .ok conv := ⟨_, rfl⟩
  obtain ⟨hlanguage, hattributes⟩ :
      conv.cls.language = .cpp ∧ conv.cls.attributes = [modesOfMotor] := by
    obtain rfl := Except.ok.inj h
    exact ⟨rfl, rfl⟩
  have hexpressible : ∀ a ∈ conv.cls.attributes, a.Expressible conv.cls.language := by
    rw [hattributes, hlanguage, List.forall_mem_singleton]
    exact ⟨by decide, by decide, by decide, by decide⟩
  obtain ⟨out, hout⟩ := (generateWithFragments_upgrade_iff h {}).1.mpr hexpressible
  exact ⟨conv, out, h, hlanguage, hattributes, hout⟩

/-- A record with an enumerated attribute that names no values. -/
def unlabelledMotor : LegacyDescription where
  record := [
    ("class_name", .text "Motor"),
    ("attributes", .list
      [.record [("name", .text "Mode"), ("data_type", .text "DevEnum")]])]

/-- The enumeration without labels is taken over, and keeps the class from being
generated. -/
theorem not_forall_generateWithFragments_upgrade :
    ¬ ∀ desc settings conv, upgrade desc settings = .ok conv →
      ∃ out, generateWithFragments settings conv.cls conv.fragments .none {} =
        .ok (out, {}) := by
  intro hall
  obtain ⟨conv, h⟩ : ∃ conv, upgrade unlabelledMotor {} = .ok conv := ⟨_, rfl⟩
  obtain ⟨out, hout⟩ := hall unlabelledMotor {} conv h
  have hfails : generateWithFragments {} conv.cls conv.fragments .none {} =
      .error (.unsupported ⟨.cpp, ⟨.attribute, "Mode"⟩, .noLabels⟩) := by
    obtain rfl := Except.ok.inj h
    rfl
  exact absurd (hout.symm.trans hfails) (by simp)

end Legacy

end DeviceForge
