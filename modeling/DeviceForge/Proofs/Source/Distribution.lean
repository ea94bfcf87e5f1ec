import DeviceForge.Proofs.Interface.Insertion
import DeviceForge.Proofs.Source.MemberZones

/-!
# How zones are distributed over files

All files of a class together have every zone once, whatever the members are
called.  The one exception is the zone for additional methods of a C++ class:
the header has it for their prototypes, and the implementation for their bodies.
-/

namespace DeviceForge

open Text

/-- The roles of the zones for the class as a whole, over all files. -/
def Language.classRoles : Language → List ClassRole
  | .cpp => [.includes, .members, .additionalMethods, .deleteDevice, .initDevice,
      .alwaysExecutedHook, .additionalMethods]
  | .java => [.includes, .members, .initDevice, .deleteDevice, .alwaysExecutedHook,
      .additionalMethods]
  | .python => [.includes, .members, .deleteDevice, .initDevice, .alwaysExecutedHook,
      .additionalMethods]
  | .pythonHL => [.includes, .members, .initDevice, .alwaysExecutedHook, .deleteDevice,
      .additionalMethods]

/-- The zone that a language has in two files. -/
def Language.IsShared (language : Language) (id : ZoneId) : Prop :=
  language = .cpp ∧ id = .ofClass .additionalMethods

instance (language : Language) (id : ZoneId) : Decidable (language.IsShared id) :=
  inferInstanceAs (Decidable (_ ∧ _))

theorem Language.count_classRoles (language : Language) (role : ClassRole) :
    language.classRoles.count role =
      if language = .cpp ∧ role = .additionalMethods then 2 else 1 := by
  cases language <;> cases role <;> rfl

section Files

variable {c : SourceContext} {language : Language}

theorem count_zoneIds_file {l : Layout} {before after : List ClassRole}
    {zones : List ZoneId}
    (hl : Layout.zoneIds l = before.map ZoneId.ofClass ++ zones ++
      after.map ZoneId.ofClass) (name : String) (style : MarkerStyle) (id : ZoneId) :
    (c.file name style l).zoneIds.count id =
      ((before ++ after).map ZoneId.ofClass).count id + zones.count id := by
  rw [SourceContext.file, Layout.zoneIds_toSkeleton, hl, List.count_append,
    List.count_append, List.map_append, List.count_append]
  exact Nat.add_right_comm _ _ _

theorem count_zoneIds_header (file : String) (id : ZoneId) :
    (c.file file .block (Cpp.headerLayout c file)).zoneIds.count id =
      ([.includes, .members, .additionalMethods].map ZoneId.ofClass).count id :=
  count_zoneIds_file (Cpp.zoneIds_headerLayout file) file .block id

theorem count_zoneIds_implementation (file : String) (id : ZoneId) :
    (c.file file .block (Cpp.implementationLayout c file)).zoneIds.count id =
      ([.deleteDevice, .initDevice, .alwaysExecutedHook, .additionalMethods].map
        ZoneId.ofClass).count id +
          (zonesOf Member.accessRoles c.iface.localMembers).count id := by
  rw [count_zoneIds_file (Cpp.zoneIds_implementationLayout file),
    ← memberZones_localZones]
  rfl

theorem count_zoneIds_stateMachine (file : String) (id : ZoneId) :
    (c.file file .block (Cpp.stateMachineLayout c file)).zoneIds.count id =
      (zonesOf (fun _ => [.isAllowed]) c.iface.localMembers).count id := by
  rw [count_zoneIds_file (Cpp.zoneIds_stateMachineLayout file),
    ← memberZones_localZones]
  exact Nat.zero_add _

/-- An id is counted among those of the class and those of its members. -/
theorem count_zoneIds_skeletons_eq_add (id : ZoneId) :
    ((language.skeletons c).flatMap (·.zoneIds)).count id =
      (language.classRoles.map ZoneId.ofClass).count id +
        (zonesOf (c.iface.rolesOf language) c.iface.localMembers).count id := by
  cases language with
  | cpp =>
      have hroles : Language.cpp.classRoles =
          [.includes, .members, .additionalMethods] ++
          [.deleteDevice, .initDevice, .alwaysExecutedHook, .additionalMethods] := rfl
      have hmembers := (perm_zonesOf_cpp c.iface).count_eq id
      rw [List.count_append] at hmembers
      rw [Language.skeletons, Cpp.skeletons, List.flatMap_cons, List.flatMap_cons,
        List.flatMap_singleton, List.count_append, List.count_append,
        count_zoneIds_header, count_zoneIds_implementation, count_zoneIds_stateMachine,
        hroles, List.map_append, List.count_append, ← hmembers]
      omega
  | java =>
      have hzones := Java.zoneIds_layout (c := c) (c.name ++ ".java")
      rw [usedMembers_eq] at hzones
      rw [Language.skeletons, Java.skeletons, List.flatMap_singleton,
        count_zoneIds_file hzones, memberZones_localZones]
      rfl
  | python =>
      have hzones := Python.zoneIds_layout (c := c) (c.name ++ ".py")
      rw [guardedMembers_eq (Or.inl rfl)] at hzones
      rw [Language.skeletons, Python.skeletons, List.flatMap_singleton,
        count_zoneIds_file hzones, memberZones_localZones]
      rfl
  | pythonHL =>
      have hzones := PythonHL.zoneIds_layout (c := c) (c.name ++ ".py")
      rw [guardedMembers_eq (Or.inr rfl)] at hzones
      rw [Language.skeletons, PythonHL.skeletons, List.flatMap_singleton,
        count_zoneIds_file hzones, memberZones_localZones]
      rfl

/-- No member has a zone of the class, whatever it is called. -/
theorem ofClass_notMem_zonesOf (roles : Member → List MemberRole)
    (members : List Member) (role : ClassRole) :
    ZoneId.ofClass role ∉ zonesOf roles members := by
  intro h
  obtain ⟨m, -, hid⟩ := List.mem_flatMap.mp h
  obtain ⟨memberRole, -, heq⟩ := List.mem_map.mp hid
  exact ZoneId.ofClass_ne_ofMember role m.kind m.name memberRole heq.symm

theorem nodup_zonesOf_localMembers {i : Interface} {roles : Member → List MemberRole}
    (hkeys : ((localZones i roles).map Prod.fst).Nodup)
    (hroles : ∀ m, (roles m).Nodup) :
    (zonesOf roles i.localMembers).Nodup := by
  rw [← memberZones_localZones]
  refine nodup_memberZones hkeys fun m hm => ?_
  simp only [localZones, DeviceForge.localMembers, List.mem_append, List.mem_map] at hm
  rcases hm with (⟨a, -, rfl⟩ | ⟨p, -, rfl⟩) | ⟨cmd, -, rfl⟩ <;> exact hroles _

/-- Over all files a class has every zone of a class, and the zones of its own members.
-/
theorem mem_zoneIds_skeletons_iff {id : ZoneId} :
    id ∈ (language.skeletons c).flatMap (·.zoneIds) ↔
      (∃ role, id = .ofClass role) ∨
        id ∈ zonesOf (c.iface.rolesOf language) c.iface.localMembers := by
  have hroles : ∀ role, role ∈ language.classRoles := fun role => by
    cases language <;> cases role <;> decide
  rw [← List.count_pos_iff, count_zoneIds_skeletons_eq_add, Nat.add_pos_iff_pos_or_pos,
    List.count_pos_iff, List.count_pos_iff, List.mem_map]
  simp only [hroles, true_and, eq_comm]

/-- Every zone is in one file once, but for the shared one, which is in two. -/
theorem count_zoneIds_skeletons
    (hkeys : ((localZones c.iface (c.iface.rolesOf language)).map Prod.fst).Nodup)
    {id : ZoneId} (hid : id ∈ (language.skeletons c).flatMap (·.zoneIds)) :
    ((language.skeletons c).flatMap (·.zoneIds)).count id =
      if language.IsShared id then 2 else 1 := by
  rw [count_zoneIds_skeletons_eq_add]
  rcases mem_zoneIds_skeletons_iff.mp hid with ⟨role, rfl⟩ | hmember
  · rw [List.count_eq_zero.mpr (ofClass_notMem_zonesOf _ _ role), Nat.add_zero,
      List.count_map_of_injective _ _ ZoneId.ofClass_injective,
      Language.count_classRoles]
    simp only [Language.IsShared, ZoneId.ofClass_injective.eq_iff]
  · have hclass : ∀ role, id ≠ .ofClass role := by
      rintro role rfl
      exact ofClass_notMem_zonesOf _ _ role hmember
    have hnone : (language.classRoles.map ZoneId.ofClass).count id = 0 := by
      rw [List.count_eq_zero, List.mem_map]
      rintro ⟨role, -, heq⟩
      exact hclass role heq.symm
    rw [hnone, if_neg fun hshared => hclass _ hshared.2, Nat.zero_add]
    exact List.count_eq_one_of_mem
      (nodup_zonesOf_localMembers hkeys fun _ => Member.nodup_roles ..) hmember

/-- No zone of a file has an empty id. -/
theorem text_ne_empty_of_mem_zoneIds {s : Skeleton} (hs : s ∈ language.skeletons c)
    {id : ZoneId} (hid : id ∈ s.zoneIds) : id.text ≠ "" := by
  rcases mem_zoneIds_skeletons_iff.mp (List.mem_flatMap.mpr ⟨s, hs, hid⟩) with
    ⟨role, rfl⟩ | hmember
  · exact (readableId_ofClass role).1
  · obtain ⟨m, -, hmember⟩ := List.mem_flatMap.mp hmember
    obtain ⟨role, -, rfl⟩ := List.mem_map.mp hmember
    intro hempty
    have hchars := congrArg String.toList hempty
    simp [ZoneId.toList_ofMember] at hchars

end Files

/-- The members of a resolved class go by different names, whatever they are called. -/
theorem DeviceClass.nodup_keys_localZones {cls : DeviceClass} {i : Interface}
    {issues : List InterfaceIssue} (hresolve : cls.resolve = .ok (i, issues))
    (roles : Member → List MemberRole) : ((localZones i roles).map Prod.fst).Nodup := by
  obtain ⟨-, -, rfl, -⟩ := resolve_eq_ok_iff.mp hresolve
  apply nodup_keys_localMembers
  · exact nodup_names_locals_of_name_eq fun _ => name_of_mem_effectiveMembers
  · exact nodup_names_locals_of_name_eq fun _ => name_of_mem_effectiveMembers
  · exact nodup_names_locals_of_name_eq fun _ => name_of_mem_effectiveMembers

/-- The zones of an id over all files: the file that each stands in, and the body that
it is rendered with. -/
def zonesHolding (files : List Skeleton) (content : ZoneId → Option String)
    (id : ZoneId) : List (String × String) :=
  files.flatMap fun s =>
    ((s.filledZones content).filter fun zone => zone.1 = id).map fun zone =>
      (s.file, zone.2)

variable {files : List Skeleton} {content : ZoneId → Option String} {id : ZoneId}
    {body : String}

/-- A zone that takes its body from outside holds that body, as often as a file has it.
-/
theorem zonesHolding_eq (hbody : content id = some body)
    (hcomplete : Complete body.toList) :
    zonesHolding files content id =
      files.flatMap fun s => List.replicate (s.zoneIds.count id) (s.file, body) := by
  refine List.flatMap_congr fun s _ => List.eq_replicate_iff.mpr ⟨?_, ?_⟩
  · rw [List.length_map, ← List.countP_eq_length_filter,
      ← Skeleton.map_fst_filledZones s content, List.count_eq_countP, List.countP_map]
    rfl
  · intro zone hzone
    obtain ⟨filled, hfilled, rfl⟩ := List.mem_map.mp hzone
    obtain ⟨hfilled, hid⟩ := List.mem_filter.mp hfilled
    obtain ⟨segment, -, hsegment⟩ := List.mem_filterMap.mp hfilled
    cases segment with
    | text t => simp at hsegment
    | zone other default indent =>
        rw [Option.some.injEq] at hsegment
        subst hsegment
        obtain rfl : other = id := by simpa using hid
        rw [hbody, Option.getD_some, endLine_of_complete hcomplete]

/-- A zone that all files have between them once holds its body in one of them. -/
theorem exists_zonesHolding_eq_singleton (hbody : content id = some body)
    (hcomplete : Complete body.toList)
    (hcount : (files.flatMap (·.zoneIds)).count id = 1) :
    ∃ s ∈ files, zonesHolding files content id = [(s.file, body)] := by
  have hholding : zonesHolding files content id =
      files.flatMap fun s => List.replicate (s.zoneIds.count id) (s.file, body) :=
    zonesHolding_eq hbody hcomplete
  have hlength : (zonesHolding files content id).length = 1 := by
    rw [hholding, List.length_flatMap, ← hcount, List.count_flatMap]
    simp only [List.length_replicate, Function.comp_def]
  obtain ⟨zone, hzone⟩ := List.length_eq_one_iff.mp hlength
  have hmem : zone ∈ zonesHolding files content id := hzone ▸ List.mem_cons_self
  rw [hholding] at hmem
  obtain ⟨s, hs, hmem⟩ := List.mem_flatMap.mp hmem
  exact ⟨s, hs, by rw [hzone, List.eq_of_mem_replicate hmem]⟩

/-- The header and the implementation of a C++ class share a zone. -/
theorem zonesHolding_additionalMethods (c : SourceContext)
    (hbody : content (.ofClass .additionalMethods) = some body)
    (hcomplete : Complete body.toList) :
    zonesHolding (Cpp.skeletons c) content (.ofClass .additionalMethods) =
      [(c.name ++ ".h", body), (c.name ++ ".cpp", body)] := by
  have hmembers : ∀ roles, (zonesOf roles c.iface.localMembers).count
      (.ofClass .additionalMethods) = 0 := fun roles =>
    List.count_eq_zero.mpr (ofClass_notMem_zonesOf roles _ _)
  rw [zonesHolding_eq hbody hcomplete, Cpp.skeletons, List.flatMap_cons,
    List.flatMap_cons, List.flatMap_singleton, count_zoneIds_header,
    count_zoneIds_implementation, count_zoneIds_stateMachine, hmembers, hmembers]
  rfl

end DeviceForge
