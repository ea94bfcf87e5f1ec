import DeviceForge.Proofs.Device.Reachable
import DeviceForge.Proofs.Generation

/-!
# The zones of members

All files of a class together have the zones that its own members ask for, each
of them once: a member asks for its access, for its execution, and, depending on
the language, for a decision about states.  Overrides are members of the class
itself, and what is inherited asks for nothing.
-/

namespace DeviceForge

open Text

/-- The roles of the zones in which a member is read, written or executed. -/
def Member.accessRoles : Member → List MemberRole
  | .attribute a => DeviceForge.accessRoles a.access.isReadable a.access.isWritable
  | .pipe p => DeviceForge.accessRoles true p.writable
  | .command _ => [.execute]
  | .classProperty _ | .deviceProperty _ => []

/-- The role of the zone that decides about states: C++ has one for every member, Java
none, and Python one for every member that is denied in some state. -/
def Language.stateRoles : Language → Bool → List MemberRole
  | .cpp, _ => [.isAllowed]
  | .java, _ => []
  | .python, denied | .pythonHL, denied => if denied then [.isAllowed] else []

/-- The roles of all zones of a member. Properties have no zones. -/
def Member.roles (language : Language) (denied : Bool) : Member → List MemberRole
  | .classProperty _ | .deviceProperty _ => []
  | m => m.accessRoles ++ language.stateRoles denied

def Interface.isDenied (i : Interface) (key : MemberKey) : Bool :=
  !(i.deniedStates key).isEmpty

/-- The roles of the zones of a member of an interface. -/
def Interface.rolesOf (i : Interface) (language : Language) (m : Member) :
    List MemberRole :=
  m.roles language (i.isDenied m.key)

def zonesOf (roles : Member → List MemberRole) (members : List Member) : List ZoneId :=
  members.flatMap fun m => (roles m).map (.ofMember m.kind m.name)

/-- The members that the body declares, kind by kind. -/
def ClassBody.allDeclared (body : ClassBody) : List Member :=
  MemberKind.all.flatMap body.declared

def memberIds (files : List Skeleton) : List ZoneId :=
  (files.flatMap (·.zoneIds)).filter fun id => id.slot?.isSome

theorem Language.stateRoles_cases (language : Language) (denied : Bool) :
    language.stateRoles denied = [] ∨ language.stateRoles denied = [.isAllowed] := by
  cases language <;> cases denied <;> simp [stateRoles]

namespace Member

theorem nodup_concat_accessRoles (m : Member) :
    (m.accessRoles ++ [MemberRole.isAllowed]).Nodup := by
  have haccess : ∀ readable writable,
      (DeviceForge.accessRoles readable writable ++ [MemberRole.isAllowed]).Nodup := by
    decide
  have hexecute : [MemberRole.execute, .isAllowed].Nodup := by decide
  rcases m with a | cmd | p | p | p
  · exact haccess _ _
  · exact hexecute
  · exact List.nodup_singleton _
  · exact List.nodup_singleton _
  · exact haccess _ _

theorem nodup_accessRoles (m : Member) : m.accessRoles.Nodup :=
  m.nodup_concat_accessRoles.sublist (List.sublist_append_left ..)

/-- No language gives a member two zones of one role. -/
theorem nodup_roles (language : Language) (denied : Bool) (m : Member) :
    (m.roles language denied).Nodup := by
  rw [roles.eq_def]
  split
  · exact List.nodup_nil
  · exact List.nodup_nil
  · rcases language.stateRoles_cases denied with hstate | hstate <;> rw [hstate]
    · rw [List.append_nil]
      exact m.nodup_accessRoles
    · exact m.nodup_concat_accessRoles

end Member

/-! ## The zones in the files of a class -/

section Files

variable {c : SourceContext} {language : Language}

/-- The members with zones that the class declares itself. -/
def Interface.localMembers (i : Interface) : List Member :=
  i.attributes.locals.map .attribute ++ i.pipes.locals.map .pipe ++
    i.commands.locals.map .command

/-- The members of the class itself, with roles for each of them. -/
def localZones (i : Interface) (roles : Member → List MemberRole) :
    List (MemberKey × List MemberRole) :=
  localMembers i (fun a => roles (.attribute a)) (fun p => roles (.pipe p))
    fun cmd => roles (.command cmd)

theorem memberZones_localZones (i : Interface) (roles : Member → List MemberRole) :
    memberZones (localZones i roles) = zonesOf roles i.localMembers := by
  rw [localZones, memberZones_localMembers, zonesOf, Interface.localMembers,
    List.flatMap_append, List.flatMap_append, List.flatMap_map, List.flatMap_map,
    List.flatMap_map]
  rfl

theorem ownMembers_localZones (h : c.iface.Named c.body)
    {roles : Member → List MemberRole} (hroles : ∀ m, (roles m).Nodup) :
    OwnMembers c.body (localZones c.iface roles) :=
  ownMembers_localMembers h (fun _ => hroles _) (fun _ => hroles _) fun _ => hroles _

theorem ownMembers_rolesOf (h : c.iface.Named c.body) (language : Language) :
    OwnMembers c.body (localZones c.iface (c.iface.rolesOf language)) :=
  ownMembers_localZones h fun _ => Member.nodup_roles ..

/-- The ids of the class around those of the members are no member-level ids. -/
theorem filter_zoneIds_file {members : List (MemberKey × List MemberRole)}
    (h : OwnMembers c.body members) {l : Layout} {before after : List ClassRole}
    (hl : Layout.zoneIds l =
      before.map ZoneId.ofClass ++ memberZones members ++ after.map ZoneId.ofClass)
    (name : String) (style : MarkerStyle) :
    (c.file name style l).zoneIds.filter (fun id => id.slot?.isSome) =
      memberZones members := by
  have hclass : ∀ roles : List ClassRole,
      (roles.map ZoneId.ofClass).filter (fun id => id.slot?.isSome) = [] := by
    intro roles
    rw [List.filter_eq_nil_iff, List.forall_mem_map]
    intro role _
    simp [ZoneId.slot?_ofClass]
  have hmember : (memberZones members).filter (fun id => id.slot?.isSome) =
      memberZones members := by
    rw [List.filter_eq_self]
    intro id hid
    obtain ⟨slot, hslot, -⟩ := h.slot?_of_mem hid
    rw [hslot, Option.isSome_some]
  rw [SourceContext.file, Layout.zoneIds_toSkeleton, hl, List.filter_append,
    List.filter_append, hclass, hclass, hmember, List.nil_append, List.append_nil]

theorem guardRoles_eq (c : SourceContext) (key : MemberKey) :
    guardRoles c key = if c.iface.isDenied key then [.isAllowed] else [] := by
  rw [guardRoles, Interface.isDenied]
  cases c.iface.deniedStates key <;> rfl

theorem guardedMembers_eq (hlanguage : language = .python ∨ language = .pythonHL) :
    guardedMembers c = localZones c.iface (c.iface.rolesOf language) := by
  simp only [guardedMembers, guardRoles_eq]
  rcases hlanguage with rfl | rfl <;> rfl

theorem usedMembers_eq (i : Interface) :
    localMembers i (fun a => accessRoles a.access.isReadable a.access.isWritable)
        (fun p => accessRoles true p.writable) (fun _ => [.execute]) =
      localZones i (i.rolesOf .java) := by
  simp only [localZones, Interface.rolesOf, Member.roles, Member.accessRoles,
    Language.stateRoles, List.append_nil]

/-- The implementation and the state machine share the zones of each member. -/
theorem perm_zonesOf_cpp (i : Interface) :
    (zonesOf Member.accessRoles i.localMembers ++
        zonesOf (fun _ => [.isAllowed]) i.localMembers).Perm
      (zonesOf (i.rolesOf .cpp) i.localMembers) := by
  have hroles : zonesOf (i.rolesOf .cpp) i.localMembers =
      i.localMembers.flatMap fun m => m.accessRoles.map (.ofMember m.kind m.name) ++
        [.ofMember m.kind m.name .isAllowed] := by
    rw [zonesOf]
    refine List.flatMap_congr fun m hm => ?_
    rw [Interface.localMembers, List.mem_append, List.mem_append] at hm
    rcases hm with (hm | hm) | hm <;> obtain ⟨member, -, rfl⟩ := List.mem_map.mp hm <;>
      exact List.map_append
  rw [hroles]
  exact List.flatMap_append_perm ..

/-- All files of a class have the zones of its members between them, each of them once.
-/
theorem perm_memberIds_skeletons (h : c.iface.Named c.body) :
    (memberIds (language.skeletons c)).Perm
      (zonesOf (c.iface.rolesOf language) c.iface.localMembers) := by
  have hown := ownMembers_rolesOf h language
  have hsingle : ∀ {s : Skeleton},
      s.zoneIds.filter (fun id => id.slot?.isSome) =
        memberZones (localZones c.iface (c.iface.rolesOf language)) →
      (memberIds [s]).Perm
        (zonesOf (c.iface.rolesOf language) c.iface.localMembers) := by
    intro s hs
    rw [memberIds, List.flatMap_singleton, hs, memberZones_localZones]
  cases language with
  | cpp =>
      have hstates := ownMembers_localZones h fun _ =>
        List.nodup_singleton MemberRole.isAllowed
      refine (List.Perm.of_eq ?_).trans (perm_zonesOf_cpp c.iface)
      rw [← memberZones_localZones, ← memberZones_localZones]
      simp only [memberIds, Language.skeletons, Cpp.skeletons, List.flatMap_cons,
        List.flatMap_nil, List.append_nil, List.filter_append]
      rw [filter_zoneIds_file ownMembers_nil (Cpp.zoneIds_headerLayout _),
        filter_zoneIds_file (ownMembers_localZones h Member.nodup_accessRoles)
          (Cpp.zoneIds_implementationLayout _),
        filter_zoneIds_file hstates (Cpp.zoneIds_stateMachineLayout _)]
      rfl
  | java =>
      have hzones := Java.zoneIds_layout (c := c) (c.name ++ ".java")
      rw [usedMembers_eq] at hzones
      exact hsingle (filter_zoneIds_file hown hzones _ _)
  | python =>
      have hzones := Python.zoneIds_layout (c := c) (c.name ++ ".py")
      rw [guardedMembers_eq (Or.inl rfl)] at hzones
      exact hsingle (filter_zoneIds_file hown hzones _ _)
  | pythonHL =>
      have hzones := PythonHL.zoneIds_layout (c := c) (c.name ++ ".py")
      rw [guardedMembers_eq (Or.inr rfl)] at hzones
      exact hsingle (filter_zoneIds_file hown hzones _ _)

theorem nodup_memberIds_skeletons (h : c.iface.Named c.body) :
    (memberIds (language.skeletons c)).Nodup := by
  rw [(perm_memberIds_skeletons h).nodup_iff, ← memberZones_localZones]
  have hown := ownMembers_rolesOf h language
  exact nodup_memberZones hown.nodup_keys hown.nodup_roles

end Files

section Classes

variable {cls : DeviceClass} {i : Interface} {issues : List InterfaceIssue}

theorem zonesOf_append (roles : Member → List MemberRole) (front back : List Member) :
    zonesOf roles (front ++ back) = zonesOf roles front ++ zonesOf roles back :=
  List.flatMap_append

theorem zonesOf_of_nil {roles : Member → List MemberRole} {members : List Member}
    (h : ∀ m ∈ members, roles m = []) : zonesOf roles members = [] := by
  refine List.flatMap_eq_nil_iff.mpr fun m hm => ?_
  rw [h m hm, List.map_nil]

/-- What a class declares is all in effect, so its members are the local ones of its
interface. -/
theorem perm_localMembers (hresolve : cls.resolve = .ok (i, issues))
    (hnamed : i.Named cls.toClassBody) :
    i.localMembers.Perm
      (cls.declared .attribute ++ cls.declared .pipe ++ cls.declared .command) := by
  obtain ⟨-, hlevels, rfl, -⟩ := DeviceClass.resolve_eq_ok_iff.mp hresolve
  have hattributes := KindView.attributes.perm_locals hlevels
    (nodup_names_locals hnamed.attributes)
  have hpipes := KindView.pipes.perm_locals hlevels (nodup_names_locals hnamed.pipes)
  have hcommands :=
    KindView.commands.perm_locals hlevels (nodup_names_locals hnamed.commands)
  exact ((hattributes.map _).append (hpipes.map _)).append (hcommands.map _)

/-- The zones of the local members are those of the declared ones, in another order. -/
theorem perm_zonesOf_localMembers (hresolve : cls.resolve = .ok (i, issues))
    (hnamed : i.Named cls.toClassBody) (language : Language) :
    (zonesOf (i.rolesOf language) i.localMembers).Perm
      (zonesOf (i.rolesOf language) cls.allDeclared) := by
  have hclass : zonesOf (i.rolesOf language) (cls.declared .classProperty) = [] := by
    refine zonesOf_of_nil fun m hm => ?_
    obtain ⟨p, -, rfl⟩ := List.mem_map.mp hm
    rfl
  have hdevice : zonesOf (i.rolesOf language) (cls.declared .deviceProperty) = [] := by
    refine zonesOf_of_nil fun m hm => ?_
    obtain ⟨p, -, rfl⟩ := List.mem_map.mp hm
    rfl
  have hdeclared : zonesOf (i.rolesOf language) cls.allDeclared =
      zonesOf (i.rolesOf language)
        (cls.declared .command ++ (cls.declared .attribute ++ cls.declared .pipe)) := by
    simp only [ClassBody.allDeclared, MemberKind.all, List.flatMap_cons,
      List.flatMap_nil, List.append_nil, zonesOf_append, hclass, hdevice,
      List.nil_append]
  rw [hdeclared]
  exact ((perm_localMembers hresolve hnamed).trans List.perm_append_comm).flatMap_right
    _

/-- The ids of the zones in the files of a class are exact: in each file they are all
different and fit on a line, and those of members are, each once, the ones that the
members declared by the class itself have in the language. -/
theorem exact_zoneIds (h : cls.Checked) (hresolve : cls.resolve = .ok (i, issues))
    {language : Language} {settings : Settings} {files : List Skeleton}
    (hemit : emit language ⟨i, cls.toClassBody, settings⟩ = .ok files) :
    (∀ s ∈ files, s.zoneIds.Nodup ∧ ∀ id ∈ s.zoneIds, '\n' ∉ id.text.toList) ∧
      (memberIds files).Nodup ∧
      (memberIds files).Perm (zonesOf (i.rolesOf language) cls.allDeclared) := by
  obtain ⟨hnamed, -⟩ := h.named.resolve hresolve
  obtain rfl := eq_of_emit hemit
  refine ⟨fun s hs => ?_, nodup_memberIds_skeletons hnamed,
    (perm_memberIds_skeletons hnamed).trans
      (perm_zonesOf_localMembers hresolve hnamed language)⟩
  have hzones := (Language.ownFile_of_mem_skeletons hnamed hs).zones
  exact ⟨hzones.nodup, fun id hid => (hzones.readable id hid).2⟩

def haltingMotor : DeviceClass where
  name := "Motor"
  language := .java
  attributes := [{ name := "Position", access := .readWrite }]
  commands := [{ name := "Halt", isOverride := true }]
  machine := { states := [{ name := "ON" }] }
  ancestors := [DeviceClass.haltingAxis]

theorem checked_haltingMotor : haltingMotor.Checked := by
  have hstart : DeviceClass.ofText "motor" .java =
      .ok { name := "Motor", language := .java } := rfl
  have hedits : DeviceClass.applyAll { name := "Motor", language := .java }
      [.inheritFrom DeviceClass.haltingAxis,
        .members (.add (.attribute { name := "Position", access := .readWrite })),
        .members (.add (.command { name := "Halt", isOverride := true })),
        .addState { name := "ON" }] = .ok haltingMotor := rfl
  exact ((DeviceClass.Reachable.ofText hstart).applyAll
    (by simpa [ClassEdit.attached?] using DeviceClass.reachable_haltingAxis)
      hedits).checked

theorem exact_zoneIds_haltingMotor :
    haltingMotor.Checked ∧ ∃ i issues files, haltingMotor.resolve = .ok (i, issues) ∧
      emit .pythonHL ⟨i, haltingMotor.toClassBody, {}⟩ = .ok files ∧
      (∀ s ∈ files, s.zoneIds.Nodup ∧ ∀ id ∈ s.zoneIds, '\n' ∉ id.text.toList) ∧
      (memberIds files).Nodup ∧
      (memberIds files).Perm [.ofMember .command "Halt" .execute,
        .ofMember .command "Halt" .isAllowed, .ofMember .attribute "Position" .read,
        .ofMember .attribute "Position" .write] := by
  obtain ⟨i, issues, files, hresolve, hemit, hzones⟩ :
      ∃ i issues files, haltingMotor.resolve = .ok (i, issues) ∧
        emit .pythonHL ⟨i, haltingMotor.toClassBody, {}⟩ = .ok files ∧
        zonesOf (i.rolesOf .pythonHL) haltingMotor.allDeclared =
          [.ofMember .command "Halt" .execute, .ofMember .command "Halt" .isAllowed,
            .ofMember .attribute "Position" .read,
            .ofMember .attribute "Position" .write] :=
    ⟨_, _, _, rfl, rfl, rfl⟩
  refine ⟨checked_haltingMotor, i, issues, files, hresolve, hemit, ?_⟩
  rw [← hzones]
  exact exact_zoneIds checked_haltingMotor hresolve hemit

end Classes

end DeviceForge
