import DeviceForge.Proofs.Interface
import DeviceForge.Proofs.Source.Layout
import DeviceForge.Proofs.Zone.Id

/-!
# The zones of a file

A file of a class has zones for the class and zones for members that the class
declares itself.  They are all different, since a zone names its member and its
role.
-/

namespace DeviceForge

open Text

theorem MemberRole.tag_ne_empty (role : MemberRole) : role.tag ≠ "" := by
  cases role <;> decide

theorem slot?_ofMember {kind : MemberKind} {name : String}
    (hname : Name.isIdentifier name = true) (role : MemberRole) :
    (ZoneId.ofMember kind name role).slot? = some ⟨kind, name, role.tag⟩ :=
  ZoneId.slot?_ofSlot ⟨Name.ne_empty_of_isIdentifier hname,
    Name.notMem_of_isIdentifier hname (by decide), role.tag_ne_empty⟩

/-- An identifier and a role make an id that a marker can hold. -/
theorem readableId_ofMember {kind : MemberKind} {name : String}
    (hname : Name.isIdentifier name = true) (role : MemberRole) :
    Layout.ReadableId (ZoneId.ofMember kind name role) := by
  have hline : Lacks '\n' name := Name.notMem_of_isIdentifier hname (by decide)
  have hkind : Lacks '\n' kind.tag := by cases kind <;> decide
  have hrole : Lacks '\n' role.tag := by cases role <;> decide
  constructor
  · intro hempty
    have hchars := congrArg String.toList hempty
    simp [ZoneId.ofMember, ZoneId.toList_ofSlot] at hchars
  · simp only [ZoneId.ofMember, ZoneId.ofSlot, lacks_append]
    exact ⟨⟨⟨⟨hkind, by decide⟩, hline⟩, by decide⟩, hrole⟩

theorem readableId_ofClass (role : ClassRole) :
    Layout.ReadableId (ZoneId.ofClass role) := by
  cases role <;> exact ⟨by decide, by decide⟩

/-- The zones of a file are all different and can be read, and the members that
they belong to are members of the class itself. -/
structure OwnZones (body : ClassBody) (ids : List ZoneId) : Prop where
  nodup : ids.Nodup
  readable : ∀ id ∈ ids, Layout.ReadableId id
  own : ∀ id ∈ ids, ∀ slot, id.slot? = some slot → body.hasMember slot.key = true

def memberZones (members : List (MemberKey × List MemberRole)) : List ZoneId :=
  members.flatMap fun m => m.2.map (ZoneId.ofMember m.1.kind m.1.name)

/-- Different members have different zones, whatever their names are. -/
theorem nodup_memberZones {members : List (MemberKey × List MemberRole)}
    (hkeys : (members.map Prod.fst).Nodup) (hroles : ∀ m ∈ members, m.2.Nodup) :
    (memberZones members).Nodup := by
  rw [memberZones, List.nodup_flatMap]
  constructor
  · intro m hm
    exact (hroles m hm).map fun _ _ heq => (ZoneId.parts_of_ofMember_eq heq).2
  · rw [List.Nodup, List.pairwise_map] at hkeys
    refine hkeys.imp fun {m other} hne => ?_
    intro id hid hidOther
    obtain ⟨role, -, rfl⟩ := List.mem_map.mp hid
    obtain ⟨otherRole, -, heq⟩ := List.mem_map.mp hidOther
    exact hne (ZoneId.parts_of_ofMember_eq heq).1.symm

/-- Members under different names with roles that are all different. -/
structure OwnMembers (body : ClassBody) (members : List (MemberKey × List MemberRole)) :
    Prop where
  nodup_keys : (members.map Prod.fst).Nodup
  nodup_roles : ∀ m ∈ members, m.2.Nodup
  identifier : ∀ m ∈ members, Name.isIdentifier m.1.name = true
  own : ∀ m ∈ members, body.hasMember m.1 = true

variable {body : ClassBody} {members : List (MemberKey × List MemberRole)}

theorem ownMembers_nil : OwnMembers body [] := by
  constructor <;> simp

theorem mem_memberZones_iff {id : ZoneId} :
    id ∈ memberZones members ↔
      ∃ m ∈ members, ∃ role ∈ m.2, ZoneId.ofMember m.1.kind m.1.name role = id := by
  simp only [memberZones, List.mem_flatMap, List.mem_map]

theorem OwnMembers.slot?_of_mem (h : OwnMembers body members) {id : ZoneId}
    (hid : id ∈ memberZones members) :
    ∃ slot, id.slot? = some slot ∧ body.hasMember slot.key = true := by
  obtain ⟨m, hm, role, -, rfl⟩ := mem_memberZones_iff.mp hid
  exact ⟨_, slot?_ofMember (h.identifier m hm) role, h.own m hm⟩

/-- Members under different names, with different roles, have different zones. -/
theorem OwnMembers.ownZones_memberZones (h : OwnMembers body members) :
    OwnZones body (memberZones members) := by
  constructor
  · exact nodup_memberZones h.nodup_keys h.nodup_roles
  · intro id hid
    obtain ⟨m, hm, role, -, rfl⟩ := mem_memberZones_iff.mp hid
    exact readableId_ofMember (h.identifier m hm) role
  · intro id hid slot hslot
    obtain ⟨other, hother, hown⟩ := h.slot?_of_mem hid
    rw [hslot, Option.some.injEq] at hother
    rw [hother]
    exact hown

/-- Zones of the class belong to no member. -/
theorem ownZones_map_ofClass {roles : List ClassRole} (hroles : roles.Nodup) :
    OwnZones body (roles.map ZoneId.ofClass) := by
  constructor
  · exact hroles.map ZoneId.ofClass_injective
  · intro id hid
    obtain ⟨role, -, rfl⟩ := List.mem_map.mp hid
    exact readableId_ofClass role
  · intro id hid slot hslot
    obtain ⟨role, -, rfl⟩ := List.mem_map.mp hid
    rw [ZoneId.slot?_ofClass] at hslot
    exact absurd hslot (by simp)

theorem OwnZones.append {ids others : List ZoneId} (h : OwnZones body ids)
    (hothers : OwnZones body others) (hdisjoint : ids.Disjoint others) :
    OwnZones body (ids ++ others) := by
  constructor
  · exact h.nodup.append hothers.nodup hdisjoint
  · exact List.forall_mem_append.mpr ⟨h.readable, hothers.readable⟩
  · exact List.forall_mem_append.mpr ⟨h.own, hothers.own⟩

theorem OwnZones.perm {ids others : List ZoneId} (h : OwnZones body ids)
    (hperm : ids.Perm others) : OwnZones body others := by
  constructor
  · exact hperm.nodup_iff.mp h.nodup
  · exact fun id hid => h.readable id (hperm.mem_iff.mpr hid)
  · exact fun id hid => h.own id (hperm.mem_iff.mpr hid)

/-- No zone of a member is one of the class. -/
theorem OwnMembers.disjoint_memberZones (h : OwnMembers body members)
    (roles : List ClassRole) :
    (roles.map ZoneId.ofClass).Disjoint (memberZones members) := by
  intro id hclass hid
  obtain ⟨role, -, rfl⟩ := List.mem_map.mp hclass
  obtain ⟨slot, hslot, -⟩ := h.slot?_of_mem hid
  rw [ZoneId.slot?_ofClass] at hslot
  exact absurd hslot (by simp)

theorem OwnMembers.ownZones (h : OwnMembers body members)
    {before after : List ClassRole} (hroles : (before ++ after).Nodup) :
    OwnZones body
      (before.map ZoneId.ofClass ++ memberZones members ++
        after.map ZoneId.ofClass) := by
  have hzones : OwnZones body
      ((before ++ after).map ZoneId.ofClass ++ memberZones members) :=
    (ownZones_map_ofClass hroles).append h.ownZones_memberZones
      (h.disjoint_memberZones _)
  apply hzones.perm
  rw [List.map_append, List.append_assoc, List.append_assoc]
  exact List.perm_append_comm.append_left _

def accessRoles (readable writable : Bool) : List MemberRole :=
  (if readable then [.read] else []) ++ if writable then [.write] else []

theorem nodup_accessRoles (readable writable : Bool) :
    (accessRoles readable writable).Nodup := by
  cases readable <;> cases writable <;> decide

/-- The members that the class declares itself, with the roles of their zones. -/
def localMembers (i : Interface) (ofAttribute : Attribute → List MemberRole)
    (ofPipe : Pipe → List MemberRole) (ofCommand : Command → List MemberRole) :
    List (MemberKey × List MemberRole) :=
  i.attributes.locals.map (fun a => (⟨.attribute, a.name⟩, ofAttribute a)) ++
    i.pipes.locals.map (fun p => (⟨.pipe, p.name⟩, ofPipe p)) ++
    i.commands.locals.map fun cmd => (⟨.command, cmd.name⟩, ofCommand cmd)

variable {i : Interface} {ofAttribute : Attribute → List MemberRole}
  {ofPipe : Pipe → List MemberRole} {ofCommand : Command → List MemberRole}

theorem memberZones_localMembers :
    memberZones (localMembers i ofAttribute ofPipe ofCommand) =
      (i.attributes.locals.flatMap fun a =>
        (ofAttribute a).map (.ofMember .attribute a.name)) ++
        (i.pipes.locals.flatMap fun p => (ofPipe p).map (.ofMember .pipe p.name)) ++
        i.commands.locals.flatMap fun cmd =>
          (ofCommand cmd).map (.ofMember .command cmd.name) := by
  simp [memberZones, localMembers, List.flatMap_map]

theorem map_fst_localMembers :
    (localMembers i ofAttribute ofPipe ofCommand).map Prod.fst =
      (i.attributes.locals.map Declaration.name).map (MemberKey.mk .attribute) ++
        (i.pipes.locals.map Declaration.name).map (MemberKey.mk .pipe) ++
        (i.commands.locals.map Declaration.name).map (MemberKey.mk .command) := by
  simp only [localMembers, List.map_append, List.map_map]
  rfl

theorem nodup_map_key {names : List String} (h : names.Nodup) (kind : MemberKind) :
    (names.map (MemberKey.mk kind)).Nodup :=
  h.map fun _ _ heq => (MemberKey.mk.inj heq).2

/-- Members of different kinds never meet, so it is enough that those of a kind are
different. -/
theorem nodup_keys_localMembers
    (hattributes : (i.attributes.locals.map Declaration.name).Nodup)
    (hpipes : (i.pipes.locals.map Declaration.name).Nodup)
    (hcommands : (i.commands.locals.map Declaration.name).Nodup) :
    ((localMembers i ofAttribute ofPipe ofCommand).map Prod.fst).Nodup := by
  rw [map_fst_localMembers, List.nodup_append, List.nodup_append]
  refine ⟨⟨nodup_map_key hattributes _, nodup_map_key hpipes _, ?_⟩,
    nodup_map_key hcommands _, ?_⟩
  · rintro key hkey other hother rfl
    obtain ⟨name, -, rfl⟩ := List.mem_map.mp hkey
    obtain ⟨otherName, -, heq⟩ := List.mem_map.mp hother
    exact absurd heq (by simp)
  · rintro key hkey other hother rfl
    obtain ⟨otherName, -, rfl⟩ := List.mem_map.mp hother
    simp only [List.mem_append, List.mem_map] at hkey
    rcases hkey with ⟨name, -, heq⟩ | ⟨name, -, heq⟩
    · exact absurd heq (by simp)
    · exact absurd heq (by simp)

/-- The members that the class declares itself have different names within their kinds.
-/
theorem ownMembers_localMembers (h : i.Named body)
    (hattribute : ∀ a, (ofAttribute a).Nodup) (hpipe : ∀ p, (ofPipe p).Nodup)
    (hcommand : ∀ cmd, (ofCommand cmd).Nodup) :
    OwnMembers body (localMembers i ofAttribute ofPipe ofCommand) := by
  have hmem : ∀ m ∈ localMembers i ofAttribute ofPipe ofCommand,
      m.2.Nodup ∧ Name.isIdentifier m.1.name = true ∧
      m.1.name ∈ body.names m.1.kind := by
    intro m hm
    simp only [localMembers, List.mem_append, List.mem_map] at hm
    rcases hm with (⟨a, ha, rfl⟩ | ⟨p, hp, rfl⟩) | ⟨cmd, hcmd, rfl⟩
    · exact ⟨hattribute a, stands_of_mem_locals h.attributes ha⟩
    · exact ⟨hpipe p, stands_of_mem_locals h.pipes hp⟩
    · exact ⟨hcommand cmd, stands_of_mem_locals h.commands hcmd⟩
  constructor
  · exact nodup_keys_localMembers (nodup_names_locals h.attributes)
      (nodup_names_locals h.pipes) (nodup_names_locals h.commands)
  · exact fun m hm => (hmem m hm).1
  · exact fun m hm => (hmem m hm).2.1
  · exact fun m hm => ClassBody.hasMember_iff.mpr (hmem m hm).2.2

end DeviceForge
