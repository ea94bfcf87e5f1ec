import DeviceForge.Proofs.Generation
import DeviceForge.Proofs.Interface.Insertion

/-!
# Zones of the other members

When a class gets another member, its files keep all other zones: their ids,
their default bodies, their depths and their order.  An emitter may write lines
anew wherever it likes, so the lines of both files are dropped first and, with
them, the zones of the new member.
-/

namespace DeviceForge

open Text

namespace ZoneId

def isOf (key : MemberKey) (id : ZoneId) : Bool :=
  MemberRole.all.any fun role => id = ofMember key.kind key.name role

theorem isOf_ofMember_iff {key : MemberKey} {kind : MemberKind} {name : String}
    {role : MemberRole} : (ofMember kind name role).isOf key = true ↔
      ⟨kind, name⟩ = key := by
  simp only [isOf, List.any_eq_true, decide_eq_true_eq]
  constructor
  · rintro ⟨other, -, h⟩
    exact key_of_ofMember_eq h
  · rintro rfl
    exact ⟨role, by cases role <;> decide, rfl⟩

theorem isOf_ofClass (key : MemberKey) (role : ClassRole) :
    (ofClass role).isOf key = false := by
  rw [isOf, List.any_eq_false]
  intro other _
  simpa using ofClass_ne_ofMember role key.kind key.name other

end ZoneId

/-! ## Zones without their lines -/

namespace Layout

/-- The zones of a layout that are none of the member. -/
def kept (key : MemberKey) (l : Layout) : Layout :=
  l.filter fun
    | .line _ _ => false
    | .zone _ id _ => !id.isOf key

variable {key : MemberKey}

@[simp]
theorem kept_nil : kept key [] = [] := rfl

@[simp]
theorem kept_append (front back : Layout) :
    kept key (front ++ back) = kept key front ++ kept key back :=
  List.filter_append ..

@[simp]
theorem kept_line (text : String) : kept key (line text) = [] := rfl

@[simp]
theorem kept_lines (texts : List String) : kept key (lines texts) = [] := by
  simp [kept, lines]

@[simp]
theorem kept_blank : kept key blank = [] := rfl

@[simp]
theorem kept_indented (l : Layout) : kept key (indented l) = indented (kept key l) := by
  rw [kept, indented, List.filter_map, indented, kept]
  congr 2
  funext piece
  cases piece <;> rfl

@[simp]
theorem kept_braced (l : Layout) : kept key (braced l) = indented (kept key l) := by
  simp [braced]

@[simp]
theorem indented_nil : indented [] = [] := rfl

@[simp]
theorem kept_stacked (parts : List Layout) :
    kept key (stacked parts) = stacked (parts.map (kept key)) :=
  List.filter_flatten

@[simp]
theorem kept_forEach {α : Type} (items : List α) (f : α → Layout) :
    kept key (forEach items f) = forEach items fun item => kept key (f item) := by
  simp [forEach, kept, List.filter_flatMap]

@[simp]
theorem kept_ite {p : Prop} [Decidable p] (l other : Layout) :
    kept key (if p then l else other) = if p then kept key l else kept key other := by
  split <;> rfl

theorem kept_of_isOf {l : Layout} (h : ∀ id ∈ zoneIds l, id.isOf key = true) :
    kept key l = [] := by
  rw [kept, List.filter_eq_nil_iff]
  intro piece hpiece
  cases piece with
  | line depth text => simp
  | zone depth id body => simp [h id (mem_zoneIds_of_mem hpiece)]

theorem kept_of_zoneIds_eq_nil {l : Layout} (h : zoneIds l = []) : kept key l = [] :=
  kept_of_isOf (by simp [h])

@[simp]
theorem forEach_empty {α : Type} (f : α → Layout) : forEach [] f = [] := rfl

@[simp]
theorem forEach_nil {α : Type} (items : List α) : forEach items (fun _ => []) = [] := by
  simp [forEach]

/-- A part is left out only if it has no items, so its zones are theirs. -/
theorem kept_unlessEmpty {α : Type} {items : List α} {l : Layout}
    (h : items = [] → kept key l = []) :
    kept key (unlessEmpty items l) = kept key l := by
  rw [unlessEmpty]
  split
  · next hempty => rw [h (List.isEmpty_iff.mp hempty), kept_nil]
  · rfl

end Layout

namespace Layout

/-- A loop over local members writes the zones of the others as it did before the new
member. -/
theorem kept_forEach_locals {α : Type} {key : MemberKey} {kind : MemberKind}
    {name : α → String} {items grown : List α}
    (hitems : (grown.filter fun a => ⟨kind, name a⟩ ≠ key) = items) {f g : α → Layout}
    (hids : ∀ a, ∃ roles : List MemberRole, zoneIds (g a) =
      roles.map (.ofMember kind (name a)))
    (hsame : ∀ a, kept key (g a) = kept key (f a)) :
    kept key (forEach grown g) = kept key (forEach items f) := by
  rw [kept_forEach, kept_forEach, ← hitems]
  simp only [← hsame, forEach]
  clear hitems
  -- the new member leaves nothing of its round, and every other member is in both loops
  induction grown with
  | nil => rfl
  | cons a rest ih =>
      rw [List.flatMap_cons, ih]
      by_cases ha : (⟨kind, name a⟩ : MemberKey) = key
      · have hnone : kept key (g a) = [] := by
          obtain ⟨roles, hroles⟩ := hids a
          refine kept_of_isOf fun id hid => ?_
          rw [hroles] at hid
          obtain ⟨role, -, rfl⟩ := List.mem_map.mp hid
          exact ZoneId.isOf_ofMember_iff.mpr ha
        rw [List.filter_cons_of_neg (by simpa using ha), hnone, List.nil_append]
      · rw [List.filter_cons_of_pos (by simpa using ha), List.flatMap_cons]

end Layout

section Emitters

open Layout
open Script (function docstring)

variable {c c' : SourceContext} {key : MemberKey}

@[simp]
theorem SourceContext.kept_classComment : kept key c.classComment = [] :=
  kept_of_zoneIds_eq_nil zoneIds_classComment

namespace Cpp

@[simp]
theorem kept_methodComment (name description : String) :
    kept key (methodComment name description) = [] :=
  kept_of_zoneIds_eq_nil (zoneIds_methodComment _ _)

@[simp]
theorem kept_methodHeading (name description : String) :
    kept key (methodHeading name description) = [] :=
  kept_of_zoneIds_eq_nil (zoneIds_methodHeading _ _)

@[simp]
theorem kept_method (signature : String) (body : Layout) :
    kept key (method signature body) = indented (kept key body) := by
  simp [method]

@[simp]
theorem kept_traceEntry (what : String) : kept key (traceEntry what) = [] := rfl

@[simp]
theorem kept_banner (lead file : String) : kept key (Banner.ofClass c lead file) = [] :=
  kept_of_zoneIds_eq_nil (Banner.zoneIds_ofClass lead file)

@[simp]
theorem kept_sectionHeading (title : String) : kept key (sectionHeading title) = [] :=
  kept_of_zoneIds_eq_nil (zoneIds_sectionHeading title)

theorem kept_headerLayout (file : String) :
    kept key (headerLayout c' file) = kept key (headerLayout c file) := by
  delta headerLayout classMembers
  simp [propertyFields, attributeFields,
    attributePrototypes, pipePrototypes, commandPrototypes, kept_unlessEmpty]

/-- The loops over members keep their other rounds, and all else has the same zones. -/
theorem kept_implementationLayout (h : c.iface.Adds key c'.iface) (file : String) :
    kept key (implementationLayout c' file) =
      kept key (implementationLayout c file) := by
  have hattributes := kept_forEach_locals h.attributes (f := attributeMethods c)
    (g := attributeMethods c') (fun a => ⟨_, zoneIds_attributeMethods a⟩) fun a => by
      simp [attributeMethods, readAttribute, writeAttribute]
  have hpipes := kept_forEach_locals h.pipes (f := pipeMethods c)
    (g := pipeMethods c') (fun p => ⟨_, zoneIds_pipeMethods p⟩) fun p => by
      simp [pipeMethods, readPipe, writePipe, pipeMethod]
  have hcommands := kept_forEach_locals h.commands (f := commandMethod c)
    (g := commandMethod c') (fun cmd => ⟨[.execute], zoneIds_commandMethod cmd⟩)
    fun cmd => by simp [commandMethod]
  delta implementationLayout
  simp only [kept_stacked, List.map_cons, List.map_nil, hattributes, hpipes, hcommands]
  simp [constructor, deleteDevice, initDevice, propertyReader, readProperty,
    alwaysExecutedHook, readHardware, kept_unlessEmpty]

theorem kept_isAllowed (h : c.iface.Adds key c'.iface) (member : MemberKey)
    (parameters : String) :
    kept key (isAllowed c' member parameters) =
      kept key (isAllowed c member parameters) := by
  simp only [isAllowed, kept_append, kept_methodComment, kept_method, h.denied]

/-- The same for the methods that decide about states. -/
theorem kept_stateMachineLayout (h : c.iface.Adds key c'.iface) (file : String) :
    kept key (stateMachineLayout c' file) = kept key (stateMachineLayout c file) := by
  have hallowed : ∀ (kind : MemberKind) (name parameters : String),
      ∃ roles : List MemberRole, zoneIds (isAllowed c' ⟨kind, name⟩ parameters) =
        roles.map (.ofMember kind name) := fun kind name parameters =>
    ⟨[.isAllowed], zoneIds_isAllowed _ _⟩
  have hattributes := kept_forEach_locals h.attributes
    (f := fun a => isAllowed c ⟨.attribute, a.name⟩
      "TANGO_UNUSED(Tango::AttReqType type)")
    (fun a => hallowed _ _ _) fun a => kept_isAllowed h _ _
  have hpipes := kept_forEach_locals h.pipes
    (f := fun p => isAllowed c ⟨.pipe, p.name⟩ "TANGO_UNUSED(Tango::PipeReqType type)")
    (fun p => hallowed _ _ _) fun p => kept_isAllowed h _ _
  have hcommands := kept_forEach_locals h.commands
    (f := fun cmd =>
      isAllowed c ⟨.command, cmd.name⟩ "TANGO_UNUSED(const CORBA::Any &any)")
    (fun cmd => hallowed _ _ _) fun cmd => kept_isAllowed h _ _
  delta stateMachineLayout
  simp only [kept_stacked, List.map_cons, List.map_nil, hattributes, hcommands]
  rw [kept_unlessEmpty (by simp +contextual), kept_unlessEmpty (by simp +contextual)]
  simp only [kept_append, hpipes]
  simp

end Cpp

namespace Java

@[simp]
theorem kept_method (head : String) (body : Layout) :
    kept key (method head body) = indented (kept key body) := by
  simp [method]

@[simp]
theorem kept_deniedStates (member : MemberKey) :
    kept key (deniedStates c member) = [] :=
  kept_of_zoneIds_eq_nil (zoneIds_deniedStates member)

/-- The three loops of the class keep their other rounds. -/
theorem kept_layout (h : c.iface.Adds key c'.iface) (file : String) :
    kept key (layout c' file) = kept key (layout c file) := by
  have hattributes := kept_forEach_locals h.attributes (f := attributeAccess c)
    (g := attributeAccess c') (fun a => ⟨_, zoneIds_attributeAccess a⟩) fun a => by
      simp [attributeAccess]
  have hpipes := kept_forEach_locals h.pipes (f := pipeAccess c)
    (g := pipeAccess c') (fun p => ⟨_, zoneIds_pipeAccess p⟩) fun p => by
      simp [pipeAccess]
  have hcommands := kept_forEach_locals h.commands (f := commandMethod c)
    (g := commandMethod c') (fun cmd => ⟨[.execute], zoneIds_commandMethod cmd⟩)
    fun cmd => by simp [commandMethod]
  delta layout classMembers
  simp only [kept_stacked, List.map_cons, List.map_nil, kept_indented,
    hattributes, hpipes, hcommands]
  simp [propertyAccess]

end Java

namespace Script

@[simp]
theorem kept_function (head : String) (body : Layout) :
    kept key (function head body) = indented (kept key body) := by
  simp [function]

@[simp]
theorem kept_docstring (c : SourceContext) : kept key (docstring c) = [] :=
  kept_of_zoneIds_eq_nil zoneIds_docstring

/-- The new member leaves the states alone in which another one is denied. -/
theorem kept_isAllowed (h : c.iface.Adds key c'.iface) (member : MemberKey)
    (parameters : String) (test : List String → List String) :
    kept key (isAllowed c' member parameters test) =
      kept key (isAllowed c member parameters test) := by
  simp only [isAllowed, h.denied]

end Script

namespace Python

@[simp]
theorem kept_sectionHeading (title : String) : kept key (sectionHeading title) = [] :=
  kept_of_zoneIds_eq_nil (zoneIds_sectionHeading title)

/-- Methods that decide about states depend on the interface, but not on the new member.
-/
theorem kept_layout (h : c.iface.Adds key c'.iface) (file : String) :
    kept key (layout c' file) = kept key (layout c file) := by
  have hattributes := kept_forEach_locals h.attributes (f := attributeMethods c)
    (g := attributeMethods c') (fun a => ⟨_, zoneIds_attributeMethods a⟩) fun a => by
      simp [attributeMethods, isAllowed, Script.kept_isAllowed h]
  have hpipes := kept_forEach_locals h.pipes (f := pipeMethods c)
    (g := pipeMethods c') (fun p => ⟨_, zoneIds_pipeMethods p⟩) fun p => by
      simp [pipeMethods, isAllowed, Script.kept_isAllowed h]
  have hcommands := kept_forEach_locals h.commands (f := commandMethod c)
    (g := commandMethod c') (fun cmd => ⟨_, zoneIds_commandMethod cmd⟩) fun cmd => by
      simp [commandMethod, isAllowed, Script.kept_isAllowed h]
  delta layout deviceMembers
  simp only [kept_stacked, List.map_cons, List.map_nil, kept_indented,
    hattributes, hpipes, hcommands]
  simp [attributeFields, descriptor, dictionary, mainFunction]

end Python

namespace PythonHL

@[simp]
theorem kept_quoted (text : String) : kept key (quoted text) = [] := rfl

/-- The fields of the class hold no zones. -/
theorem kept_layout (h : c.iface.Adds key c'.iface) (file : String) :
    kept key (layout c' file) = kept key (layout c file) := by
  have hattributes := kept_forEach_locals h.attributes (f := attributeMethods c)
    (g := attributeMethods c') (fun a => ⟨_, zoneIds_attributeMethods a⟩) fun a => by
      simp [attributeMethods, isAllowed, Script.kept_isAllowed h]
  have hpipes := kept_forEach_locals h.pipes (f := pipeMethods c)
    (g := pipeMethods c') (fun p => ⟨_, zoneIds_pipeMethods p⟩) fun p => by
      simp [pipeMethods, isAllowed, Script.kept_isAllowed h]
  have hcommands := kept_forEach_locals h.commands (f := commandMethod c)
    (g := commandMethod c') (fun cmd => ⟨_, zoneIds_commandMethod cmd⟩) fun cmd => by
      simp [commandMethod, isAllowed, Script.kept_isAllowed h]
  have hdeclarations : ∀ c : SourceContext, kept key (declarations c) = [] := fun c =>
    kept_of_zoneIds_eq_nil zoneIds_declarations
  delta layout classMembers
  simp only [kept_stacked, List.map_cons, List.map_nil, kept_indented,
    hattributes, hpipes, hcommands, hdeclarations]
  simp [lifecycle, heading]

end PythonHL

end Emitters

/-! ## Zones of files -/

/-- The zones in the order of the file, each with its default body and its indentation.
-/
def Skeleton.zones (s : Skeleton) : List (ZoneId × String × String) :=
  s.segments.filterMap fun
    | .text _ => none
    | .zone id body indent => some (id, body, indent)

section Files

variable {c c' : SourceContext} {key : MemberKey}

open Layout

/-- The zones of a layout as a file has them. -/
def Layout.zones (unit : String) (l : Layout) : List (ZoneId × String × String) :=
  l.filterMap fun
    | .line _ _ => none
    | .zone depth id body =>
        some (id, Text.endLine (indentLines body (indentText unit depth)),
          indentText unit depth)

theorem zones_toSkeleton (file : String) (style : MarkerStyle) (unit : String)
    (l : Layout) :
    (l.toSkeleton file style unit).zones = l.zones unit :=
  filterMap_segments (fun _ => rfl) unit l

theorem zones_kept (unit : String) (l : Layout) :
    (kept key l).zones unit = (l.zones unit).filter fun zone => !zone.1.isOf key := by
  rw [Layout.zones, kept, List.filterMap_filter, Layout.zones, List.filter_filterMap]
  congr 1
  funext piece
  cases piece with
  | line depth text => rfl
  | zone depth id body => cases hid : id.isOf key <;> simp [hid, Option.filter]

/-- A layout without zones of the member keeps all of its zones. -/
theorem zones_kept_of_isOf_eq_false {l : Layout}
    (h : ∀ id ∈ zoneIds l, id.isOf key = false) (unit : String) :
    (kept key l).zones unit = l.zones unit := by
  rw [zones_kept, List.filter_eq_self]
  intro zone hzone
  obtain ⟨piece, hpiece, heq⟩ := List.mem_filterMap.mp hzone
  cases piece with
  | line depth text => exact absurd heq (by simp)
  | zone depth id body =>
      obtain rfl := Option.some.inj heq
      simp [h id (mem_zoneIds_of_mem hpiece)]

/-- If two layouts keep the same zones and one of them has none of the member, then its
file has the zones of the other file but for those of the member. -/
theorem file_zones_eq {l grown : Layout} (hsettings : c'.settings = c.settings)
    (hkept : kept key grown = kept key l)
    (hnone : ∀ id ∈ zoneIds l, id.isOf key = false) (name : String)
    (style : MarkerStyle) :
    ((c'.file name style grown).file,
        (c'.file name style grown).zones.filter fun zone => !zone.1.isOf key) =
      ((c.file name style l).file, (c.file name style l).zones) := by
  simp only [SourceContext.file, zones_toSkeleton]
  rw [← zones_kept, hkept, zones_kept_of_isOf_eq_false hnone, hsettings]
  rfl

/-- Zones of the class and of other members are none of the member. -/
theorem isOf_of_mem_zoneIds {l : Layout} {members : List (MemberKey × List MemberRole)}
    {before after : List ClassRole} (hmembers : ∀ m ∈ members, m.1 ≠ key)
    (hl : zoneIds l =
      before.map ZoneId.ofClass ++ memberZones members ++ after.map ZoneId.ofClass) :
    ∀ id ∈ zoneIds l, id.isOf key = false := by
  intro id hid
  rw [hl, List.mem_append, List.mem_append] at hid
  rcases hid with (hid | hid) | hid
  · obtain ⟨role, -, rfl⟩ := List.mem_map.mp hid
    exact ZoneId.isOf_ofClass key role
  · obtain ⟨m, hm, role, -, rfl⟩ := mem_memberZones_iff.mp hid
    rw [← Bool.not_eq_true, ZoneId.isOf_ofMember_iff]
    exact hmembers m hm
  · obtain ⟨role, -, rfl⟩ := List.mem_map.mp hid
    exact ZoneId.isOf_ofClass key role

/-- The member that is added is not among those from before. -/
theorem Interface.Adds.ne_of_mem_localMembers {i grown : Interface}
    (h : i.Adds key grown) {ofAttribute : Attribute → List MemberRole}
    {ofPipe : Pipe → List MemberRole} {ofCommand : Command → List MemberRole} :
    ∀ m ∈ localMembers i ofAttribute ofPipe ofCommand, m.1 ≠ key := by
  intro m hm
  simp only [localMembers, List.mem_append, List.mem_map] at hm
  rcases hm with (⟨a, ha, rfl⟩ | ⟨p, hp, rfl⟩) | ⟨cmd, hcmd, rfl⟩
  · rw [← h.attributes] at ha
    exact of_decide_eq_true (List.mem_filter.mp ha).2
  · rw [← h.pipes] at hp
    exact of_decide_eq_true (List.mem_filter.mp hp).2
  · rw [← h.commands] at hcmd
    exact of_decide_eq_true (List.mem_filter.mp hcmd).2

/-- Every file of the larger class keeps the zones of the file of the same name,
language by language. -/
theorem zones_skeletons (h : c.iface.Adds key c'.iface)
    (hsettings : c'.settings = c.settings) (language : Language) :
    ((language.skeletons c').map fun s =>
      (s.file, s.zones.filter fun zone => !zone.1.isOf key)) =
      (language.skeletons c).map fun s => (s.file, s.zones) := by
  have hname : c'.name = c.name := h.name
  cases language with
  | cpp =>
      simp only [Language.skeletons, Cpp.skeletons, hname, List.map_cons, List.map_nil,
        List.cons.injEq, and_true]
      refine ⟨?_, ?_, ?_⟩
      · exact file_zones_eq hsettings (Cpp.kept_headerLayout _)
          (isOf_of_mem_zoneIds (by simp) (Cpp.zoneIds_headerLayout _)) _ _
      · exact file_zones_eq hsettings (Cpp.kept_implementationLayout h _)
          (isOf_of_mem_zoneIds h.ne_of_mem_localMembers
            (Cpp.zoneIds_implementationLayout _)) _ _
      · exact file_zones_eq hsettings (Cpp.kept_stateMachineLayout h _)
          (isOf_of_mem_zoneIds h.ne_of_mem_localMembers
            (Cpp.zoneIds_stateMachineLayout _)) _ _
  | java =>
      simp only [Language.skeletons, Java.skeletons, hname, List.map_singleton,
        List.singleton_inj]
      exact file_zones_eq hsettings (Java.kept_layout h _)
        (isOf_of_mem_zoneIds h.ne_of_mem_localMembers (Java.zoneIds_layout _)) _ _
  | python =>
      simp only [Language.skeletons, Python.skeletons, hname, List.map_singleton,
        List.singleton_inj]
      exact file_zones_eq hsettings (Python.kept_layout h _)
        (isOf_of_mem_zoneIds h.ne_of_mem_localMembers (Python.zoneIds_layout _)) _ _
  | pythonHL =>
      simp only [Language.skeletons, PythonHL.skeletons, hname, List.map_singleton,
        List.singleton_inj]
      exact file_zones_eq hsettings (PythonHL.kept_layout h _)
        (isOf_of_mem_zoneIds h.ne_of_mem_localMembers (PythonHL.zoneIds_layout _)) _ _

end Files

/-- A member under a name that no level of a class declares or constrains leaves all
other zones as they are, wherever it is put in: the files have the same names, and, but
for the zones of the new member, the same zones in the same order with the same default
bodies at the same depths. -/
theorem zones_insertAt {cls : DeviceClass} {position : ℕ} {m : Member}
    (hfresh : ∀ level ∈ cls.levels,
      level.hasMember m.key = false ∧ m.key ∉ level.machine.allowed.keys)
    {i grown : Interface} {issues grownIssues : List InterfaceIssue}
    (hresolve : cls.resolve = .ok (i, issues))
    (hgrown : (cls.insertAt position m).resolve = .ok (grown, grownIssues))
    {language : Language} {settings : Settings} {files grownFiles : List Skeleton}
    (hemit : emit language ⟨i, cls.toClassBody, settings⟩ = .ok files)
    (hgrownEmit : emit language
      ⟨grown, (cls.insertAt position m).toClassBody, settings⟩ = .ok grownFiles) :
    (grownFiles.map fun s => (s.file, s.zones.filter fun zone => !zone.1.isOf m.key)) =
      files.map fun s => (s.file, s.zones) := by
  obtain rfl := eq_of_emit hemit
  obtain rfl := eq_of_emit hgrownEmit
  refine zones_skeletons ?_ ?_ language
  · exact DeviceClass.adds_insertAt hfresh hresolve hgrown
  · rfl

def speed : Member :=
  .attribute { name := "Speed", access := .readWrite }

theorem zones_insertAt_brakedMotor :
    ∃ i issues grown grownIssues files grownFiles,
      DeviceClass.brakedMotor.resolve = .ok (i, issues) ∧
      (DeviceClass.brakedMotor.insertAt 0 speed).resolve = .ok (grown, grownIssues) ∧
      emit .pythonHL ⟨i, DeviceClass.brakedMotor.toClassBody, {}⟩ = .ok files ∧
      emit .pythonHL ⟨grown, (DeviceClass.brakedMotor.insertAt 0 speed).toClassBody,
        {}⟩ = .ok grownFiles ∧
      (grownFiles.map fun s =>
        (s.file, s.zones.filter fun zone => !zone.1.isOf speed.key)) =
        files.map fun s => (s.file, s.zones) := by
  obtain ⟨i, issues, grown, grownIssues, files, grownFiles, hresolve, hgrown, hemit,
      hgrownEmit⟩ :
      ∃ i issues grown grownIssues files grownFiles,
        DeviceClass.brakedMotor.resolve = .ok (i, issues) ∧
        (DeviceClass.brakedMotor.insertAt 0 speed).resolve = .ok (grown, grownIssues) ∧
        emit .pythonHL ⟨i, DeviceClass.brakedMotor.toClassBody, {}⟩ = .ok files ∧
        emit .pythonHL ⟨grown, (DeviceClass.brakedMotor.insertAt 0 speed).toClassBody,
          {}⟩ = .ok grownFiles :=
    ⟨_, _, _, _, _, _, rfl, rfl, rfl, rfl⟩
  refine ⟨i, issues, grown, grownIssues, files, grownFiles, hresolve, hgrown, hemit,
    hgrownEmit, ?_⟩
  exact zones_insertAt (by decide) hresolve hgrown hemit hgrownEmit

end DeviceForge
