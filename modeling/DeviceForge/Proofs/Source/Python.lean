import DeviceForge.Proofs.Source.Banner
import DeviceForge.Source.Python
import DeviceForge.Source.PythonHL

/-!
# Python sources

In both interfaces the one file of a class has the zones of the class around
those of its members, and a zone that decides about states only for members
that are denied in some.  Default bodies hold no dashes, but the docstring of
the module is free text.
-/

namespace DeviceForge

open Layout SourceContext Text

variable {c : SourceContext}

def guardRoles (c : SourceContext) (key : MemberKey) : List MemberRole :=
  match c.iface.deniedStates key with
  | [] => []
  | _ => [.isAllowed]

theorem guardRoles_cases (c : SourceContext) (key : MemberKey) :
    guardRoles c key = [] ∨ guardRoles c key = [.isAllowed] := by
  rw [guardRoles]
  split
  · exact Or.inl rfl
  · exact Or.inr rfl

/-- The members that the class declares itself, with zones that decide about
states. -/
def guardedMembers (c : SourceContext) : List (MemberKey × List MemberRole) :=
  localMembers c.iface
    (fun a => accessRoles a.access.isReadable a.access.isWritable ++
      guardRoles c ⟨.attribute, a.name⟩)
    (fun p => accessRoles true p.writable ++ guardRoles c ⟨.pipe, p.name⟩)
    fun cmd => .execute :: guardRoles c ⟨.command, cmd.name⟩

theorem ownMembers_guardedMembers (h : c.iface.Named c.body) :
    OwnMembers c.body (guardedMembers c) := by
  have hroles : ∀ readable writable key,
      (accessRoles readable writable ++ guardRoles c key).Nodup := by
    intro readable writable key
    rcases guardRoles_cases c key with hguard | hguard <;> rw [hguard] <;>
      cases readable <;> cases writable <;> decide
  refine ownMembers_localMembers h (fun _ => hroles _ _ _)
    (fun _ => hroles _ _ _) fun cmd => ?_
  rcases guardRoles_cases c ⟨.command, cmd.name⟩ with hguard | hguard <;>
    rw [hguard] <;> decide

theorem lacks_dash_pythonValue (t : DataType) (dimensions : ℕ) :
    Lacks '-' (t.pythonValue dimensions) := by
  unfold DataType.pythonValue
  split
  · exact lacks_lit (by decide)
  · split <;> exact lacks_lit (by decide)

namespace Script

@[simp]
theorem zoneIds_head : zoneIds head = [] := rfl

@[simp]
theorem zoneIds_tail : zoneIds tail = [] := rfl

@[simp]
theorem zoneIds_function (head : String) (body : Layout) :
    zoneIds (function head body) = zoneIds body := by
  simp [function]

@[simp]
theorem zoneIds_docstring : zoneIds (docstring c) = [] := by
  simp [docstring]

/-- The method has a zone exactly if the member is denied in some state, whatever the
lines are that test for these states. -/
@[simp]
theorem zoneIds_isAllowed (key : MemberKey) (parameters : String)
    (test : List String → List String) :
    zoneIds (isAllowed c key parameters test) =
      (guardRoles c key).map (.ofMember key.kind key.name) := by
  rw [isAllowed, guardRoles]
  cases c.iface.deniedStates key with
  | nil => rfl
  | cons state rest => simp

@[simp]
theorem every_isAllowed (key : MemberKey) (parameters : String)
    (test : List String → List String) :
    Every (fun _ => True) (Lacks '-') (isAllowed c key parameters test) := by
  rw [isAllowed]
  split
  · exact every_nil
  · simp +decide [function]

end Script

open Script (docstring function)

namespace Python

@[simp]
theorem zoneIds_trace (name : String) : zoneIds (trace name) = [] := rfl

@[simp]
theorem zoneIds_sectionHeading (title : String) :
    zoneIds (sectionHeading title) = [] := by
  simp [sectionHeading]

theorem zoneIds_attributeMethods (a : Attribute) :
    zoneIds (attributeMethods c a) =
      (accessRoles a.access.isReadable a.access.isWritable ++
        guardRoles c ⟨.attribute, a.name⟩).map (.ofMember .attribute a.name) := by
  rw [attributeMethods, accessRoles]
  cases a.access.isReadable <;> cases a.access.isWritable <;> simp [isAllowed]

theorem zoneIds_pipeMethods (p : Pipe) :
    zoneIds (pipeMethods c p) =
      (accessRoles true p.writable ++ guardRoles c ⟨.pipe, p.name⟩).map
        (.ofMember .pipe p.name) := by
  rw [pipeMethods, accessRoles]
  cases p.writable <;> simp [isAllowed]

theorem zoneIds_commandMethod (cmd : Command) :
    zoneIds (commandMethod c cmd) =
      (.execute :: guardRoles c ⟨.command, cmd.name⟩).map
        (.ofMember .command cmd.name) := by
  rw [commandMethod]
  by_cases hvoid : cmd.argout.dataType = .void <;>
    by_cases hdoc : cmd.description.isEmpty <;>
    simp [hvoid, hdoc, isAllowed]

theorem zoneIds_deviceMembers :
    zoneIds (deviceMembers c) =
      [.members, .deleteDevice, .initDevice, .alwaysExecutedHook].map .ofClass ++
        memberZones (guardedMembers c) ++ [.additionalMethods].map .ofClass := by
  have hparent := zoneIds_forEach_of_nil c.iface.parent.toList
    (f := fun parent => line s!"{parent}.init_device(self)") fun _ => rfl
  simp only [deviceMembers, zoneIds_stacked, List.flatMap_cons, List.flatMap_nil,
    zoneIds_append, zoneIds_line, zoneIds_lines, zoneIds_zone, zoneIds_blank,
    Script.zoneIds_function, zoneIds_trace, zoneIds_sectionHeading, hparent,
    attributeFields, zoneIds_forEach, zoneIds_attributeMethods, zoneIds_pipeMethods,
    zoneIds_commandMethod, guardedMembers, memberZones_localMembers]
  simp

/-- The zones of the module: those of the class around those of the members. -/
theorem zoneIds_layout (file : String) :
    zoneIds (layout c file) =
      [.includes, .members, .deleteDevice, .initDevice, .alwaysExecutedHook].map
        .ofClass ++ memberZones (guardedMembers c) ++
          [.additionalMethods].map .ofClass := by
  have hparent := zoneIds_forEach_of_nil c.iface.parent.toList
    (f := fun parent => line s!"from {parent} import {parent}, {parent}Class") fun _ =>
      rfl
  have hdescriptor : zoneIds (descriptor c) = [] := by
    simp [descriptor, dictionary]
  have hmain : zoneIds (mainFunction c) = [] := by
    simp [mainFunction]
  delta layout
  simp only [zoneIds_stacked, List.flatMap_cons, List.flatMap_nil, zoneIds_line,
    zoneIds_lines, zoneIds_zone, zoneIds_blank, zoneIds_indented, Script.zoneIds_head,
    Script.zoneIds_docstring, Banner.zoneIds_ofClass, hparent, hdescriptor, hmain,
    zoneIds_deviceMembers]
  simp

/-! Generated lines are free. -/

theorem every_attributeMethods {a : Attribute} (ha : Name.IsWord a.name) :
    Every (fun _ => True) (Lacks '-') (attributeMethods c a) := by
  have hdash : Lacks '-' a.name := lacks_of_isWord ha (by decide)
  simp +decide [attributeMethods, function, trace, isAllowed, hdash]

theorem every_pipeMethods {p : Pipe} (hp : Name.IsWord p.name) :
    Every (fun _ => True) (Lacks '-') (pipeMethods c p) := by
  have hdash : Lacks '-' p.name := lacks_of_isWord hp (by decide)
  simp +decide [pipeMethods, function, trace, isAllowed, hdash]

theorem every_commandMethod (cmd : Command) :
    Every (fun _ => True) (Lacks '-') (commandMethod c cmd) := by
  simp +decide [commandMethod, function, trace, isAllowed]

/-- All lines are free, and default bodies hold no dash: they are written from names and
fixed text. -/
theorem every_layout (h : c.iface.Named c.body) (file : String) :
    Every (fun _ => True) (Lacks '-') (layout c file) := by
  have hattributes : ∀ a ∈ c.iface.attributes.locals,
      Every (fun _ => True) (Lacks '-') (attributeMethods c a) := fun a ha =>
    every_attributeMethods (isWord_of_mem_locals h.attributes ha)
  have hpipes : ∀ p ∈ c.iface.pipes.locals,
      Every (fun _ => True) (Lacks '-') (pipeMethods c p) := fun p hp =>
    every_pipeMethods (isWord_of_mem_locals h.pipes hp)
  have hbanner : Every (fun _ => True) (Lacks '-') (Banner.ofClass c "#" file) :=
    every_of_zoneIds_eq_nil (Banner.zoneIds_ofClass _ _)
  have hmembers : Every (fun _ => True) (Lacks '-') (deviceMembers c) := by
    simp +decide only [deviceMembers, function, trace, sectionHeading, attributeFields,
      every_stacked_iff, List.forall_mem_cons, every_append_iff, every_line_iff,
      every_lines_iff, every_zone_iff, every_blank_iff, every_indented_iff,
      every_forEach_iff, every_commandMethod, implies_true, true_and]
    exact ⟨hattributes, hpipes, List.forall_mem_nil _⟩
  have hdescriptor : Every (fun _ => True) (Lacks '-') (descriptor c) := by
    simp [descriptor, dictionary]
  have hmain : Every (fun _ => True) (Lacks '-') (mainFunction c) := by
    simp [mainFunction]
  delta layout
  simp +decide [Script.head, docstring, hbanner, hmembers, hdescriptor, hmain]

theorem ownFile_of_mem_skeletons (h : c.iface.Named c.body) {s : Skeleton}
    (hs : s ∈ skeletons c) : OwnFile c.body s := by
  obtain rfl := List.mem_singleton.mp hs
  refine ownFile_file ?_ (every_layout h _) _ _
  rw [zoneIds_layout]
  exact (ownMembers_guardedMembers h).ownZones (by decide)

end Python

namespace PythonHL

@[simp]
theorem zoneIds_quoted (text : String) : zoneIds (quoted text) = [] := rfl

theorem zoneIds_attributeMethods (a : Attribute) :
    zoneIds (attributeMethods c a) =
      (accessRoles a.access.isReadable a.access.isWritable ++
        guardRoles c ⟨.attribute, a.name⟩).map (.ofMember .attribute a.name) := by
  rw [attributeMethods, accessRoles]
  cases a.access.isReadable <;> cases a.access.isWritable <;> simp [isAllowed]

theorem zoneIds_pipeMethods (p : Pipe) :
    zoneIds (pipeMethods c p) =
      (accessRoles true p.writable ++ guardRoles c ⟨.pipe, p.name⟩).map
        (.ofMember .pipe p.name) := by
  rw [pipeMethods, accessRoles]
  cases p.writable <;> simp [isAllowed]

theorem zoneIds_commandMethod (cmd : Command) :
    zoneIds (commandMethod c cmd) =
      (.execute :: guardRoles c ⟨.command, cmd.name⟩).map
        (.ofMember .command cmd.name) := by
  simp [commandMethod, isAllowed]

theorem zoneIds_declarations : zoneIds (declarations c) = [] := by
  simp [declarations, heading, propertyField, attributeField, pipeField,
    zoneIds_unlessEmpty]

theorem zoneIds_classMembers :
    zoneIds (classMembers c) =
      [.members, .initDevice, .alwaysExecutedHook, .deleteDevice].map .ofClass ++
        memberZones (guardedMembers c) ++ [.additionalMethods].map .ofClass := by
  simp [classMembers, lifecycle, heading, zoneIds_declarations,
    zoneIds_attributeMethods, zoneIds_pipeMethods, zoneIds_commandMethod,
    guardedMembers, memberZones_localMembers]

/-- The zones of the module with the declarative interface. -/
theorem zoneIds_layout (file : String) :
    zoneIds (layout c file) =
      [.includes, .members, .initDevice, .alwaysExecutedHook, .deleteDevice].map
        .ofClass ++ memberZones (guardedMembers c) ++
          [.additionalMethods].map .ofClass := by
  have hparent := zoneIds_forEach_of_nil c.iface.parent.toList
    (f := fun parent => line s!"from {parent} import {parent}") fun _ => rfl
  delta layout
  simp only [zoneIds_stacked, List.flatMap_cons, List.flatMap_nil, zoneIds_append,
    zoneIds_line, zoneIds_lines, zoneIds_zone, zoneIds_blank, zoneIds_indented,
    zoneIds_quoted, Script.zoneIds_head, Script.zoneIds_docstring, Script.zoneIds_tail,
    Banner.zoneIds_ofClass, hparent, zoneIds_classMembers]
  simp

/-! Generated lines are free. -/

theorem lacks_dash_fieldName {name : String} (h : Name.IsWord name) :
    Lacks '-' (fieldName name) := by
  have hdash : Lacks '-' (mapFirst Char.toLower name) :=
    lacks_of_isWord (h.mapFirst fun _ => Name.isInnerChar_toLower) (by decide)
  rw [fieldName]
  split
  · exact lacks_lit (by decide)
  · simp +decide [hdash]

theorem every_attributeMethods {a : Attribute} (ha : Name.IsWord a.name) :
    Every (fun _ => True) (Lacks '-') (attributeMethods c a) := by
  have hfield := lacks_dash_fieldName ha
  simp +decide [attributeMethods, function, quoted, isAllowed, hfield]

theorem every_pipeMethods {p : Pipe} (hp : Name.IsWord p.name) :
    Every (fun _ => True) (Lacks '-') (pipeMethods c p) := by
  have hdash : Lacks '-' p.name := lacks_of_isWord hp (by decide)
  simp +decide [pipeMethods, function, quoted, isAllowed, hdash]

theorem every_commandMethod (cmd : Command) :
    Every (fun _ => True) (Lacks '-') (commandMethod c cmd) := by
  have hvalue := lacks_dash_pythonValue cmd.argout.dataType 0
  have hbody : Lacks '-' (if cmd.argout.dataType = .void then ""
      else s!"return {cmd.argout.dataType.pythonValue 0}") := by
    split
    · exact lacks_lit (by decide)
    · simp +decide [hvalue]
  simp [commandMethod, function, quoted, isAllowed, hbody]

/-- Fields hold no zones, and default bodies are written from names and fixed text. -/
theorem every_layout (h : c.iface.Named c.body) (file : String) :
    Every (fun _ => True) (Lacks '-') (layout c file) := by
  have hattributes : ∀ a ∈ c.iface.attributes.locals,
      Every (fun _ => True) (Lacks '-') (attributeMethods c a) := fun a ha =>
    every_attributeMethods (isWord_of_mem_locals h.attributes ha)
  have hpipes : ∀ p ∈ c.iface.pipes.locals,
      Every (fun _ => True) (Lacks '-') (pipeMethods c p) := fun p hp =>
    every_pipeMethods (isWord_of_mem_locals h.pipes hp)
  have hbanner : Every (fun _ => True) (Lacks '-') (Banner.ofClass c "#" file) :=
    every_of_zoneIds_eq_nil (Banner.zoneIds_ofClass _ _)
  have hdeclarations : Every (fun _ => True) (Lacks '-') (declarations c) :=
    every_of_zoneIds_eq_nil zoneIds_declarations
  have hlifecycle : Every (fun _ => True) (Lacks '-') (lifecycle c) := by
    simp +decide [lifecycle, heading, function, quoted]
  have hmembers : Every (fun _ => True) (Lacks '-') (classMembers c) := by
    simp +decide only [classMembers, every_stacked_iff, List.forall_mem_cons,
      every_line_iff, every_lines_iff, every_zone_iff, every_blank_iff,
      every_forEach_iff, hdeclarations, hlifecycle, every_commandMethod, implies_true,
      true_and]
    exact ⟨hattributes, hpipes, List.forall_mem_nil _⟩
  delta layout
  simp +decide [Script.head, Script.tail, docstring, quoted, hbanner, hmembers]

theorem ownFile_of_mem_skeletons (h : c.iface.Named c.body) {s : Skeleton}
    (hs : s ∈ skeletons c) : OwnFile c.body s := by
  obtain rfl := List.mem_singleton.mp hs
  refine ownFile_file ?_ (every_layout h _) _ _
  rw [zoneIds_layout]
  exact (ownMembers_guardedMembers h).ownZones (by decide)

end PythonHL

end DeviceForge
