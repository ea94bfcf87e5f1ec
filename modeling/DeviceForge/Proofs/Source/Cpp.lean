import DeviceForge.Proofs.Source.Banner
import DeviceForge.Source.Cpp

/-!
# C++ sources

The header has zones of the class only, the implementation has the zones in
which members are read, written and executed, and the state machine has one
zone for every member.  No generated line opens a block comment that could be a
marker.
-/

namespace DeviceForge.Cpp

open Layout SourceContext Text

variable {c : SourceContext}

section Zones

@[simp]
theorem zoneIds_methodComment (name description : String) :
    zoneIds (methodComment name description) = [] := by
  simp [methodComment]

@[simp]
theorem zoneIds_methodHeading (name description : String) :
    zoneIds (methodHeading name description) = [] :=
  zoneIds_methodComment _ _

@[simp]
theorem zoneIds_method (signature : String) (body : Layout) :
    zoneIds (method signature body) = zoneIds body := by
  simp [method]

@[simp]
theorem zoneIds_traceEntry (what : String) : zoneIds (traceEntry what) = [] := rfl

@[simp]
theorem zoneIds_sectionHeading (title : String) :
    zoneIds (sectionHeading title) = [] := by
  simp [sectionHeading]

@[simp]
theorem zoneIds_outputVariable (t : DataType) : zoneIds (outputVariable t) = [] := by
  rw [outputVariable]
  split
  · rfl
  split
  · rfl
  · rfl

theorem zoneIds_attributeMethods (a : Attribute) :
    zoneIds (attributeMethods c a) =
      (accessRoles a.access.isReadable a.access.isWritable).map
        (.ofMember .attribute a.name) := by
  rw [attributeMethods, accessRoles]
  cases a.access.isReadable <;> cases a.access.isWritable <;>
    simp [readAttribute, writeAttribute]

theorem zoneIds_pipeMethods (p : Pipe) :
    zoneIds (pipeMethods c p) = (accessRoles true p.writable).map
      (.ofMember .pipe p.name) := by
  rw [pipeMethods, accessRoles]
  cases p.writable <;> simp [readPipe, writePipe, pipeMethod]

theorem zoneIds_commandMethod (cmd : Command) :
    zoneIds (commandMethod c cmd) = [.ofMember .command cmd.name .execute] := by
  rw [commandMethod]
  by_cases hvoid : cmd.argout.dataType = .void
  · simp [hvoid]
  · simp [hvoid]

theorem zoneIds_isAllowed (key : MemberKey) (parameters : String) :
    zoneIds (isAllowed c key parameters) =
      [.ofMember key.kind key.name .isAllowed] := by
  simp only [isAllowed, zoneIds_append, zoneIds_methodComment, zoneIds_method]
  split
  · simp
  · simp

theorem zoneIds_attributePrototypes (a : Attribute) :
    zoneIds (attributePrototypes a) = [] := by
  rw [attributePrototypes]
  cases a.access.isReadable <;> cases a.access.isWritable <;> rfl

theorem zoneIds_pipePrototypes (p : Pipe) : zoneIds (pipePrototypes p) = [] := by
  rw [pipePrototypes]
  cases p.writable <;> rfl

theorem zoneIds_classMembers :
    zoneIds (classMembers c) = [.ofClass .members, .ofClass .additionalMethods] := by
  have hproperties : zoneIds (propertyFields c) = [] := by
    rw [propertyFields, zoneIds_unlessEmpty (by simp)]
    simp
  have hattributes : zoneIds (attributeFields c) = [] := by
    rw [attributeFields, zoneIds_unlessEmpty (by simp)]
    simp
  have hattribute :=
    zoneIds_forEach_of_nil c.iface.attributes.locals zoneIds_attributePrototypes
  have hpipe := zoneIds_forEach_of_nil c.iface.pipes.locals zoneIds_pipePrototypes
  have hcommand :=
    zoneIds_forEach_of_nil c.iface.commands.locals (f := commandPrototypes) fun _ => rfl
  simp only [classMembers, zoneIds_stacked, List.flatMap_cons, List.flatMap_nil,
    zoneIds_zone, zoneIds_blank, zoneIds_lines, hproperties, hattributes]
  rw [zoneIds_unlessEmpty (by simp [hattribute]), zoneIds_unlessEmpty (by simp [hpipe]),
    zoneIds_unlessEmpty (by simp [hcommand])]
  simp only [zoneIds_append, zoneIds_blank, zoneIds_line, hattribute, hpipe, hcommand]
  rfl

theorem zoneIds_headerLayout (file : String) :
    zoneIds (headerLayout c file) =
      [.includes, .members, .additionalMethods].map ZoneId.ofClass ++ memberZones [] ++
        [].map .ofClass := by
  have hparent := zoneIds_forEach_of_nil c.iface.parent.toList
    (f := fun parent => line s!"#include <{parent}.h>") fun _ => rfl
  delta headerLayout
  simp only [zoneIds_stacked, List.flatMap_cons, List.flatMap_nil, zoneIds_line,
    zoneIds_lines, zoneIds_blank, zoneIds_zone, zoneIds_indented, zoneIds_classMembers,
    hparent, zoneIds_classComment, Banner.zoneIds_ofClass]
  rfl

/-- The zones of the implementation: those of the life of a device, then one for each
access to a member, then the one for all else. -/
theorem zoneIds_implementationLayout (file : String) :
    zoneIds (implementationLayout c file) =
      [.deleteDevice, .initDevice, .alwaysExecutedHook].map .ofClass ++
        memberZones (localMembers c.iface
          (fun a => accessRoles a.access.isReadable a.access.isWritable)
          (fun p => accessRoles true p.writable) fun _ => [.execute]) ++
        [.additionalMethods].map .ofClass := by
  have hdelete : zoneIds (deleteDevice c) = [.ofClass .deleteDevice] := by
    simp only [deleteDevice]
    cases c.iface.parent <;> simp
  have hinit : zoneIds (initDevice c) = [.ofClass .initDevice] := by
    simp only [initDevice]
    cases c.iface.parent <;> simp
  have hproperty : ∀ p i, zoneIds (readProperty c p i) = [] := fun p i => by
    rw [readProperty]
    cases p.mandatory <;> simp
  have hproperties : zoneIds (propertyReader c) = [] := by
    simp [propertyReader, hproperty, zoneIds_unlessEmpty]
  simp [implementationLayout, hdelete, hinit, hproperties, constructor,
    alwaysExecutedHook, readHardware, zoneIds_attributeMethods, zoneIds_pipeMethods,
    zoneIds_commandMethod, memberZones_localMembers]

/-- Every member has a zone in which its use is decided. -/
theorem zoneIds_stateMachineLayout (file : String) :
    zoneIds (stateMachineLayout c file) =
      [].map ZoneId.ofClass ++
        memberZones (localMembers c.iface (fun _ => [.isAllowed])
          (fun _ => [.isAllowed]) fun _ => [.isAllowed]) ++
        [].map .ofClass := by
  have hpipes : zoneIds (unlessEmpty c.iface.pipes.locals
      (sectionHeading "Pipe Allowed Methods" ++ forEach c.iface.pipes.locals fun p =>
        isAllowed c ⟨.pipe, p.name⟩ "TANGO_UNUSED(Tango::PipeReqType type)")) =
      c.iface.pipes.locals.flatMap fun p => [.ofMember .pipe p.name .isAllowed] := by
    rw [zoneIds_unlessEmpty (fun hnone => by simp [hnone])]
    simp [zoneIds_isAllowed]
  simp [stateMachineLayout, hpipes, zoneIds_isAllowed, memberZones_localMembers]

end Zones

/-! ## Lines -/

section Lines

variable {Q : String → Prop}

theorem every_methodComment {method description : String} (hmethod : Lacks '/' method)
    (hdescription : Unopened description.toList) :
    Every (PlainLine .block) Q (methodComment method description) := by
  have hseparator : PlainLine .block separator := plainLine_lit (by decide)
  simp only [methodComment, every_lines_iff, List.forall_mem_cons]
  refine ⟨hseparator, plainLine_of_lacks_dash (lacks_lit (by decide)), ?_, ?_,
    plainLine_of_lacks_dash (lacks_lit (by decide)), hseparator, by simp⟩
  · exact plainLine_of_lacks_slash (lacks_append.mpr ⟨lacks_lit (by decide), hmethod⟩)
  · exact plainLine_of_unopened (unopened_append (by decide) (by decide) hdescription)

theorem every_methodHeading {method : String} (hmethod : Lacks '/' method)
    (description : String) :
    Every (PlainLine .block) Q (methodHeading method description) :=
  every_methodComment hmethod (unopened_escapeComment description)

theorem every_method {signature : String} {body : Layout}
    (hsignature : Lacks '/' signature) (hbody : Every (PlainLine .block) Q body) :
    Every (PlainLine .block) Q (method signature body) := by
  simp [method, plainLine_of_lacks_slash hsignature, hbody]

/-- A method below its heading. -/
theorem every_headed {name description signature : String} {body : Layout}
    (hname : Lacks '/' name) (hsignature : Lacks '/' signature)
    (hbody : Every (PlainLine .block) Q body) :
    Every (PlainLine .block) Q
      (methodHeading name description ++ method signature body) :=
  every_append_iff.mpr ⟨every_methodHeading hname description,
    every_method hsignature hbody⟩

theorem every_traceEntry {what : String} (hwhat : Lacks '/' what) :
    Every (PlainLine .block) Q (traceEntry what) := by
  rw [traceEntry, every_line_iff]
  exact plainLine_of_lacks_slash (by simp +decide [hwhat])

theorem lacks_slash_typeName (t : DataType) : Lacks '/' (typeName t) := by
  cases t <;> decide

theorem every_readAttribute (hname : Lacks '/' c.name) {a : Attribute}
    (ha : Name.IsWord a.name) :
    Every (PlainLine .block) (Lacks '-') (readAttribute c a) := by
  have hslash : Lacks '/' a.name := lacks_of_isWord ha (by decide)
  have hdash : Lacks '-' a.name := lacks_of_isWord ha (by decide)
  have hnumber := lacks_repr (c := '-') (by decide)
  have hvalue : Lacks '-' (setValue a) := by
    rw [setValue]
    cases a.format <;> simp +decide [hdash, hnumber]
  simp only [readAttribute]
  refine every_headed (by simp +decide [hname, hslash])
    (by simp +decide [hname, hslash]) ?_
  simp only [every_append_iff, every_zone_iff]
  exact ⟨every_traceEntry (by simp +decide [hname, hslash]), by simp +decide [hvalue]⟩

theorem every_writeAttribute (hname : Lacks '/' c.name) {a : Attribute}
    (ha : Name.IsWord a.name) :
    Every (PlainLine .block) (Lacks '-') (writeAttribute c a) := by
  have hslash : Lacks '/' a.name := lacks_of_isWord ha (by decide)
  have htype := lacks_slash_typeName a.dataType
  simp only [writeAttribute]
  refine every_headed (by simp +decide [hname, hslash])
    (by simp +decide [hname, hslash]) ?_
  simp only [every_append_iff, every_zone_iff, every_line_iff]
  refine ⟨⟨⟨⟨every_traceEntry (by simp +decide [hname, hslash]), ?_⟩, ?_⟩, ?_⟩,
    lacks_lit (by decide)⟩
  · exact plainLine_lit (by decide)
  · split
    · exact plainLine_of_lacks_slash (by simp +decide [htype])
    · exact plainLine_of_lacks_slash (by simp +decide [htype])
  · exact plainLine_lit (by decide)

/-- A method of a pipe holds free text in its heading only, where it is safe. -/
theorem every_pipeMethod (hname : Lacks '/' c.name) {p : Pipe} (hp : Name.IsWord p.name)
    {action parameter body : String} (haction : Lacks '/' action)
    (hparameter : Lacks '/' parameter) (hbody : Lacks '-' body) (role : MemberRole) :
    Every (PlainLine .block) (Lacks '-')
      (pipeMethod c p action parameter role body) := by
  have hslash : Lacks '/' p.name := lacks_of_isWord hp (by decide)
  have hmethod : Lacks '/' s!"{c.name}::{action}_{p.name}" := by
    simp +decide [hname, haction, hslash]
  refine every_headed hmethod (by simp +decide [hname, haction, hslash, hparameter]) ?_
  refine every_append_iff.mpr ⟨every_traceEntry ?_, every_zone_iff.mpr hbody⟩
  simp +decide [hname, haction, hslash, hparameter]

theorem lacks_slash_inputParameters (t : DataType) : Lacks '/' (inputParameters t) := by
  have htype := lacks_slash_typeName t
  rw [inputParameters]
  split
  · exact lacks_lit (by decide)
  split
  · simp +decide [htype]
  · simp +decide [htype]

theorem lacks_slash_outputType (t : DataType) : Lacks '/' (outputType t) := by
  have htype := lacks_slash_typeName t
  rw [outputType]
  split
  · simp +decide [htype]
  · exact htype

theorem every_outputVariable (t : DataType) :
    Every (PlainLine .block) Q (outputVariable t) := by
  have htype := lacks_slash_typeName t
  rw [outputVariable]
  split
  · exact every_line_iff.mpr (plainLine_of_lacks_slash (by simp +decide [htype]))
  split
  · exact every_nil
  · exact every_line_iff.mpr (plainLine_of_lacks_slash (by simp +decide [htype]))

/-- A command brings its description into the heading of its method, where it is safe.
-/
theorem every_commandMethod (hname : Lacks '/' c.name) {cmd : Command}
    (hcmd : Name.IsWord cmd.name) :
    Every (PlainLine .block) (Lacks '-') (commandMethod c cmd) := by
  have hslash : Lacks '/' cmd.name := lacks_of_isWord hcmd (by decide)
  have hmethod : Lacks '/' (methodName cmd) :=
    lacks_of_isWord hcmd.snakeCase (by decide)
  have hinput := lacks_slash_inputParameters cmd.argin.dataType
  have houtput := lacks_slash_outputType cmd.argout.dataType
  simp only [commandMethod]
  refine every_headed (by simp +decide [hname, hmethod])
    (by simp +decide [hname, hmethod, hinput, houtput]) ?_
  simp only [every_append_iff, every_zone_iff, every_line_iff, every_ite_iff]
  refine ⟨⟨⟨every_outputVariable _, ?_⟩, lacks_lit (by decide)⟩, fun _ => every_nil,
    fun _ => plainLine_lit (by decide)⟩
  exact plainLine_of_lacks_slash (by simp +decide [hname, hslash])

/-- A condition is written from the names of states, which have no slashes. -/
theorem plainLine_of_mem_stateCondition {opening : String}
    (hopening : Lacks '/' opening) {states : List String}
    (hstates : ∀ state ∈ states, Lacks '/' state) {text : String}
    (h : text ∈ stateCondition opening states) : PlainLine .block text := by
  induction states generalizing opening with
  | nil => simp [stateCondition] at h
  | cons state rest ih =>
      have hstate := hstates state List.mem_cons_self
      cases rest with
      | nil =>
          rw [stateCondition, List.mem_singleton] at h
          rw [h]
          exact plainLine_of_lacks_slash (by simp +decide [hopening, hstate])
      | cons next others =>
          rw [stateCondition, List.mem_cons] at h
          · rcases h with rfl | h
            · exact plainLine_of_lacks_slash (by simp +decide [hopening, hstate])
            · exact ih (lacks_lit (by decide))
                (fun other hother => hstates other (List.mem_cons_of_mem _ hother)) h
          · simp

/-- The comment of the method is written from names, and so is its condition. -/
theorem every_isAllowed (h : c.iface.Named c.body) {key : MemberKey}
    (hkey : Name.IsWord key.name) {parameters : String}
    (hparameters : Lacks '/' parameters) :
    Every (PlainLine .block) (Lacks '-') (isAllowed c key parameters) := by
  have hname : Lacks '/' c.name := lacks_name h (by decide)
  have hslash : Lacks '/' key.name := lacks_of_isWord hkey (by decide)
  have hstar : Lacks '*' key.name := lacks_of_isWord hkey (by decide)
  have hkind : Lacks '*' key.kind.label := by cases key.kind <;> decide
  have hkindSlash : Lacks '/' key.kind.label := by cases key.kind <;> decide
  simp only [isAllowed, every_append_iff]
  refine ⟨every_methodComment (by simp +decide [hname, hslash]) ?_,
    every_method (by simp +decide [hname, hslash, hparameters]) ?_⟩
  · exact unopened_of_notMem_slash (by simpa +decide [Lacks] using ⟨hslash, hkindSlash⟩)
  · rw [every_append_iff, every_line_iff]
    refine ⟨?_, plainLine_lit (by decide)⟩
    split
    · simp only [every_append_iff, every_line_iff, every_zone_iff]
      exact ⟨plainLine_of_lacks_star (by simp +decide [hstar, hkind]),
        lacks_lit (by decide)⟩
    · simp only [every_append_iff, every_line_iff, every_lines_iff, every_braced_iff,
        every_zone_iff]
      refine ⟨⟨plainLine_lit (by decide), fun text htext => ?_⟩, plainLine_openBrace _,
        ⟨lacks_lit (by decide), plainLine_lit (by decide)⟩, plainLine_closeBrace _⟩
      refine plainLine_of_mem_stateCondition (lacks_lit (by decide))
        (fun state hstate => ?_) htext
      exact Name.notMem_of_isIdentifier (h.isIdentifier_of_mem_deniedStates hstate)
        (by decide)

theorem lacks_slash_baseClass (h : c.iface.Named c.body) : Lacks '/' (baseClass c) := by
  rw [baseClass]
  split
  · next parent hparent =>
      have hslash : Lacks '/' parent :=
        Name.notMem_of_isIdentifier (h.parent parent hparent) (by decide)
      simp +decide [hslash]
  · exact lacks_lit (by decide)

theorem every_constructor (h : c.iface.Named c.body) :
    Every (PlainLine .block) Q (constructor c) := by
  have hname : Lacks '/' c.name := lacks_name h (by decide)
  have hbase := lacks_slash_baseClass h
  simp only [constructor, every_append_iff, every_lines_iff, every_braced_iff,
    every_line_iff, every_blank_iff, List.forall_mem_cons, plainLine_empty,
    plainLine_openBrace, plainLine_closeBrace, true_and, and_true]
  refine ⟨⟨every_methodHeading (by simp +decide [hname]) _, ?_, ?_, by simp⟩,
    plainLine_lit (by decide)⟩
  · exact plainLine_of_lacks_slash (by simp +decide [hname])
  · exact plainLine_of_lacks_slash (by simp +decide [hbase])

/-- The fields of attributes that are read by hand go by the names of members. -/
theorem lacks_slash_of_mem_readable (h : c.iface.Named c.body) {a : Attribute}
    (ha : a ∈ readable c) : Lacks '/' a.name :=
  lacks_of_isWord (isWord_of_mem_locals h.attributes (List.mem_of_mem_filter ha))
    (by decide)

theorem every_deleteDevice (h : c.iface.Named c.body) :
    Every (PlainLine .block) (Lacks '-') (deleteDevice c) := by
  have hname : Lacks '/' c.name := lacks_name h (by decide)
  have hbase := lacks_slash_baseClass h
  simp only [deleteDevice]
  refine every_headed (by simp +decide [hname]) (by simp +decide [hname]) ?_
  simp only [every_append_iff, every_zone_iff, every_lines_iff, every_ite_iff,
    every_line_iff, List.forall_mem_map]
  refine ⟨⟨⟨every_traceEntry (by simp +decide [hname]), lacks_lit (by decide)⟩,
    fun a ha => ?_⟩, fun _ => plainLine_of_lacks_slash (by simp +decide [hbase]),
      fun _ => every_nil⟩
  exact plainLine_of_lacks_slash (by simp +decide [lacks_slash_of_mem_readable h ha])

/-- Attributes come with their names and types, and these have no slashes. -/
theorem every_initDevice (h : c.iface.Named c.body) :
    Every (PlainLine .block) (Lacks '-') (initDevice c) := by
  have hname : Lacks '/' c.name := lacks_name h (by decide)
  have hbase := lacks_slash_baseClass h
  have hnumber := lacks_repr (c := '/') (by decide)
  simp only [initDevice]
  refine every_headed (by simp +decide [hname]) (by simp +decide [hname]) ?_
  simp only [every_append_iff, every_zone_iff, every_lines_iff, every_ite_iff,
    every_line_iff, List.forall_mem_map]
  refine ⟨⟨⟨⟨every_traceEntry (by simp +decide [hname]),
    fun _ => plainLine_of_lacks_slash (by simp +decide [hbase]), fun _ => every_nil⟩,
    lacks_lit (by decide)⟩, plainLine_lit (by decide)⟩, fun a ha => ?_⟩
  exact plainLine_of_lacks_slash (by
    simp +decide [lacks_slash_of_mem_readable h ha, lacks_slash_typeName, hnumber])

theorem every_readProperty (hname : Lacks '/' c.name) {p : Property}
    (hp : Name.IsWord p.name) (i : ℕ) :
    Every (PlainLine .block) Q (readProperty c p i) := by
  have hslash : Lacks '/' p.name := lacks_of_isWord hp (by decide)
  have hfield : Lacks '/' (fieldName p.name) :=
    lacks_of_isWord (hp.mapFirst fun _ => Name.isInnerChar_toLower) (by decide)
  have hnumber := lacks_repr (c := '/') (by decide)
  simp only [readProperty, every_append_iff, every_line_iff, every_ite_iff]
  refine ⟨plainLine_of_lacks_slash ?_, fun _ => plainLine_of_lacks_slash ?_,
    fun _ => every_nil⟩
  · simp +decide [hfield, hnumber]
  · simp +decide [hslash, hname]

/-- Properties are named in their spelling, and their literals hold no slash that opens
a comment. -/
theorem every_propertyReader (h : c.iface.Named c.body) :
    Every (PlainLine .block) Q (propertyReader c) := by
  have hname : Lacks '/' c.name := lacks_name h (by decide)
  have hproperty : ∀ p ∈ localProperties c, Name.IsWord p.name := fun p =>
    isWord_of_mem_locals h.deviceProperties
  simp only [propertyReader]
  refine every_headed (by simp +decide [hname]) (by simp +decide [hname])
    (every_unlessEmpty ?_)
  simp only [every_append_iff, every_line_iff, every_lines_iff, every_indented_iff,
    every_forEach_iff, List.forall_mem_map]
  refine ⟨⟨⟨⟨plainLine_lit (by decide), fun p hp => ?_⟩, plainLine_lit (by decide)⟩,
    plainLine_lit (by decide)⟩, fun p hp => ?_⟩
  · have hslash : Lacks '/' p.name := lacks_of_isWord (hproperty p hp) (by decide)
    exact plainLine_of_lacks_slash (by simp +decide [hslash])
  · exact every_readProperty hname (hproperty _ (List.fst_mem_of_mem_zipIdx hp)) p.2

theorem every_alwaysExecutedHook (hname : Lacks '/' c.name) :
    Every (PlainLine .block) (Lacks '-') (alwaysExecutedHook c) := by
  simp only [alwaysExecutedHook]
  refine every_headed (by simp +decide [hname]) (by simp +decide [hname]) ?_
  rw [every_append_iff, every_zone_iff]
  exact ⟨every_traceEntry (by simp +decide [hname]), lacks_lit (by decide)⟩

theorem every_readHardware (hname : Lacks '/' c.name) :
    Every (PlainLine .block) Q (readHardware c) := by
  simp only [readHardware]
  exact every_headed (by simp +decide [hname]) (by simp +decide [hname])
    (every_traceEntry (by simp +decide [hname]))

/-- Below the banner no generated line of the implementation is a marker. -/
theorem headed_implementationLayout (h : c.iface.Named c.body) (file : String) :
    Headed (Banner.ofClass c "//" file) (PlainLine .block) (Lacks '-')
      (implementationLayout c file) := by
  have hname : Lacks '/' c.name := lacks_name h (by decide)
  have hstar : Lacks '*' c.name := lacks_name h (by decide)
  have hattributes : ∀ a ∈ c.iface.attributes.locals,
      Every (PlainLine .block) (Lacks '-') (attributeMethods c a) := fun a ha => by
    have hword := isWord_of_mem_locals h.attributes ha
    simp [attributeMethods, every_readAttribute hname hword,
      every_writeAttribute hname hword]
  have hpipes : ∀ p ∈ c.iface.pipes.locals,
      Every (PlainLine .block) (Lacks '-') (pipeMethods c p) := fun p hp => by
    have hword := isWord_of_mem_locals h.pipes hp
    have hread : Every (PlainLine .block) (Lacks '-') (readPipe c p) :=
      every_pipeMethod hname hword (lacks_lit (by decide)) (lacks_lit (by decide))
        (lacks_lit (by decide)) _
    have hwrite : Every (PlainLine .block) (Lacks '-') (writePipe c p) :=
      every_pipeMethod hname hword (lacks_lit (by decide)) (lacks_lit (by decide))
        (lacks_lit (by decide)) _
    simp [pipeMethods, hread, hwrite]
  have hcommands : ∀ cmd ∈ c.iface.commands.locals,
      Every (PlainLine .block) (Lacks '-') (commandMethod c cmd) := fun cmd hcmd =>
    every_commandMethod hname (isWord_of_mem_locals h.commands hcmd)
  have hinclude : Lacks '/' s!"#include <{c.name}.h>" := by simp +decide [hname]
  have hnamespace : Lacks '/' s!"namespace {c.name}_ns" := by simp +decide [hname]
  have hend : Lacks '*' ("\x7d //\tnamespace " ++ c.name ++ "_ns") := by
    simp +decide [hstar]
  have hheading : Every (PlainLine .block) (Lacks '-')
      (methodHeading s!"{c.name}::additional_methods()" "Additional methods") :=
    every_methodHeading (by simp +decide [hname]) _
  rw [implementationLayout]
  refine headed_stacked ?_
  simp only [every_line_iff, every_lines_iff, every_blank_iff, every_forEach_iff,
    every_zone_iff, List.forall_mem_cons]
  exact ⟨plainLine_of_lacks_slash hinclude, plainLine_empty _,
    ⟨plainLine_of_lacks_slash hnamespace, plainLine_openBrace _, by simp⟩,
    every_constructor h, every_deleteDevice h, every_initDevice h,
    every_propertyReader h, every_alwaysExecutedHook hname, every_readHardware hname,
    hattributes, hpipes, hcommands, hheading, lacks_lit (by decide),
    plainLine_of_lacks_star hend, List.forall_mem_nil _⟩

theorem lacks_slash_propertyType (t : DataType) : Lacks '/' (propertyType t) := by
  cases t <;> decide

theorem every_propertyFields (h : c.iface.Named c.body) :
    Every (PlainLine .block) Q (propertyFields c) := by
  refine every_unlessEmpty ?_
  simp only [every_append_iff, every_blank_iff, every_line_iff, every_lines_iff,
    List.forall_mem_map]
  refine ⟨⟨plainLine_empty _, plainLine_lit (by decide)⟩, fun p hp => ?_⟩
  have hword : Name.IsWord p.name := isWord_of_mem_locals h.deviceProperties hp
  have hfield : Lacks '/' (fieldName p.name) :=
    lacks_of_isWord (hword.mapFirst fun _ => Name.isInnerChar_toLower) (by decide)
  exact plainLine_of_lacks_slash (by simp +decide [hfield, lacks_slash_propertyType])

theorem every_attributeFields (h : c.iface.Named c.body) :
    Every (PlainLine .block) Q (attributeFields c) := by
  refine every_unlessEmpty ?_
  simp only [every_append_iff, every_blank_iff, every_line_iff, every_lines_iff,
    List.forall_mem_map]
  refine ⟨⟨plainLine_empty _, plainLine_lit (by decide)⟩, fun a ha => ?_⟩
  exact plainLine_of_lacks_slash (by
    simp +decide [lacks_slash_of_mem_readable h ha, lacks_slash_typeName])

/-- Prototypes below a line of their own. -/
theorem every_section {α : Type} {items : List α} {title : String} {f : α → Layout}
    (htitle : PlainLine .block title)
    (hitems : ∀ item ∈ items, Every (PlainLine .block) Q (f item)) :
    Every (PlainLine .block) Q (blank ++ line title ++ forEach items f) := by
  simp only [every_append_iff, every_blank_iff, every_line_iff, every_forEach_iff]
  exact ⟨⟨plainLine_empty _, htitle⟩, hitems⟩

theorem every_attributePrototypes {a : Attribute} (ha : Name.IsWord a.name) :
    Every (PlainLine .block) Q (attributePrototypes a) := by
  have hslash : Lacks '/' a.name := lacks_of_isWord ha (by decide)
  simp only [attributePrototypes, every_append_iff, every_ite_iff, every_line_iff]
  refine ⟨⟨⟨fun _ => ?_, fun _ => every_nil⟩, fun _ => ?_, fun _ => every_nil⟩, ?_⟩ <;>
    exact plainLine_of_lacks_slash (by simp +decide [hslash])

theorem every_pipePrototypes {p : Pipe} (hp : Name.IsWord p.name) :
    Every (PlainLine .block) Q (pipePrototypes p) := by
  have hslash : Lacks '/' p.name := lacks_of_isWord hp (by decide)
  simp only [pipePrototypes, every_append_iff, every_ite_iff, every_line_iff]
  refine ⟨⟨?_, fun _ => ?_, fun _ => every_nil⟩, ?_⟩ <;>
    exact plainLine_of_lacks_slash (by simp +decide [hslash])

theorem every_commandPrototypes {cmd : Command} (hcmd : Name.IsWord cmd.name) :
    Every (PlainLine .block) Q (commandPrototypes cmd) := by
  have hslash : Lacks '/' cmd.name := lacks_of_isWord hcmd (by decide)
  have hmethod : Lacks '/' (methodName cmd) :=
    lacks_of_isWord hcmd.snakeCase (by decide)
  simp only [commandPrototypes, every_lines_iff, List.forall_mem_cons]
  refine ⟨plainLine_of_lacks_slash ?_, plainLine_of_lacks_slash ?_, by simp⟩
  · simp +decide [hmethod, lacks_slash_inputParameters, lacks_slash_outputType]
  · simp +decide [hslash]

/-- Part by part: each line is fixed, or is written from names, types and safe texts. -/
theorem every_classMembers (h : c.iface.Named c.body) :
    Every (PlainLine .block) (Lacks '-') (classMembers c) := by
  have hname : Lacks '/' c.name := lacks_name h (by decide)
  have hattributes : ∀ a ∈ c.iface.attributes.locals,
      Every (PlainLine .block) (Lacks '-') (attributePrototypes a) := fun a ha =>
    every_attributePrototypes (isWord_of_mem_locals h.attributes ha)
  have hpipes : ∀ p ∈ c.iface.pipes.locals,
      Every (PlainLine .block) (Lacks '-') (pipePrototypes p) := fun p hp =>
    every_pipePrototypes (isWord_of_mem_locals h.pipes hp)
  have hcommands : ∀ cmd ∈ c.iface.commands.locals,
      Every (PlainLine .block) (Lacks '-') (commandPrototypes cmd) := fun cmd hcmd =>
    every_commandPrototypes (isWord_of_mem_locals h.commands hcmd)
  have hlifecycle : Every (PlainLine .block) (Lacks '-') (lines [
      s!"{c.name}(Tango::DeviceClass *cl, std::string &s);",
      "~" ++ c.name ++ "() \x7b delete_device(); \x7d"]) := by
    simp only [every_lines_iff, List.forall_mem_cons]
    refine ⟨plainLine_of_lacks_slash ?_, plainLine_of_lacks_slash ?_, by simp⟩
    · simp +decide [hname]
    · simp +decide [hname]
  have hmethods : Every (PlainLine .block) (Lacks '-') (lines [
      "void delete_device();",
      "virtual void init_device();",
      "void get_device_property();",
      "virtual void always_executed_hook();",
      "virtual void read_attr_hardware(std::vector<long> &attr_list);"]) := by
    simp only [every_lines_iff, List.forall_mem_cons]
    exact ⟨plainLine_lit (by decide), plainLine_lit (by decide),
      plainLine_lit (by decide), plainLine_lit (by decide),
      plainLine_lit (by decide), by simp⟩
  simp only [classMembers, every_stacked_iff, List.forall_mem_cons, every_zone_iff,
    every_blank_iff]
  refine ⟨lacks_lit (by decide), every_propertyFields h, every_attributeFields h,
    plainLine_empty _, hlifecycle, plainLine_empty _, hmethods, every_unlessEmpty ?_,
    every_unlessEmpty ?_, every_unlessEmpty ?_, plainLine_empty _,
    lacks_lit (by decide), List.forall_mem_nil _⟩
  · exact every_section (plainLine_lit (by decide)) hattributes
  · exact every_section (plainLine_lit (by decide)) hpipes
  · exact every_section (plainLine_lit (by decide)) hcommands

/-- Below the banner no generated line of the header is a marker. -/
theorem headed_headerLayout (h : c.iface.Named c.body) (file : String) :
    Headed (Banner.ofClass c "//" file) (PlainLine .block) (Lacks '-')
      (headerLayout c file) := by
  have hname : Lacks '/' c.name := lacks_name h (by decide)
  have hstar : Lacks '*' c.name := lacks_name h (by decide)
  have hbase := lacks_slash_baseClass h
  have hguard : Every (PlainLine .block) (Lacks '-')
      (lines [s!"#ifndef {c.name}_H", s!"#define {c.name}_H"]) := by
    simp only [every_lines_iff, List.forall_mem_cons]
    refine ⟨plainLine_of_lacks_slash ?_, plainLine_of_lacks_slash ?_, by simp⟩
    · simp +decide [hname]
    · simp +decide [hname]
  have hparents : ∀ parent ∈ c.iface.parent.toList,
      PlainLine .block s!"#include <{parent}.h>" := by
    intro parent hparent
    have hslash : Lacks '/' parent := Name.notMem_of_isIdentifier
      (h.parent parent (Option.mem_toList.mp hparent)) (by decide)
    exact plainLine_of_lacks_slash (by simp +decide [hslash])
  have hnamespace : Every (PlainLine .block) (Lacks '-')
      (lines [s!"namespace {c.name}_ns", "\x7b"]) := by
    simp only [every_lines_iff, List.forall_mem_cons]
    exact ⟨plainLine_of_lacks_slash (by simp +decide [hname]),
      plainLine_openBrace _, by simp⟩
  have hclass : Every (PlainLine .block) (Lacks '-')
      (lines [s!"class {c.name} : public {baseClass c}", "\x7b"]) := by
    simp only [every_lines_iff, List.forall_mem_cons]
    exact ⟨plainLine_of_lacks_slash (by simp +decide [hname, hbase]),
      plainLine_openBrace _, by simp⟩
  have hend : Lacks '*' s!"#endif   //\t{c.name}_H" := by simp +decide [hstar]
  delta headerLayout
  refine headed_stacked ?_
  simp only [List.forall_mem_cons, every_line_iff, every_blank_iff, every_forEach_iff,
    every_zone_iff, every_indented_iff]
  exact ⟨hguard, plainLine_empty _, plainLine_lit (by decide), hparents,
    plainLine_empty _, lacks_lit (by decide), plainLine_empty _, every_classComment h,
    plainLine_empty _, hnamespace, plainLine_empty _, hclass, plainLine_empty _,
    plainLine_lit (by decide), every_classMembers h, plainLine_lit (by decide),
    plainLine_empty _, plainLine_lit (by decide), plainLine_empty _,
    plainLine_of_lacks_star hend, List.forall_mem_nil _⟩

theorem every_sectionHeading {title : String} (htitle : Lacks '*' title) :
    Every (PlainLine .block) Q (sectionHeading title) := by
  have hline : Lacks '*' ("//\t\t" ++ title) := by simp +decide [htitle]
  simp only [sectionHeading, every_append_iff, every_lines_iff, every_blank_iff,
    List.forall_mem_cons]
  exact ⟨⟨plainLine_lit (by decide), plainLine_of_lacks_star hline,
    plainLine_lit (by decide), by simp⟩, plainLine_empty _⟩

/-- Below the banner no generated line of the state machine is a marker. -/
theorem headed_stateMachineLayout (h : c.iface.Named c.body) (file : String) :
    Headed (Banner.ofClass c "//" file) (PlainLine .block) (Lacks '-')
      (stateMachineLayout c file) := by
  have hname : Lacks '/' c.name := lacks_name h (by decide)
  have hstar : Lacks '*' c.name := lacks_name h (by decide)
  have hattributes : ∀ a ∈ c.iface.attributes.locals,
      Every (PlainLine .block) (Lacks '-')
        (isAllowed c ⟨.attribute, a.name⟩ "TANGO_UNUSED(Tango::AttReqType type)") :=
    fun a ha =>
      every_isAllowed h (isWord_of_mem_locals h.attributes ha) (lacks_lit (by decide))
  have hpipes : ∀ p ∈ c.iface.pipes.locals,
      Every (PlainLine .block) (Lacks '-')
        (isAllowed c ⟨.pipe, p.name⟩ "TANGO_UNUSED(Tango::PipeReqType type)") :=
    fun p hp =>
      every_isAllowed h (isWord_of_mem_locals h.pipes hp) (lacks_lit (by decide))
  have hcommands : ∀ cmd ∈ c.iface.commands.locals,
      Every (PlainLine .block) (Lacks '-')
        (isAllowed c ⟨.command, cmd.name⟩ "TANGO_UNUSED(const CORBA::Any &any)") :=
    fun cmd hcmd =>
      every_isAllowed h (isWord_of_mem_locals h.commands hcmd) (lacks_lit (by decide))
  have hinclude : Lacks '/' s!"#include <{c.name}.h>" := by simp +decide [hname]
  have hnamespace : Lacks '/' s!"namespace {c.name}_ns" := by simp +decide [hname]
  have hend : Lacks '*' ("\x7d\t//\tEnd of namespace " ++ c.name ++ "_ns") := by
    simp +decide [hstar]
  have hpipeSection : Every (PlainLine .block) (Lacks '-')
      (unlessEmpty c.iface.pipes.locals
        (sectionHeading "Pipe Allowed Methods" ++ forEach c.iface.pipes.locals fun p =>
          isAllowed c ⟨.pipe, p.name⟩ "TANGO_UNUSED(Tango::PipeReqType type)")) := by
    refine every_unlessEmpty ?_
    rw [every_append_iff, every_forEach_iff]
    exact ⟨every_sectionHeading (lacks_lit (by decide)), hpipes⟩
  rw [stateMachineLayout]
  refine headed_stacked ?_
  simp only [every_line_iff, every_lines_iff, every_blank_iff, every_forEach_iff,
    List.forall_mem_cons]
  exact ⟨plainLine_of_lacks_slash hinclude, plainLine_empty _,
    ⟨plainLine_of_lacks_slash hnamespace, plainLine_openBrace _, by simp⟩,
    every_sectionHeading (lacks_lit (by decide)), hattributes, hpipeSection,
    every_sectionHeading (lacks_lit (by decide)), hcommands,
    plainLine_of_lacks_star hend, List.forall_mem_nil _⟩

end Lines

/-! ## Files -/

section Files

theorem ownFile_header (h : c.iface.Named c.body) (file : String) :
    OwnFile c.body (c.file file .block (headerLayout c file)) := by
  refine ownFile_file ?_
    ((headed_headerLayout h file).bodies (Banner.zoneIds_ofClass _ _)) _ _
  rw [zoneIds_headerLayout]
  exact ownMembers_nil.ownZones (by decide)

theorem ownFile_implementation (h : c.iface.Named c.body) (file : String) :
    OwnFile c.body (c.file file .block (implementationLayout c file)) := by
  refine ownFile_file ?_ ((headed_implementationLayout h file).bodies
    (Banner.zoneIds_ofClass _ _)) _ _
  rw [zoneIds_implementationLayout]
  exact (ownMembers_localMembers h (fun _ => nodup_accessRoles _ _)
    (fun _ => nodup_accessRoles _ _) fun _ => List.nodup_singleton _).ownZones
      (by decide)

theorem ownFile_stateMachine (h : c.iface.Named c.body) (file : String) :
    OwnFile c.body (c.file file .block (stateMachineLayout c file)) := by
  refine ownFile_file ?_ ((headed_stateMachineLayout h file).bodies
    (Banner.zoneIds_ofClass _ _)) _ _
  rw [zoneIds_stateMachineLayout]
  exact (ownMembers_localMembers h (fun _ => List.nodup_singleton _)
    (fun _ => List.nodup_singleton _) fun _ => List.nodup_singleton _).ownZones
      (by decide)

theorem ownFile_of_mem_skeletons (h : c.iface.Named c.body) {s : Skeleton}
    (hs : s ∈ skeletons c) : OwnFile c.body s := by
  simp only [skeletons, List.mem_cons, List.not_mem_nil, or_false] at hs
  rcases hs with rfl | rfl | rfl
  · exact ownFile_header h _
  · exact ownFile_implementation h _
  · exact ownFile_stateMachine h _

/-- No text of the three files holds a marker. -/
theorem plainTexts_of_mem_skeletons (h : c.iface.Named c.body)
    (hrevision : c.body.revision = some currentRevision) {s : Skeleton}
    (hs : s ∈ skeletons c) : s.PlainTexts := by
  have hstar : Lacks '*' c.name := lacks_name h (by decide)
  simp only [skeletons, List.mem_cons, List.not_mem_nil, or_false] at hs
  rcases hs with rfl | rfl | rfl
  · exact plainTexts_file (headed_headerLayout h _) (isWord_name h) hrevision
      (by simp +decide [hstar])
  · exact plainTexts_file (headed_implementationLayout h _) (isWord_name h) hrevision
      (by simp +decide [hstar])
  · exact plainTexts_file (headed_stateMachineLayout h _) (isWord_name h) hrevision
      (by simp +decide [hstar])

theorem nodup_files (c : SourceContext) : ((skeletons c).map (·.file)).Nodup := by
  have hne : ∀ {ending other : String}, ending ≠ other →
      c.name ++ ending ≠ c.name ++ other := by
    intro ending other hother heq
    apply hother
    have hchars := congrArg String.toList heq
    rw [String.toList_append, String.toList_append] at hchars
    exact String.toList_injective (List.append_cancel_left hchars)
  simp only [skeletons, SourceContext.file, toSkeleton, List.map_cons, List.map_nil,
    List.nodup_cons, List.mem_cons, List.not_mem_nil, or_false, not_or,
    not_false_eq_true, List.nodup_nil, and_true]
  exact ⟨⟨hne (by decide), hne (by decide)⟩, hne (by decide)⟩

end Files

end DeviceForge.Cpp
