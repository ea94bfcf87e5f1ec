import DeviceForge.Proofs.Source.Banner
import DeviceForge.Source.Java

/-!
# Java sources

The one file of a class has the zones of the class around those of its members.
A generated line is code without a slash, a comment whose text is escaped, or
an annotation, in which free text stands in literals.
-/

namespace DeviceForge.Java

open Layout SourceContext Text

variable {c : SourceContext}

section Zones

@[simp]
theorem zoneIds_method (head : String) (body : Layout) :
    zoneIds (method head body) = zoneIds body := by
  simp [method]

@[simp]
theorem zoneIds_deniedStates (key : MemberKey) : zoneIds (deniedStates c key) = [] := by
  rw [deniedStates]
  split <;> rfl

@[simp]
theorem zoneIds_attributeProperties (a : Attribute) :
    zoneIds (attributeProperties a) = [] := by
  rw [attributeProperties]
  split <;> rfl

@[simp]
theorem zoneIds_propertyAccess (kind : MemberKind) (p : Property) :
    zoneIds (propertyAccess kind p) = [] := by
  simp [propertyAccess]

@[simp]
theorem zoneIds_lifecycle (role : ClassRole) (mark head body : String) :
    zoneIds (lifecycle role mark head body) = [.ofClass role] := by
  simp [lifecycle]

theorem zoneIds_attributeAccess (a : Attribute) :
    zoneIds (attributeAccess c a) =
      (accessRoles a.access.isReadable a.access.isWritable).map
        (.ofMember .attribute a.name) := by
  rw [attributeAccess, accessRoles]
  cases a.access.isReadable <;> cases a.access.isWritable <;> simp

theorem zoneIds_pipeAccess (p : Pipe) :
    zoneIds (pipeAccess c p) = (accessRoles true p.writable).map
      (.ofMember .pipe p.name) := by
  rw [pipeAccess, accessRoles]
  cases p.writable <;> simp

theorem zoneIds_commandMethod (cmd : Command) :
    zoneIds (commandMethod c cmd) = [.ofMember .command cmd.name .execute] := by
  rw [commandMethod]
  by_cases hvoid : cmd.argout.dataType = .void
  · simp [hvoid]
  · simp [hvoid]

theorem zoneIds_layout (file : String) :
    zoneIds (layout c file) =
      [.includes, .members].map .ofClass ++
        memberZones (localMembers c.iface
          (fun a => accessRoles a.access.isReadable a.access.isWritable)
          (fun p => accessRoles true p.writable) fun _ => [.execute]) ++
        [.initDevice, .deleteDevice, .alwaysExecutedHook, .additionalMethods].map
          .ofClass := by
  have hstate : zoneIds (if c.iface.parent.isNone then
      lines ["@State", "private DevState state = DevState.UNKNOWN;"] ++ blank else []) =
        [] := by
    split <;> rfl
  have hmembers : zoneIds (classMembers c) =
      [.members].map .ofClass ++
        memberZones (localMembers c.iface
          (fun a => accessRoles a.access.isReadable a.access.isWritable)
          (fun p => accessRoles true p.writable) fun _ => [.execute]) ++
        [.initDevice, .deleteDevice, .alwaysExecutedHook, .additionalMethods].map
          .ofClass := by
    simp only [classMembers, zoneIds_stacked, List.flatMap_cons,
      List.flatMap_nil, hstate, zoneIds_forEach, zoneIds_attributeAccess,
      zoneIds_pipeAccess, zoneIds_commandMethod, memberZones_localMembers]
    simp
  simp [layout, hmembers]

end Zones

/-! ## Lines -/

section Lines

variable {Q : String → Prop}

theorem lacks_slash_typeName (t : DataType) : Lacks '/' (typeName t) := by
  cases t <;> decide

theorem lacks_repeated {d : Char} {text : String} (h : Lacks d text) (count : ℕ) :
    Lacks d (repeated text count) := by
  rw [repeated, lacks_join]
  intro copy hcopy
  rw [List.eq_of_mem_replicate hcopy]
  exact h

theorem lacks_slash_valueType (t : DataType) (dimensions : ℕ) :
    Lacks '/' (valueType t dimensions) := by
  rw [valueType, lacks_append]
  exact ⟨lacks_slash_typeName t, lacks_repeated (lacks_lit (by decide)) _⟩

theorem lacks_slash_initialValue (t : DataType) (dimensions : ℕ) :
    Lacks '/' (initialValue t dimensions) := by
  have htype := lacks_slash_typeName t
  rw [initialValue]
  split
  · cases t <;> decide
  · simp only [lacks_append]
    exact ⟨⟨lacks_lit (by decide), htype⟩, lacks_repeated (lacks_lit (by decide)) _⟩

theorem isWord_fieldName {name : String} (h : Name.IsWord name) :
    Name.IsWord (fieldName name) :=
  h.mapFirst fun _ => Name.isInnerChar_toLower

theorem isWord_accessorName {name : String} (h : Name.IsWord name) :
    Name.IsWord (accessorName name) :=
  h.mapFirst fun _ => Name.isInnerChar_toUpper

theorem every_method {head : String} {body : Layout} (hhead : Lacks '/' head)
    (hbody : Every (PlainLine .block) Q body) :
    Every (PlainLine .block) Q (method head body) := by
  simp only [method, every_append_iff, every_line_iff, every_indented_iff,
    every_blank_iff]
  exact ⟨⟨⟨plainLine_of_lacks_slash (by simp +decide [hhead]), hbody⟩,
    plainLine_closeBrace _⟩, plainLine_empty _⟩

/-! Annotations stand on one line and start with a sign of their own. -/

theorem head_append {d : Char} {s t : String} (h : d ∈ s.toList.head?) :
    d ∈ (s ++ t).toList.head? := by
  rw [Option.mem_def] at h
  rw [String.toList_append, List.head?_append, h, Option.some_or]
  rfl

theorem plainLine_annotation {text : String} (hhead : '@' ∈ text.toList.head?)
    (hline : Lacks '\n' text) : PlainLine .block text :=
  plainLine_of_head hhead (by decide) (by decide) hline

theorem lacks_newline_commaList {texts : List String}
    (h : ∀ text ∈ texts, Lacks '\n' text) : Lacks '\n' (commaList texts) :=
  lacks_commaList (lacks_lit (by decide)) h

theorem lacks_newline_inBraces {items : List String}
    (h : ∀ item ∈ items, Lacks '\n' item) : Lacks '\n' (inBraces items) := by
  simp +decide [inBraces, lacks_newline_commaList h]

theorem lacks_newline_inBraces_literal (texts : List String) :
    Lacks '\n' (inBraces (texts.map literal)) :=
  lacks_newline_inBraces (by simp [lacks_newline_literal])

theorem every_deniedStates (h : c.iface.Named c.body) (key : MemberKey) :
    Every (PlainLine .block) Q (deniedStates c key) := by
  rw [deniedStates]
  split
  · exact every_nil
  · rw [every_line_iff]
    refine plainLine_annotation (head_append (head_append (by decide))) ?_
    have hstates : ∀ item ∈ (c.iface.deniedStates key).map ("DeviceState." ++ ·),
        Lacks '\n' item := by
      intro item hitem
      obtain ⟨state, hstate, rfl⟩ := List.mem_map.mp hitem
      have hline : Lacks '\n' state := Name.notMem_of_isIdentifier
        (h.isIdentifier_of_mem_deniedStates hstate) (by decide)
      simp +decide [hline]
    simp +decide [lacks_newline_inBraces hstates]

theorem plainLine_marked {mark : String} (hhead : '@' ∈ mark.toList.head?)
    (hmark : Lacks '\n' mark) {arguments : List String}
    (h : ∀ argument ∈ arguments, Lacks '\n' argument) :
    PlainLine .block s!"{mark}({commaList arguments})" := by
  refine plainLine_annotation (head_append (head_append (head_append hhead))) ?_
  simp +decide [hmark, lacks_newline_commaList h]

theorem forall_mem_optional {P : String → Prop} {p : Prop} [Decidable p]
    {texts : List String} (h : ∀ text ∈ texts, P text) :
    ∀ text ∈ (if p then texts else []), P text := by
  split
  · exact h
  · simp

/-- The field of a property and the method that sets it are written from its name, its
type and literals. -/
theorem every_propertyAccess (kind : MemberKind) {p : Property}
    (hp : Name.IsWord p.name) :
    Every (PlainLine .block) Q (propertyAccess kind p) := by
  have htype := lacks_slash_typeName p.dataType
  have hfield : Lacks '/' (fieldName p.name) :=
    lacks_of_isWord (isWord_fieldName hp) (by decide)
  have haccessor : Lacks '/' (accessorName p.name) :=
    lacks_of_isWord (isWord_accessorName hp) (by decide)
  simp only [propertyAccess, every_append_iff, every_line_iff]
  refine ⟨⟨?_, plainLine_of_lacks_slash (by simp +decide [htype, hfield])⟩,
    every_method (by simp +decide [htype, hfield, haccessor]) ?_⟩
  · have hname := lacks_newline_literal p.name
    have hdescription := lacks_newline_literal p.description
    have hdefaults := lacks_newline_inBraces_literal p.defaultValues
    refine plainLine_marked ?_ ?_ ?_
    · split <;> decide
    · split <;> exact lacks_lit (by decide)
    · simp only [List.forall_mem_append, List.forall_mem_cons]
      refine ⟨⟨⟨?_, ?_, by simp⟩, ?_⟩, forall_mem_optional ?_⟩
      · simp +decide [hname]
      · simp +decide [hdescription]
      · split
        · simp
        · simp +decide [hdefaults]
      · simp +decide
  · exact every_line_iff.mpr (plainLine_of_lacks_slash (by simp +decide [hfield]))

theorem lacks_newline_attributeArguments (a : Attribute) :
    Lacks '\n' (commaList (attributeArguments a)) := by
  have hname := lacks_newline_literal a.name
  have hnumber := lacks_repr (c := '\n') (by decide)
  refine lacks_newline_commaList ?_
  simp only [attributeArguments, List.forall_mem_append, List.forall_mem_singleton,
    List.forall_mem_map]
  refine ⟨⟨⟨⟨?_, forall_mem_optional ?_⟩, fun period _ => ?_⟩, forall_mem_optional ?_⟩,
    forall_mem_optional ?_⟩
  · simp +decide [hname]
  · simp +decide
  · simp +decide [hnumber]
  · simp +decide [hnumber]
  · simp +decide [hnumber]

theorem every_attributeProperties (a : Attribute) :
    Every (PlainLine .block) Q (attributeProperties a) := by
  have hdescription := lacks_newline_literal a.description
  have hlabels := lacks_newline_inBraces_literal a.enumLabels
  rw [attributeProperties]
  split
  · exact every_nil
  · rw [every_line_iff]
    refine plainLine_annotation (head_append (head_append (by decide))) ?_
    simp only [lacks_append, lacks_toString]
    refine ⟨⟨lacks_lit (by decide), lacks_newline_commaList ?_⟩, lacks_lit (by decide)⟩
    rw [List.forall_mem_append]
    refine ⟨?_, forall_mem_optional ?_⟩
    · simp +decide [hdescription]
    · simp +decide [hlabels]

/-- Free text of an attribute is in literals only. -/
theorem every_attributeAccess (h : c.iface.Named c.body) {a : Attribute}
    (ha : Name.IsWord a.name) :
    Every (PlainLine .block) (Lacks '-') (attributeAccess c a) := by
  have htype := lacks_slash_valueType a.dataType a.format.dimensions
  have hvalue := lacks_slash_initialValue a.dataType a.format.dimensions
  have hfield : Lacks '/' (fieldName a.name) :=
    lacks_of_isWord (isWord_fieldName ha) (by decide)
  have hdash : Lacks '-' (fieldName a.name) :=
    lacks_of_isWord (isWord_fieldName ha) (by decide)
  have haccessor : Lacks '/' (accessorName a.name) :=
    lacks_of_isWord (isWord_accessorName ha) (by decide)
  have harguments := lacks_newline_attributeArguments a
  simp only [attributeAccess, every_append_iff, every_line_iff, every_blank_iff,
    every_ite_iff]
  refine ⟨⟨⟨⟨⟨⟨?_, every_attributeProperties a⟩, every_deniedStates h _⟩, ?_⟩,
    plainLine_empty _⟩, fun _ => ?_, fun _ => every_nil⟩, fun _ => ?_, fun _ =>
      every_nil⟩
  · refine plainLine_annotation (head_append (head_append (by decide))) ?_
    simp +decide [harguments]
  · exact plainLine_of_lacks_slash (by simp +decide [htype, hfield, hvalue])
  · refine every_method (by simp +decide [htype, haccessor]) ?_
    rw [every_append_iff, every_zone_iff, every_line_iff]
    exact ⟨lacks_lit (by decide), plainLine_of_lacks_slash (by simp +decide [hfield])⟩
  · refine every_method (by simp +decide [htype, haccessor, hfield]) ?_
    rw [every_zone_iff]
    simp +decide [hdash]

theorem every_pipeAccess (h : c.iface.Named c.body) {p : Pipe}
    (hp : Name.IsWord p.name) :
    Every (PlainLine .block) (Lacks '-') (pipeAccess c p) := by
  have hfield : Lacks '/' (fieldName p.name) :=
    lacks_of_isWord (isWord_fieldName hp) (by decide)
  have hdash : Lacks '-' (fieldName p.name) :=
    lacks_of_isWord (isWord_fieldName hp) (by decide)
  have haccessor : Lacks '/' (accessorName p.name) :=
    lacks_of_isWord (isWord_accessorName hp) (by decide)
  have hname := lacks_newline_literal p.name
  simp only [pipeAccess, every_append_iff, every_line_iff, every_blank_iff,
    every_ite_iff]
  refine ⟨⟨⟨⟨⟨?_, every_deniedStates h _⟩, ?_⟩, plainLine_empty _⟩, ?_⟩, fun _ => ?_,
    fun _ => every_nil⟩
  · refine plainLine_annotation (head_append (head_append (by decide))) ?_
    simp +decide [hname]
  · exact plainLine_of_lacks_slash (by simp +decide [hfield])
  · refine every_method (by simp +decide [haccessor]) ?_
    rw [every_append_iff, every_zone_iff, every_line_iff]
    exact ⟨lacks_lit (by decide), plainLine_of_lacks_slash (by simp +decide [hfield])⟩
  · refine every_method (by simp +decide [haccessor, hfield]) ?_
    rw [every_zone_iff]
    simp +decide [hdash]

/-- Free text of a command is in literals only, and the rest is written from names and
types. -/
theorem every_commandMethod (h : c.iface.Named c.body) {cmd : Command}
    (hcmd : Name.IsWord cmd.name) :
    Every (PlainLine .block) (Lacks '-') (commandMethod c cmd) := by
  have hmethod : Lacks '/' (methodName cmd) :=
    lacks_of_isWord (isWord_fieldName hcmd) (by decide)
  have hinput := lacks_slash_typeName cmd.argin.dataType
  have houtput := lacks_slash_typeName cmd.argout.dataType
  have hvalue := lacks_slash_initialValue cmd.argout.dataType 0
  have hname := lacks_newline_literal cmd.name
  have hinputText := lacks_newline_literal cmd.argin.description
  have houtputText := lacks_newline_literal cmd.argout.description
  have hnumber := lacks_repr (c := '\n') (by decide)
  have hparameters : Lacks '/' (if cmd.argin.dataType = .void then ""
      else s!"final {typeName cmd.argin.dataType} argin") := by
    split
    · exact lacks_lit (by decide)
    · simp +decide [hinput]
  simp only [commandMethod, every_append_iff, every_line_iff, every_lines_iff,
    List.forall_mem_map]
  refine ⟨⟨⟨?_, fun period _ => ?_⟩, every_deniedStates h _⟩, every_method ?_ ?_⟩
  · refine plainLine_annotation
      (head_append (head_append (head_append (head_append (by decide))))) ?_
    simp +decide [hname, hinputText, houtputText]
  · refine plainLine_annotation (head_append (head_append (by decide))) ?_
    simp +decide [hnumber]
  · simp +decide [houtput, hmethod, hparameters]
  · simp only [every_append_iff, every_ite_iff, every_zone_iff, every_line_iff]
    refine ⟨⟨⟨fun _ => every_nil, fun _ => ?_⟩, lacks_lit (by decide)⟩,
      fun _ => every_nil, fun _ => plainLine_lit (by decide)⟩
    exact plainLine_of_lacks_slash (by simp +decide [houtput, hvalue])

theorem every_lifecycle (role : ClassRole) {mark head body : String}
    (hmark : Lacks '/' mark) (hhead : Lacks '/' head) (hbody : Q body) :
    Every (PlainLine .block) Q (lifecycle role mark head body) := by
  rw [lifecycle, every_append_iff, every_line_iff]
  exact ⟨plainLine_of_lacks_slash hmark, every_method hhead (every_zone_iff.mpr hbody)⟩

/-- The properties that the class declares itself. -/
theorem isWord_of_mem_properties (h : c.iface.Named c.body)
    {e : MemberKind × Resolved Property} (he : e ∈ c.iface.properties) :
    Name.IsWord e.2.member.name := by
  have hmap : ∀ {own : List String} {m : MemberMap Property},
      (∀ e ∈ m.entries, e.2.Stands own e.1) →
      ∀ r ∈ m.values, Name.IsWord r.member.name := by
    intro own m hm r hr
    obtain ⟨entry, hentry, rfl⟩ := List.mem_map.mp hr
    have hstands := hm entry hentry
    rw [show entry.2.member.name = entry.1 from hstands.name_eq]
    exact Name.isWord_of_isIdentifier hstands.identifier
  rcases List.mem_append.mp he with he | he
  · obtain ⟨r, hr, rfl⟩ := List.mem_map.mp he
    exact hmap h.classProperties r hr
  · obtain ⟨r, hr, rfl⟩ := List.mem_map.mp he
    exact hmap h.deviceProperties r hr

/-- Part by part: fixed lines, names, types and literals. -/
theorem every_classMembers (h : c.iface.Named c.body) :
    Every (PlainLine .block) (Lacks '-') (classMembers c) := by
  have hname : Lacks '/' c.name := lacks_name h (by decide)
  have hstate : Every (PlainLine .block) (Lacks '-') (if c.iface.parent.isNone then
      lines ["@State", "private DevState state = DevState.UNKNOWN;"] ++ blank
        else []) := by
    simp only [every_ite_iff, every_append_iff, every_lines_iff, every_blank_iff,
      List.forall_mem_cons]
    exact ⟨fun _ => ⟨⟨plainLine_lit (by decide), plainLine_lit (by decide), by simp⟩,
      plainLine_empty _⟩, fun _ => every_nil⟩
  have hattributes : ∀ a ∈ c.iface.attributes.locals,
      Every (PlainLine .block) (Lacks '-') (attributeAccess c a) := fun a ha =>
    every_attributeAccess h (isWord_of_mem_locals h.attributes ha)
  have hpipes : ∀ p ∈ c.iface.pipes.locals,
      Every (PlainLine .block) (Lacks '-') (pipeAccess c p) := fun p hp =>
    every_pipeAccess h (isWord_of_mem_locals h.pipes hp)
  have hcommands : ∀ cmd ∈ c.iface.commands.locals,
      Every (PlainLine .block) (Lacks '-') (commandMethod c cmd) := fun cmd hcmd =>
    every_commandMethod h (isWord_of_mem_locals h.commands hcmd)
  have hstart : Lacks '/'
      s!"ServerManager.getInstance().start(args, {c.name}.class);" := by
    simp +decide [hname]
  simp only [classMembers, every_stacked_iff, List.forall_mem_cons, every_zone_iff,
    every_blank_iff, every_line_iff, every_indented_iff,
    every_forEach_iff (f := attributeAccess c), every_forEach_iff (f := pipeAccess c),
    every_forEach_iff (f := commandMethod c)]
  refine ⟨plainLine_empty _, lacks_lit (by decide), plainLine_empty _, hstate, ?_,
    hattributes, hpipes, hcommands, ?_, ?_, ?_, lacks_lit (by decide),
    plainLine_empty _, plainLine_lit (by decide), plainLine_of_lacks_slash hstart,
    plainLine_closeBrace _, List.forall_mem_nil _⟩
  · exact every_forEach_iff.mpr fun e he =>
      every_propertyAccess e.1 (isWord_of_mem_properties h (List.mem_of_mem_filter he))
  · exact every_lifecycle _ (lacks_lit (by decide)) (lacks_lit (by decide))
      (lacks_lit (by decide))
  · exact every_lifecycle _ (lacks_lit (by decide)) (lacks_lit (by decide))
      (lacks_lit (by decide))
  · exact every_lifecycle _ (lacks_lit (by decide)) (lacks_lit (by decide))
      (lacks_lit (by decide))

/-- Below the banner no generated line is a marker. -/
theorem headed_layout (h : c.iface.Named c.body) (file : String) :
    Headed (Banner.ofClass c "//" file) (PlainLine .block) (Lacks '-')
      (layout c file) := by
  have hname : Lacks '/' c.name := lacks_name h (by decide)
  have hlower : Lacks '/' (toLowerAscii c.name) :=
    lacks_of_isWord (isWord_name h).toLowerAscii (by decide)
  have hpackage : Lacks '/' s!"package org.tango.{toLowerAscii c.name};" := by
    simp +decide [hlower]
  have himports : Every (PlainLine .block) (Lacks '-') (lines [
      "import fr.esrf.Tango.DevFailed;",
      "import fr.esrf.Tango.DevState;",
      "import org.tango.DeviceState;",
      "import org.tango.server.InvocationContext;",
      "import org.tango.server.ServerManager;",
      "import org.tango.server.annotation.*;",
      "import org.tango.server.pipe.PipeValue;"]) := by
    simp only [every_lines_iff, List.forall_mem_cons]
    exact ⟨plainLine_lit (by decide), plainLine_lit (by decide),
      plainLine_lit (by decide), plainLine_lit (by decide), plainLine_lit (by decide),
      plainLine_lit (by decide), plainLine_lit (by decide), by simp⟩
  rw [layout]
  refine headed_stacked ?_
  simp only [List.forall_mem_cons, every_line_iff, every_blank_iff, every_zone_iff,
    every_indented_iff]
  refine ⟨plainLine_of_lacks_slash hpackage, plainLine_empty _, himports,
    lacks_lit (by decide), plainLine_empty _, every_classComment h,
    plainLine_lit (by decide), ?_, every_classMembers h, plainLine_closeBrace _,
    List.forall_mem_nil _⟩
  split
  · next parent hparent =>
      have hslash : Lacks '/' parent :=
        Name.notMem_of_isIdentifier (h.parent parent hparent) (by decide)
      exact plainLine_of_lacks_slash (by simp +decide [hname, hslash])
  · exact plainLine_of_lacks_slash (by simp +decide [hname])

end Lines

theorem ownFile_of_mem_skeletons (h : c.iface.Named c.body) {s : Skeleton}
    (hs : s ∈ skeletons c) : OwnFile c.body s := by
  obtain rfl := List.mem_singleton.mp hs
  refine ownFile_file ?_ ((headed_layout h _).bodies (Banner.zoneIds_ofClass _ _)) _ _
  rw [zoneIds_layout]
  exact (ownMembers_localMembers h (fun _ => nodup_accessRoles _ _)
    (fun _ => nodup_accessRoles _ _) fun _ => List.nodup_singleton _).ownZones
      (by decide)

theorem plainTexts_of_mem_skeletons (h : c.iface.Named c.body)
    (hrevision : c.body.revision = some currentRevision) {s : Skeleton}
    (hs : s ∈ skeletons c) : s.PlainTexts := by
  have hstar : Lacks '*' c.name := lacks_name h (by decide)
  obtain rfl := List.mem_singleton.mp hs
  exact plainTexts_file (headed_layout h _) (isWord_name h) hrevision
    (by simp +decide [hstar])

end DeviceForge.Java
