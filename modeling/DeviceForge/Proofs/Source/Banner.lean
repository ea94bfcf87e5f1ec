import DeviceForge.Proofs.Source.Zones
import DeviceForge.Source.Banner
import DeviceForge.Source.Summary

/-!
# Banners and summaries

Banners have no zones.  In a language with block comments they are line
comments, and free text in them is escaped, so no line of a banner or of a
summary is a marker.
-/

namespace DeviceForge

open Layout Text

variable {c : SourceContext}

@[simp]
theorem Banner.zoneIds_ofClass (lead file : String) :
    zoneIds (Banner.ofClass c lead file) = [] := by
  simp only [ofClass, opening, closing]
  split
  · cases c.copyright? <;> simp
  · rfl

theorem SourceContext.isWord_name (h : c.iface.Named c.body) : Name.IsWord c.name :=
  Name.isWord_of_isIdentifier h.name

theorem SourceContext.lacks_name (h : c.iface.Named c.body) {d : Char}
    (hd : Name.isInnerChar d = false) : Lacks d c.name :=
  lacks_of_isWord (isWord_name h) hd

theorem SourceContext.unopened_title (hname : Name.IsWord c.name) :
    Unopened c.title.toList := by
  simp only [title]
  split
  · exact unopened_of_notMem_star (lacks_of_isWord hname (by decide))
  · exact unopened_escapeComment _

namespace Banner

theorem lacks_star_of_mem_licenseText {license : License} {name text : String}
    (hname : Lacks '*' name) (h : text ∈ licenseText license name) :
    Lacks '*' text := by
  have hall : ∀ text ∈ licenseText license name, Lacks '*' text := by
    cases license <;>
      simp only [licenseText, List.forall_mem_cons, lacks_append, hname, true_and] <;>
      repeat' apply And.intro
    all_goals first | exact lacks_lit (by decide) | simp
  exact hall text h

theorem lacks_star_rule : Lacks '*' (rule "//") := by
  decide

/-- The first lines of a banner hold no marker, whatever the file and the title are. -/
theorem every_opening {Q : String → Prop} {file title : String}
    {description : List String} (hfile : Lacks '*' file)
    (htitle : Unopened title.toList) :
    Every (PlainLine .block) Q (opening "//" file title description) := by
  simp only [opening, every_append_iff, every_lines_iff, every_line_iff,
    List.forall_mem_cons, List.forall_mem_map]
  refine ⟨⟨⟨plainLine_of_lacks_star lacks_star_rule, ?_, ?_, ?_, by simp⟩,
    fun text _ => ?_⟩, ?_⟩
  · exact plainLine_of_lacks_star (by simp +decide [hfile])
  · exact plainLine_of_lacks_star (by decide)
  · exact plainLine_of_unopened (unopened_append (by decide) (by decide) htitle)
  · exact plainLine_of_unopened
      (unopened_trimEnd
        (unopened_append (by decide) (by decide) (unopened_escapeComment text)))
  · exact plainLine_of_lacks_star (by decide)

theorem every_closing {Q : String → Prop} {maker : String} (hmaker : Lacks '*' maker) :
    Every (PlainLine .block) Q (closing "//" maker) := by
  simp only [closing, every_append_iff, every_lines_iff, every_blank_iff,
    List.forall_mem_cons]
  refine ⟨⟨plainLine_of_lacks_star lacks_star_rule, ?_,
    plainLine_of_lacks_star lacks_star_rule, by simp⟩, ?_⟩
  · exact plainLine_of_lacks_star (by simp +decide [hmaker])
  · exact plainLine_of_lacks_star (by decide)

/-- No line of a banner is a marker, provided that the class has the revision of
a new one, which the banner does not escape. -/
theorem every_ofClass {Q : String → Prop} (hword : Name.IsWord c.name)
    (hrevision : c.body.revision = some currentRevision) {file : String}
    (hfile : Lacks '*' file) :
    Every (PlainLine .block) Q (Banner.ofClass c "//" file) := by
  have hname : Lacks '*' c.name := lacks_of_isWord hword (by decide)
  have htitle := SourceContext.unopened_title hword
  rw [ofClass]
  split
  · simp only [every_append_iff, every_lines_iff, List.forall_mem_cons,
      List.forall_mem_map]
    refine ⟨⟨⟨⟨every_opening hfile htitle, ?_, ?_, by simp⟩, fun text htext => ?_⟩, ?_⟩,
      ?_⟩
    · exact plainLine_of_unopened (unopened_append (by decide) (by decide) htitle)
    · exact plainLine_of_lacks_star (by decide)
    · have htext := lacks_star_of_mem_licenseText hname htext
      exact plainLine_of_lacks_star (by simp +decide [htext])
    · cases c.copyright? with
      | none => exact every_nil
      | some text =>
          simp only [every_lines_iff, List.forall_mem_cons]
          refine ⟨plainLine_of_lacks_star (by decide), ?_, by simp⟩
          exact plainLine_of_unopened
            (unopened_append (by decide) (by decide) (unopened_escapeComment text))
    · rw [hrevision]
      exact every_closing (by decide)
  · exact every_nil

end Banner

/-- A file of a class is sound, and its zones belong to the class and to members
that the class declares itself. -/
structure OwnFile (body : ClassBody) (s : Skeleton) : Prop where
  sound : s.Sound
  zones : OwnZones body s.zoneIds

namespace SourceContext

variable {l : Layout} {P Q : String → Prop}

theorem ownFile_file (hown : OwnZones c.body (zoneIds l))
    (hbodies : Every P (Lacks '-') l) (name : String) (style : MarkerStyle) :
    OwnFile c.body (c.file name style l) := by
  constructor
  · exact sound_toSkeleton c.settings.allBlank_indentUnit
      c.settings.lacks_newline_indentUnit hown.nodup hown.readable hbodies
  · rw [file, zoneIds_toSkeleton]
    exact hown

/-- A file with a banner has no marker in its generated text if it has none
below the banner. -/
theorem plainTexts_file {name : String}
    (hheaded : Headed (Banner.ofClass c "//" name) (PlainLine .block) Q l)
    (hword : Name.IsWord c.name) (hrevision : c.body.revision = some currentRevision)
    (hname : Lacks '*' name) : (c.file name .block l).PlainTexts :=
  plainTexts_toSkeleton c.settings.allBlank_indentUnit
    c.settings.lacks_newline_indentUnit
      (hheaded.every (Banner.every_ofClass hword hrevision hname))

end SourceContext

namespace Interface

theorem lacks_slash_shape_attribute (a : Attribute) : Lacks '/' a.shape := by
  have htype : Lacks '/' a.dataType.label := by cases a.dataType <;> decide
  have hformat : Lacks '/' a.format.label := by cases a.format <;> decide
  have haccess : Lacks '/' a.access.label := by cases a.access <;> decide
  have hnumber := lacks_repr (c := '/') (by decide)
  rw [Attribute.shape, lacks_append]
  refine ⟨by simp +decide [htype, hformat, haccess], ?_⟩
  cases a.format <;> simp +decide [hnumber]

theorem lacks_slash_shape_command (cmd : Command) : Lacks '/' cmd.shape := by
  have htype : ∀ t : DataType, Lacks '/' t.label := fun t => by cases t <;> decide
  simp +decide [Command.shape, htype]

theorem lacks_slash_shapeOf (i : Interface) (key : MemberKey) :
    Lacks '/' (i.shapeOf key) := by
  rw [shapeOf]
  split
  · cases i.attributes.get? key.name with
    | none => decide
    | some r => exact lacks_slash_shape_attribute r.member
  · cases i.commands.get? key.name with
    | none => decide
    | some r => exact lacks_slash_shape_command r.member
  · decide

variable {i : Interface} {body : ClassBody}

theorem isIdentifier_of_ancestorOf? {α : Type} [Declaration α] {own : List String}
    {m : MemberMap α} (hm : ∀ e ∈ m.entries, e.2.Stands own e.1)
    {name ancestor : String} (h : m.ancestorOf? name = some ancestor) :
    Name.isIdentifier ancestor = true := by
  obtain ⟨r, hr, horigin⟩ := Option.bind_eq_some_iff.mp h
  split at horigin
  · rw [Option.some.injEq] at horigin
    rw [← horigin]
    exact (hm _ (OrderedMap.get?_eq_some_iff.mp hr)).origin
  · exact absurd horigin (by simp)

theorem Named.isIdentifier_of_inheritedFrom? (h : i.Named body) {key : MemberKey}
    {ancestor : String} (hkey : i.inheritedFrom? key = some ancestor) :
    Name.isIdentifier ancestor = true := by
  rw [inheritedFrom?] at hkey
  split at hkey
  · exact isIdentifier_of_ancestorOf? h.attributes hkey
  · exact isIdentifier_of_ancestorOf? h.commands hkey
  · exact isIdentifier_of_ancestorOf? h.classProperties hkey
  · exact isIdentifier_of_ancestorOf? h.deviceProperties hkey
  · exact isIdentifier_of_ancestorOf? h.pipes hkey

theorem isIdentifier_of_mem_keys {α : Type} [Declaration α] {own : List String}
    {m : MemberMap α} (hm : ∀ e ∈ m.entries, e.2.Stands own e.1) {name : String}
    (h : name ∈ m.keys) : Name.isIdentifier name = true := by
  obtain ⟨e, he, rfl⟩ := List.mem_map.mp h
  exact (hm e he).identifier

theorem Named.isIdentifier_of_mem_names (h : i.Named body) {kind : MemberKind}
    {name : String} (hname : name ∈ i.names kind) : Name.isIdentifier name = true := by
  cases kind
  · exact isIdentifier_of_mem_keys h.attributes hname
  · exact isIdentifier_of_mem_keys h.commands hname
  · exact isIdentifier_of_mem_keys h.classProperties hname
  · exact isIdentifier_of_mem_keys h.deviceProperties hname
  · exact isIdentifier_of_mem_keys h.pipes hname

theorem Named.isIdentifier_of_mem_deniedStates (h : i.Named body) {key : MemberKey}
    {state : String} (hstate : state ∈ i.deniedStates key) :
    Name.isIdentifier state = true := by
  rw [deniedStates] at hstate
  split at hstate
  · simp at hstate
  · exact h.states state (List.mem_of_mem_filter hstate)

/-- A line of the summary holds names and shapes, and neither has a slash. -/
theorem Named.lacks_slash_summaryLine (h : i.Named body) {key : MemberKey}
    (hname : Name.isIdentifier key.name = true) : Lacks '/' (i.summaryLine key) := by
  have hkey : Lacks '/' key.name := Name.notMem_of_isIdentifier hname (by decide)
  have hshape := lacks_slash_shapeOf i key
  rw [summaryLine]
  simp only [lacks_append]
  refine ⟨⟨⟨by decide, hkey⟩, ?_⟩, ?_⟩
  · split
    · decide
    · simp +decide [hshape]
  · cases horigin : i.inheritedFrom? key with
    | none => decide
    | some ancestor =>
        have hancestor : Lacks '/' ancestor :=
          Name.notMem_of_isIdentifier (h.isIdentifier_of_inheritedFrom? horigin)
            (by decide)
        simp +decide [hancestor]

theorem Named.lacks_slash_summary (h : i.Named body) {text : String}
    (htext : text ∈ i.summary) : Lacks '/' text := by
  obtain ⟨kind, -, htext⟩ := List.mem_flatMap.mp htext
  split at htext
  · simp at htext
  · next names hnames =>
      rcases List.mem_cons.mp htext with rfl | htext
      · cases kind <;> decide
      · obtain ⟨name, hname, rfl⟩ := List.mem_map.mp htext
        exact h.lacks_slash_summaryLine (h.isIdentifier_of_mem_names hname)

end Interface

namespace SourceContext

@[simp]
theorem zoneIds_classComment : zoneIds c.classComment = [] := by
  simp [classComment]

/-- No line of the documentation of a class is a marker: names and shapes hold no slash,
and free text is escaped. -/
theorem every_classComment {Q : String → Prop} (h : c.iface.Named c.body) :
    Every (PlainLine .block) Q c.classComment := by
  have hname : Lacks '/' c.name := lacks_name h (by decide)
  simp only [classComment, every_append_iff, every_line_iff, every_lines_iff,
    List.forall_mem_cons, List.forall_mem_map]
  refine ⟨⟨⟨⟨⟨plainLine_of_lacks_dash (lacks_lit (by decide)), ?_, by simp⟩,
    fun text _ => ?_⟩, plainLine_lit (by decide)⟩, fun text htext => ?_⟩,
    plainLine_lit (by decide)⟩
  · exact plainLine_of_lacks_slash (by simp +decide [hname])
  · exact plainLine_of_unopened
      (unopened_trimEnd
        (unopened_append (by decide) (by decide) (unopened_escapeComment text)))
  · have hslash := h.lacks_slash_summary htext
    exact plainLine_of_lacks_slash (by simp +decide [hslash])

end SourceContext

end DeviceForge
