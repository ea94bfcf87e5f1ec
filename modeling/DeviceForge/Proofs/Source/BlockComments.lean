import DeviceForge.Proofs.Device.Reachable
import DeviceForge.Proofs.Source.Commented

/-!
# Block comments

A block comment opens and closes on lines of its own.  Free text in between is
escaped, and names and shapes hold no slash, so nothing closes the comment
before its last line.  All other lines hold some character that is neither a
slash nor a star, and open no comment.
-/

namespace DeviceForge

open Layout Text

namespace Layout

/-- Every comment that a line opens is closed by a later line of its own, and nothing
that is written in between closes it, not even together with the characters around it.
-/
def CommentsClosed (l : Layout) : Prop :=
  ∀ before depth rest, l = before ++ .line depth "/**" :: rest →
    ∃ inside after, rest = inside ++ .line depth " */" :: after ∧
      ∀ style content unit,
        ¬ ['*', '/'] <:+: '*' :: '\n' :: written style content unit inside ++ [' ', '*']

def NoOpening (text : String) : Prop :=
  text ≠ "/**"

abbrev Uncommented (l : Layout) : Prop :=
  Every NoOpening (fun _ => True) l

theorem Uncommented.commentsClosed {l : Layout} (h : Uncommented l) :
    CommentsClosed l := by
  intro before depth rest hl
  exact absurd rfl
    (h (.line depth "/**") (hl ▸ List.mem_append_right _ List.mem_cons_self))

/-- Comments of two layouts do not reach into each other. -/
theorem CommentsClosed.append {front back : Layout} (hfront : CommentsClosed front)
    (hback : CommentsClosed back) : CommentsClosed (front ++ back) := by
  intro before depth rest hl
  rcases List.append_eq_append_iff.mp hl with ⟨gap, rfl, hgap⟩ | ⟨gap, rfl, hgap⟩
  · exact hback gap depth rest hgap
  · cases gap with
    | nil => exact hback [] depth rest hgap.symm
    | cons piece gap =>
        -- A comment that the front opens is closed in the front.
        obtain ⟨rfl, rfl⟩ := List.cons.inj hgap
        obtain ⟨inside, after, rfl, hinside⟩ := hfront before depth gap rfl
        exact ⟨inside, after ++ back, by simp, hinside⟩

theorem commentsClosed_forEach {α : Type} {items : List α} {f : α → Layout}
    (h : ∀ item ∈ items, CommentsClosed (f item)) :
    CommentsClosed (forEach items f) := by
  induction items with
  | nil => exact Uncommented.commentsClosed every_nil
  | cons item rest ih =>
      rw [forEach, List.flatMap_cons, ← forEach]
      exact (h item List.mem_cons_self).append
        (ih fun other hother => h other (List.mem_cons_of_mem _ hother))

theorem commentsClosed_stacked {parts : List Layout}
    (h : ∀ part ∈ parts, CommentsClosed part) : CommentsClosed (stacked parts) := by
  have hparts : stacked parts = forEach parts id := List.flatMap_id.symm
  rw [hparts]
  exact commentsClosed_forEach h

/-- Where only one part opens comments, it is enough that it closes them. -/
theorem commentsClosed_stacked_of_part {parts : List Layout} {commented : Layout}
    (hcommented : CommentsClosed commented)
    (h : ∀ part ∈ parts, part = commented ∨ Uncommented part) :
    CommentsClosed (stacked parts) := by
  refine commentsClosed_stacked fun part hpart => ?_
  rcases h part hpart with rfl | hpart
  · exact hcommented
  · exact hpart.commentsClosed

theorem commentsClosed_unlessEmpty {α : Type} (items : List α) {l : Layout}
    (h : CommentsClosed l) : CommentsClosed (unlessEmpty items l) := by
  rw [unlessEmpty]
  split
  · exact Uncommented.commentsClosed every_nil
  · exact h

theorem commentsClosed_ite {p : Prop} [Decidable p] {l : Layout}
    (h : CommentsClosed l) :
    CommentsClosed (if p then l else []) := by
  split
  · exact h
  · exact Uncommented.commentsClosed every_nil

def comment (texts : List String) : Layout :=
  line "/**" ++ lines texts ++ line " */"

/-- What may stand on a line of a comment. -/
structure InComment (text : String) : Prop where
  start : '/' ∉ text.toList.head?
  closes : Apart '*' '/' text.toList

theorem inComment_of_lacks_slash {text : String} (h : Lacks '/' text) :
    InComment text :=
  ⟨fun hhead => h (List.mem_of_mem_head? hhead), apart_of_notMem_right h⟩

/-- Text that closes no comment may follow a lead that does not end with a star. -/
theorem inComment_append {lead text : String} (hlead : Lacks '/' lead) (hne : lead ≠ "")
    (hlast : '*' ∉ lead.toList.getLast?) (htext : Apart '*' '/' text.toList) :
    InComment (lead ++ text) := by
  have hfront := inComment_of_lacks_slash hlead
  constructor
  · rw [String.toList_append, List.head?_append_of_ne_nil _ (by simpa using hne)]
    exact hfront.start
  · rw [String.toList_append]
    exact hfront.closes.append htext hlast

theorem InComment.trimEnd {text : String} (h : InComment text) :
    InComment (trimEnd text) := by
  obtain ⟨back, hback⟩ := dropTrailing_isPrefix text.toList
  constructor
  · intro hhead
    rw [toList_trimEnd] at hhead
    apply h.start
    rw [← hback, List.head?_append, hhead]
    rfl
  · rw [toList_trimEnd]
    exact List.IsChain.prefix h.closes (dropTrailing_isPrefix _)

variable {style : MarkerStyle} {content : ZoneId → Option String} {unit : String}

theorem apart_written_lines_append_iff {texts : List String} {back : List Char} :
    Apart '*' '/' (written style content unit (lines texts) ++ back) ↔
      (∀ text ∈ texts, Apart '*' '/' text.toList) ∧ Apart '*' '/' back := by
  rw [written_lines]
  induction texts with
  | nil => simp
  | cons text rest ih =>
      rw [List.flatMap_cons, List.append_assoc, List.append_assoc,
        List.singleton_append, apart_append_cons_iff (by decide) (by decide), ih,
        List.forall_mem_cons, and_assoc]

/-- A comment around lines that neither open nor close one is closed by its own last
line. -/
theorem commentsClosed_comment {texts : List String}
    (h : ∀ text ∈ texts, InComment text) :
    CommentsClosed (comment texts) := by
  intro before depth rest hl
  have hwhole : comment texts = .line 0 "/**" :: (lines texts ++ [.line 0 " */"]) := rfl
  rw [hwhole] at hl
  cases before with
  | nil =>
      obtain ⟨hopen, rfl⟩ := List.cons.inj hl
      obtain ⟨rfl, -⟩ := Piece.line.inj hopen
      refine ⟨lines texts, [], rfl, fun style content unit => ?_⟩
      have hsplit :
          '*' :: '\n' :: written style content unit (lines texts) ++ [' ', '*'] =
          ['*'] ++ '\n' :: (written style content unit (lines texts) ++ [' ', '*']) :=
        rfl
      rw [← apart_iff_not_isInfix, hsplit,
        apart_append_cons_iff (by decide) (by decide), apart_written_lines_append_iff]
      exact ⟨by decide, fun text htext => (h text htext).closes, by decide⟩
  | cons piece before =>
      -- Only the first line opens a comment.
      obtain ⟨-, hrest⟩ := List.cons.inj hl
      have hmem : Piece.line depth "/**" ∈ lines texts ++ [.line 0 " */"] := by
        simp [hrest]
      rw [List.mem_append, List.mem_singleton] at hmem
      rcases hmem with hmem | hmem
      · obtain ⟨text, htext, heq⟩ := List.mem_map.mp hmem
        obtain ⟨-, rfl⟩ := Piece.line.inj heq
        exact absurd rfl (h "/**" htext).start
      · exact absurd (Piece.line.inj hmem).2 (by decide)

/-! ## Lines of code -/

/-- Some character of the text is neither a slash nor a star.  It is looked for among
the bytes of the text, so that a text that is written out need not be taken apart into
characters. -/
def Worded (text : String) : Prop :=
  (text.toByteArray.data.toList.any fun b => b ≠ '/'.toUInt8 ∧ b ≠ '*'.toUInt8) = true

instance (text : String) : Decidable (Worded text) :=
  inferInstanceAs (Decidable (_ = true))

@[simp]
theorem worded_append {s t : String} : Worded (s ++ t) ↔ Worded s ∨ Worded t := by
  rw [Worded, String.toByteArray_append, ByteArray.data_append, Array.toList_append,
    List.any_append, Bool.or_eq_true]
  rfl

@[simp]
theorem worded_toString {s : String} : Worded (toString s) ↔ Worded s :=
  Iff.rfl

@[simp]
theorem noOpening_of_worded {text : String} (h : Worded text) : NoOpening text := by
  rintro rfl
  exact absurd h (by decide)

@[simp]
theorem noOpening_empty : NoOpening "" := by
  rw [NoOpening]
  decide

end Layout

namespace Banner

variable {c : SourceContext} {file : String}

/-- A line comment opens no block comment, not even if its end is trimmed. -/
theorem noOpening_trimEnd {text : String} (h : ['/', '/'] <+: text.toList) :
    NoOpening (trimEnd text) := by
  intro hline
  obtain ⟨back, hback⟩ := dropTrailing_isPrefix text.toList
  rw [← toList_trimEnd, hline] at hback
  rw [← hback] at h
  exact absurd (List.cons_prefix_cons.mp (List.cons_prefix_cons.mp h).2).1 (by decide)

/-- A banner consists of line comments. -/
theorem uncommented_ofClass : Uncommented (ofClass c "//" file) := by
  have hlead : NoOpening "//" := by
    rw [NoOpening]
    decide
  have hrule : Worded (rule "//") := by decide
  have hdescription :
      ∀ text, NoOpening (trimEnd ("//               " ++ escapeComment text)) := by
    intro text
    apply noOpening_trimEnd
    rw [String.toList_append]
    exact (by decide : ['/', '/'] <+: "//               ".toList).trans
      (List.prefix_append _ _)
  rw [ofClass]
  split
  · cases c.copyright? <;>
      simp +decide [opening, closing, hlead, hrule, hdescription]
  · exact every_nil

end Banner

namespace SourceContext

variable {c : SourceContext}

/-- Nothing in the documentation of a class closes it before its end: names and shapes
hold no slash, and free text is escaped. -/
theorem commentsClosed_classComment (h : c.iface.Named c.body) :
    CommentsClosed c.classComment := by
  have hname : Lacks '/' c.name := lacks_name h (by decide)
  have hcomment : c.classComment = comment ([s!" *  {c.name} class description:"] ++
      c.description.map (fun text => trimEnd (" *    " ++ escapeComment text)) ++
      [" *"] ++ c.iface.summary.map (" *  " ++ ·)) := by
    simp [classComment, comment, Layout.lines, line]
  rw [hcomment]
  apply commentsClosed_comment
  simp only [List.forall_mem_append, List.forall_mem_singleton, List.forall_mem_map]
  refine ⟨⟨⟨?_, fun text _ => ?_⟩, inComment_of_lacks_slash (lacks_lit (by decide))⟩,
    fun text htext => ?_⟩
  · exact inComment_of_lacks_slash (by simp +decide [hname])
  · exact (inComment_append (lacks_lit (by decide)) (by decide) (by decide)
      (unclosed_escapeComment text)).trimEnd
  · have hslash := h.lacks_slash_summary htext
    exact inComment_of_lacks_slash (by simp +decide [hslash])

theorem opening_mem_classComment (c : SourceContext) :
    Piece.line 0 "/**" ∈ c.classComment := by
  simp [classComment, Layout.lines]

end SourceContext

namespace Cpp

variable {c : SourceContext}

open SourceContext

section Uncommented

theorem uncommented_traceEntry (what : String) : Uncommented (traceEntry what) := by
  simp +decide [traceEntry]

theorem uncommented_method {signature : String} {body : Layout}
    (hsignature : Worded signature) (hbody : Uncommented body) :
    Uncommented (method signature body) := by
  simp +decide [method, hsignature, hbody]

theorem uncommented_attributePrototypes (a : Attribute) :
    Uncommented (attributePrototypes a) := by
  simp +decide [attributePrototypes]

theorem uncommented_pipePrototypes (p : Pipe) : Uncommented (pipePrototypes p) := by
  simp +decide [pipePrototypes]

theorem uncommented_commandPrototypes (cmd : Command) :
    Uncommented (commandPrototypes cmd) := by
  simp +decide [commandPrototypes]

theorem uncommented_propertyFields : Uncommented (propertyFields c) := by
  refine every_unlessEmpty ?_
  simp +decide

theorem uncommented_attributeFields : Uncommented (attributeFields c) := by
  refine every_unlessEmpty ?_
  simp +decide

theorem uncommented_classMembers : Uncommented (classMembers c) := by
  have hproperties := uncommented_propertyFields (c := c)
  have hattributes := uncommented_attributeFields (c := c)
  have hattribute := uncommented_attributePrototypes
  have hpipe := uncommented_pipePrototypes
  have hcommand := uncommented_commandPrototypes
  simp +decide [classMembers, every_unlessEmpty, hproperties, hattributes,
    hattribute, hpipe, hcommand]

theorem uncommented_outputVariable (t : DataType) : Uncommented (outputVariable t) := by
  simp +decide [outputVariable]

theorem noOpening_of_mem_stateCondition {opening : String} {states : List String}
    {text : String} (h : text ∈ stateCondition opening states) : NoOpening text := by
  induction states generalizing opening with
  | nil => simp [stateCondition] at h
  | cons state rest ih =>
      cases rest with
      | nil =>
          rw [stateCondition, List.mem_singleton] at h
          simp +decide [h]
      | cons next others =>
          rw [stateCondition, List.mem_cons] at h
          · rcases h with rfl | h
            · simp +decide
            · exact ih h
          · simp

end Uncommented

section Closed

/-- The comment before a method closes if its free text holds no end of a comment. -/
theorem commentsClosed_methodComment {method description : String}
    (hmethod : Lacks '/' method) (hdescription : Apart '*' '/' description.toList) :
    CommentsClosed (methodComment method description) := by
  have hseparator : Uncommented (line separator) := by simp +decide
  have htexts : ∀ text ∈ [" *\tMethod      : " ++ method,
      " *\tDescription : " ++ description], InComment text := by
    simp only [List.forall_mem_cons]
    refine ⟨inComment_of_lacks_slash ?_, ?_, by simp⟩
    · exact lacks_append.mpr ⟨lacks_lit (by decide), hmethod⟩
    · exact inComment_append (lacks_lit (by decide)) (by decide)
        (by decide) hdescription
  exact (hseparator.commentsClosed.append (commentsClosed_comment htexts)).append
    hseparator.commentsClosed

theorem commentsClosed_methodHeading {method : String} (hmethod : Lacks '/' method)
    (description : String) : CommentsClosed (methodHeading method description) :=
  commentsClosed_methodComment hmethod (unclosed_escapeComment description)

/-- A method below its heading. -/
theorem commentsClosed_headed {name description signature : String} {body : Layout}
    (hname : Lacks '/' name) (hsignature : Worded signature)
    (hbody : Uncommented body) :
    CommentsClosed (methodHeading name description ++ method signature body) :=
  (commentsClosed_methodHeading hname description).append
    (uncommented_method hsignature hbody).commentsClosed

theorem commentsClosed_constructor (h : c.iface.Named c.body) :
    CommentsClosed (constructor c) := by
  have hname : Lacks '/' c.name := lacks_name h (by decide)
  have hcode : Uncommented
      (lines [s!"{c.name}::{c.name}(Tango::DeviceClass *cl, std::string &s)",
        s!" : {baseClass c}(cl, s.c_str())"] ++
          (braced (line "init_device();") ++ blank)) := by
    simp +decide
  rw [constructor, List.append_assoc, List.append_assoc]
  exact (commentsClosed_methodHeading (by simp +decide [hname]) _).append
    hcode.commentsClosed

theorem commentsClosed_deleteDevice (h : c.iface.Named c.body) :
    CommentsClosed (deleteDevice c) := by
  have hname : Lacks '/' c.name := lacks_name h (by decide)
  refine commentsClosed_headed (by simp +decide [hname]) (by simp +decide) ?_
  simp +decide [traceEntry]

theorem commentsClosed_initDevice (h : c.iface.Named c.body) :
    CommentsClosed (initDevice c) := by
  have hname : Lacks '/' c.name := lacks_name h (by decide)
  refine commentsClosed_headed (by simp +decide [hname]) (by simp +decide) ?_
  simp +decide [traceEntry]

theorem commentsClosed_propertyReader (h : c.iface.Named c.body) :
    CommentsClosed (propertyReader c) := by
  have hname : Lacks '/' c.name := lacks_name h (by decide)
  refine commentsClosed_headed (by simp +decide [hname]) (by simp +decide)
    (every_unlessEmpty ?_)
  simp +decide [readProperty]

theorem commentsClosed_alwaysExecutedHook (h : c.iface.Named c.body) :
    CommentsClosed (alwaysExecutedHook c) := by
  have hname : Lacks '/' c.name := lacks_name h (by decide)
  refine commentsClosed_headed (by simp +decide [hname]) (by simp +decide) ?_
  simp +decide [traceEntry]

theorem commentsClosed_readHardware (h : c.iface.Named c.body) :
    CommentsClosed (readHardware c) := by
  have hname : Lacks '/' c.name := lacks_name h (by decide)
  exact commentsClosed_headed (by simp +decide [hname]) (by simp +decide)
    (uncommented_traceEntry _)

/-- The methods of an attribute have one comment each. -/
theorem commentsClosed_attributeMethods (h : c.iface.Named c.body) {a : Attribute}
    (ha : Name.IsWord a.name) : CommentsClosed (attributeMethods c a) := by
  have hname : Lacks '/' c.name := lacks_name h (by decide)
  have hslash : Lacks '/' a.name := lacks_of_isWord ha (by decide)
  have hread : CommentsClosed (readAttribute c a) := by
    refine commentsClosed_headed (by simp +decide [hname, hslash]) (by simp +decide) ?_
    simp +decide [traceEntry]
  have hwrite : CommentsClosed (writeAttribute c a) := by
    refine commentsClosed_headed (by simp +decide [hname, hslash]) (by simp +decide) ?_
    cases a.format <;> simp +decide [traceEntry]
  rw [attributeMethods]
  exact (commentsClosed_ite hread).append (commentsClosed_ite hwrite)

theorem commentsClosed_pipeMethods (h : c.iface.Named c.body) {p : Pipe}
    (hp : Name.IsWord p.name) : CommentsClosed (pipeMethods c p) := by
  have hname : Lacks '/' c.name := lacks_name h (by decide)
  have hslash : Lacks '/' p.name := lacks_of_isWord hp (by decide)
  have hread : CommentsClosed (readPipe c p) := by
    refine commentsClosed_headed (by simp +decide [hname, hslash]) (by simp +decide) ?_
    simp +decide [traceEntry]
  have hwrite : CommentsClosed (writePipe c p) := by
    refine commentsClosed_headed (by simp +decide [hname, hslash]) (by simp +decide) ?_
    simp +decide [traceEntry]
  rw [pipeMethods]
  exact hread.append (commentsClosed_ite hwrite)

theorem commentsClosed_commandMethod (h : c.iface.Named c.body) {cmd : Command}
    (hcmd : Name.IsWord cmd.name) : CommentsClosed (commandMethod c cmd) := by
  have hname : Lacks '/' c.name := lacks_name h (by decide)
  have hmethod : Lacks '/' (methodName cmd) :=
    lacks_of_isWord hcmd.snakeCase (by decide)
  have hvariable := uncommented_outputVariable cmd.argout.dataType
  refine commentsClosed_headed (by simp +decide [hname, hmethod]) (by simp +decide) ?_
  simp +decide [hvariable]

/-- The only comment is the one before the method. -/
theorem commentsClosed_isAllowed (h : c.iface.Named c.body) (key : MemberKey)
    (hkey : Name.IsWord key.name) (parameters : String) :
    CommentsClosed (isAllowed c key parameters) := by
  have hname : Lacks '/' c.name := lacks_name h (by decide)
  have hslash : Lacks '/' key.name := lacks_of_isWord hkey (by decide)
  have hkind : Lacks '/' key.kind.label := by cases key.kind <;> decide
  rw [isAllowed]
  refine (commentsClosed_methodComment (by simp +decide [hname, hslash]) ?_).append
    (uncommented_method (by simp +decide) ?_).commentsClosed
  · exact apart_of_notMem_right (by simpa +decide [Lacks] using ⟨hslash, hkind⟩)
  · refine every_append_iff.mpr ⟨?_, by simp +decide⟩
    split
    · simp +decide
    · simp only [every_append_iff, every_line_iff, every_lines_iff, every_braced_iff,
        every_zone_iff]
      refine ⟨⟨by simp +decide, fun text => noOpening_of_mem_stateCondition⟩,
        by simp +decide⟩

theorem commentsClosed_headerLayout (h : c.iface.Named c.body) (file : String) :
    CommentsClosed (headerLayout c file) := by
  have hbanner : Uncommented (Banner.ofClass c "//" file) := Banner.uncommented_ofClass
  have hmembers : Uncommented (classMembers c) := uncommented_classMembers
  refine commentsClosed_stacked_of_part (commentsClosed_classComment h) ?_
  simp +decide [hbanner, hmembers]

theorem opening_mem_headerLayout (c : SourceContext) (file : String) :
    Piece.line 0 "/**" ∈ headerLayout c file :=
  mem_stacked (by simp only [List.mem_cons, true_or, or_true])
    (opening_mem_classComment c)

/-- Part by part: most open no comment, and those with comments close them. -/
theorem commentsClosed_implementationLayout (h : c.iface.Named c.body) (file : String) :
    CommentsClosed (implementationLayout c file) := by
  have hattributes :
      CommentsClosed (forEach c.iface.attributes.locals (attributeMethods c)) :=
    commentsClosed_forEach fun a ha =>
      commentsClosed_attributeMethods h (isWord_of_mem_locals h.attributes ha)
  have hpipes : CommentsClosed (forEach c.iface.pipes.locals (pipeMethods c)) :=
    commentsClosed_forEach fun p hp =>
      commentsClosed_pipeMethods h (isWord_of_mem_locals h.pipes hp)
  have hcommands : CommentsClosed (forEach c.iface.commands.locals (commandMethod c)) :=
    commentsClosed_forEach fun cmd hcmd =>
      commentsClosed_commandMethod h (isWord_of_mem_locals h.commands hcmd)
  have hadditional :
      CommentsClosed (methodHeading s!"{c.name}::additional_methods()"
        "Additional methods") := by
    have hname : Lacks '/' c.name := lacks_name h (by decide)
    exact commentsClosed_methodHeading (by simp +decide [hname]) _
  have hbanner : Uncommented (Banner.ofClass c "//" file) := Banner.uncommented_ofClass
  refine commentsClosed_stacked ?_
  simp +decide [Uncommented.commentsClosed, hbanner, commentsClosed_constructor h,
    commentsClosed_deleteDevice h, commentsClosed_initDevice h,
    commentsClosed_propertyReader h, commentsClosed_alwaysExecutedHook h,
    commentsClosed_readHardware h, hattributes, hpipes, hcommands, hadditional]

theorem uncommented_sectionHeading (title : String) :
    Uncommented (sectionHeading title) := by
  simp +decide [sectionHeading]

/-- Part by part, as for the implementation. -/
theorem commentsClosed_stateMachineLayout (h : c.iface.Named c.body) (file : String) :
    CommentsClosed (stateMachineLayout c file) := by
  have hbanner : Uncommented (Banner.ofClass c "//" file) := Banner.uncommented_ofClass
  have hsection : ∀ title, CommentsClosed (sectionHeading title) := fun title =>
    (uncommented_sectionHeading title).commentsClosed
  have hattributes : CommentsClosed (forEach c.iface.attributes.locals fun a =>
      isAllowed c ⟨.attribute, a.name⟩ "TANGO_UNUSED(Tango::AttReqType type)") :=
    commentsClosed_forEach fun a ha =>
      commentsClosed_isAllowed h _ (isWord_of_mem_locals h.attributes ha) _
  have hpipes : CommentsClosed (forEach c.iface.pipes.locals fun p =>
      isAllowed c ⟨.pipe, p.name⟩ "TANGO_UNUSED(Tango::PipeReqType type)") :=
    commentsClosed_forEach fun p hp =>
      commentsClosed_isAllowed h _ (isWord_of_mem_locals h.pipes hp) _
  have hcommands : CommentsClosed (forEach c.iface.commands.locals fun cmd =>
      isAllowed c ⟨.command, cmd.name⟩ "TANGO_UNUSED(const CORBA::Any &any)") :=
    commentsClosed_forEach fun cmd hcmd =>
      commentsClosed_isAllowed h _ (isWord_of_mem_locals h.commands hcmd) _
  have hpipeSection := commentsClosed_unlessEmpty c.iface.pipes.locals
    ((hsection "Pipe Allowed Methods").append hpipes)
  refine commentsClosed_stacked ?_
  simp +decide [Uncommented.commentsClosed, hbanner, hsection, hattributes,
    hpipeSection, hcommands]

end Closed

end Cpp

namespace Java

variable {c : SourceContext}

theorem uncommented_deniedStates (key : MemberKey) :
    Uncommented (deniedStates c key) := by
  rw [deniedStates]
  split
  · exact every_nil
  · simp +decide

theorem uncommented_propertyAccess (kind : MemberKind) (p : Property) :
    Uncommented (propertyAccess kind p) := by
  simp +decide [propertyAccess, method]

theorem uncommented_attributeAccess (a : Attribute) :
    Uncommented (attributeAccess c a) := by
  have hdenied := uncommented_deniedStates (c := c) ⟨.attribute, a.name⟩
  simp +decide [attributeAccess, attributeProperties, method, hdenied]

theorem uncommented_pipeAccess (p : Pipe) : Uncommented (pipeAccess c p) := by
  have hdenied := uncommented_deniedStates (c := c) ⟨.pipe, p.name⟩
  simp +decide [pipeAccess, method, hdenied]

theorem uncommented_commandMethod (cmd : Command) :
    Uncommented (commandMethod c cmd) := by
  have hdenied := uncommented_deniedStates (c := c) ⟨.command, cmd.name⟩
  simp +decide [commandMethod, method, hdenied]

theorem uncommented_classMembers : Uncommented (classMembers c) := by
  have hattributes := uncommented_attributeAccess (c := c)
  have hpipes := uncommented_pipeAccess (c := c)
  have hcommands := uncommented_commandMethod (c := c)
  have hproperties := uncommented_propertyAccess
  simp +decide [classMembers, lifecycle, method, hattributes, hpipes, hcommands,
    hproperties]

theorem commentsClosed_layout (h : c.iface.Named c.body) (file : String) :
    CommentsClosed (layout c file) := by
  have hbanner : Uncommented (Banner.ofClass c "//" file) := Banner.uncommented_ofClass
  have hmembers : Uncommented (classMembers c) := uncommented_classMembers
  refine commentsClosed_stacked_of_part (SourceContext.commentsClosed_classComment h) ?_
  cases c.iface.parent <;> simp +decide [hbanner, hmembers]

end Java

/-! ## Files -/

/-- The layouts of the files of a class, with the names of the files. -/
def Language.layouts (c : SourceContext) : Language → List (String × Layout)
  | .cpp =>
      let header := c.name ++ ".h"
      let implementation := c.name ++ ".cpp"
      let stateMachine := c.name ++ "StateMachine.cpp"
      [(header, Cpp.headerLayout c header),
        (implementation, Cpp.implementationLayout c implementation),
        (stateMachine, Cpp.stateMachineLayout c stateMachine)]
  | .java =>
      let file := c.name ++ ".java"
      [(file, Java.layout c file)]
  | .python =>
      let file := c.name ++ ".py"
      [(file, Python.layout c file)]
  | .pythonHL =>
      let file := c.name ++ ".py"
      [(file, PythonHL.layout c file)]

theorem Language.skeletons_eq_map_layouts (c : SourceContext) (language : Language) :
    language.skeletons c =
      (language.layouts c).map fun e => c.file e.1 (.ofLanguage language) e.2 := by
  cases language <;> rfl

/-- All files of a class close their comments, in both languages that have any. -/
theorem Language.commentsClosed_of_mem_layouts {c : SourceContext}
    (h : c.iface.Named c.body) {language : Language}
    (hlanguage : language.hasBlockComments = true) {e : String × Layout}
    (he : e ∈ language.layouts c) : CommentsClosed e.2 := by
  cases language with
  | cpp =>
      simp only [layouts, List.mem_cons, List.not_mem_nil, or_false] at he
      rcases he with rfl | rfl | rfl
      · exact Cpp.commentsClosed_headerLayout h _
      · exact Cpp.commentsClosed_implementationLayout h _
      · exact Cpp.commentsClosed_stateMachineLayout h _
  | java =>
      obtain rfl := List.mem_singleton.mp he
      exact Java.commentsClosed_layout h _
  | python => exact absurd hlanguage (by decide)
  | pythonHL => exact absurd hlanguage (by decide)

/-- Escaping takes both ends of a block comment out of a text once and for all, and adds
only spaces. In every file of a class in a language with block comments, each comment
that a line opens is closed by its own last line and by nothing before, whatever texts
the class holds. -/
theorem blockComments_closed :
    (∀ s : String,
      ¬ ['*', '/'] <:+: (escapeComment s).toList ∧
      ¬ ['/', '*'] <:+: (escapeComment s).toList ∧
      escapeComment (escapeComment s) = escapeComment s ∧
      (escapeComment s).toList.filter (· ≠ ' ') = s.toList.filter (· ≠ ' ')) ∧
    ∀ (settings : Settings) (cls : DeviceClass), cls.Checked → ∀ iface issues,
      cls.resolve = .ok (iface, issues) →
      let c : SourceContext := ⟨iface, cls.toClassBody, settings⟩
      ∀ language : Language, language.hasBlockComments = true →
        ∀ files, emit language c = .ok files → ∀ s ∈ files, ∃ l,
          (s.file, l) ∈ language.layouts c ∧ s = c.file s.file .block l ∧
          (∀ content, (s.render content).toList =
            written .block content settings.indentUnit l) ∧
          CommentsClosed l := by
  constructor
  · intro s
    exact ⟨apart_iff_not_isInfix.mp (unclosed_escapeComment s),
      apart_iff_not_isInfix.mp (unopened_escapeComment s),
      escapeComment_escapeComment s, filter_space_escapeComment s⟩
  · intro settings cls hcls iface issues hresolve c language hlanguage files hemit s hs
    obtain ⟨hnamed, -⟩ := hcls.named.resolve hresolve
    rw [eq_of_emit hemit, Language.skeletons_eq_map_layouts] at hs
    obtain ⟨⟨file, l⟩, hl, rfl⟩ := List.mem_map.mp hs
    have hstyle : MarkerStyle.ofLanguage language = .block := if_pos hlanguage
    rw [hstyle]
    exact ⟨l, hl, rfl, fun content => toList_render_toSkeleton file l,
      Language.commentsClosed_of_mem_layouts hnamed hlanguage hl⟩

/-- An axis whose texts hold both ends of a block comment, also where escaping one end
moves next to the other. -/
def commentedAxis : DeviceClass where
  name := "Axis"
  language := .cpp
  metadata := { description := "*/*\n/**/ //**" }
  commands := [{ name := "Halt", description := "**//\n*/" }]
  pipes := [{ name := "Trace", description := "/*/" }]

theorem checked_commentedAxis : commentedAxis.Checked := by
  have hstart : DeviceClass.ofText "axis" .cpp =
      .ok { name := "Axis", language := .cpp } := rfl
  have hedits : DeviceClass.applyAll { name := "Axis", language := .cpp }
      [.members (.add (.command { name := "Halt", description := "**//\n*/" })),
        .members (.add (.pipe { name := "Trace", description := "/*/" }))] =
        .ok { commentedAxis with metadata := {} } := rfl
  have hreachable := (DeviceClass.Reachable.ofText hstart).applyAll
    (by simp [ClassEdit.attached?]) hedits
  exact .describe hreachable.checked ⟨rfl, rfl, rfl, rfl⟩

theorem blockComments_closed_commentedAxis :
    escapeComment "**//" = "** //" ∧
    ∃ iface issues files, commentedAxis.resolve = .ok (iface, issues) ∧
      let c : SourceContext := ⟨iface, commentedAxis.toClassBody, {}⟩
      emit .cpp c = .ok files ∧ Piece.line 0 "/**" ∈ Cpp.headerLayout c "Axis.h" ∧
      ∀ s ∈ files, ∃ l, (s.file, l) ∈ Language.cpp.layouts c ∧ CommentsClosed l := by
  obtain ⟨iface, issues, files, hresolve, hemit⟩ :
      ∃ iface issues files, commentedAxis.resolve = .ok (iface, issues) ∧
        emit .cpp ⟨iface, commentedAxis.toClassBody, {}⟩ = .ok files :=
    ⟨_, _, _, rfl, rfl⟩
  refine ⟨by decide +kernel, iface, issues, files, hresolve, hemit, ?_, fun s hs => ?_⟩
  · exact Cpp.opening_mem_headerLayout _ _
  · obtain ⟨l, hl, -, -, hclosed⟩ :=
      blockComments_closed.2 {} _ checked_commentedAxis _ _ hresolve _ rfl _ hemit s hs
    exact ⟨l, hl, hclosed⟩

end DeviceForge
