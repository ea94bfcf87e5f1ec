import DeviceForge.Proofs.Generation
import DeviceForge.Proofs.Inheritance
import DeviceForge.Proofs.Source.Written

/-!
# Lines of a banner

A banner is made of line comments, and free text in it is escaped as for a block
comment.  Only the description is taken apart into lines.  Any other text with
a line feed goes on in a line of its own, which the escaping does not change.
-/

namespace DeviceForge

open Text

namespace Text

/-- Every line is blank or starts like a comment. -/
def Commented (lead : String) (cs : List Char) : Prop :=
  ∀ line ∈ splitLines cs, AllBlank line ∨ lead.toList <+: line

instance (lead : String) (cs : List Char) : Decidable (Commented lead cs) :=
  inferInstanceAs (Decidable (∀ line ∈ splitLines cs, _ ∨ _))

/-- Behind the lead of a comment, the text stays in comments: each line after its first
is blank or starts like a comment. -/
def StaysBehind (lead text : String) : Prop :=
  ∀ line ∈ (splitLines (text.toList ++ ['\n'])).tail, AllBlank line ∨
    lead.toList <+: line

instance (lead text : String) : Decidable (StaysBehind lead text) :=
  inferInstanceAs (Decidable (∀ line ∈ (splitLines _).tail, _ ∨ _))

variable {lead front text : String}

theorem commented_append_iff {cs : List Char} (hcs : Complete cs) (back : List Char) :
    Commented lead (cs ++ back) ↔ Commented lead cs ∧ Commented lead back := by
  rw [Commented, splitLines_append hcs, List.forall_mem_append]
  rfl

/-- A line that starts like a comment and holds free text is a comment if that text
stays behind. -/
theorem commented_line_iff (hlead : Lacks '\n' lead) :
    Commented lead ((lead ++ text).toList ++ ['\n']) ↔ StaysBehind lead text := by
  obtain ⟨first, rest, hlines, hwhole⟩ :=
    Layout.splitLines_append_of_notMem hlead (List.concat_ne_nil '\n' text.toList)
  have hcomment : lead.toList <+: lead.toList ++ first := List.prefix_append _ _
  rw [Commented, StaysBehind, String.toList_append, List.append_assoc, hwhole, hlines]
  simp [hcomment]

/-- Text without a line feed leads over to the text behind it. -/
theorem staysBehind_append_iff (hfront : Lacks '\n' front) :
    StaysBehind lead (front ++ text) ↔ StaysBehind lead text := by
  obtain ⟨first, rest, hlines, hwhole⟩ :=
    Layout.splitLines_append_of_notMem hfront (List.concat_ne_nil '\n' text.toList)
  rw [StaysBehind, StaysBehind, String.toList_append, List.append_assoc, hwhole, hlines]
  rfl

theorem staysBehind_of_lacks (h : Lacks '\n' text) : StaysBehind lead text := by
  rw [StaysBehind, splitLines_line h]
  simp

theorem lacks_newline_of_mem_lines {s : String} (h : text ∈ Text.lines s) :
    Lacks '\n' text := by
  obtain ⟨line, hline, rfl⟩ := List.mem_map.mp h
  exact lacks_ofList.mpr (newline_notMem_chomp hline)

/-- Trimming its end leaves a line the comment that it is. -/
theorem commented_trimEnd (hlead : Lacks '\n' lead)
    (htrimmed : dropTrailing lead.toList = lead.toList) (htext : Lacks '\n' text) :
    Commented lead ((trimEnd (lead ++ text)).toList ++ ['\n']) := by
  have hkept : lead.toList <+: dropTrailing (lead.toList ++ text.toList) := by
    by_cases hall : AllBlank text.toList
    · rw [dropTrailing_append_of_allBlank hall, htrimmed]
    · have hne : (text.toList.reverse.dropWhile isBlank).isEmpty = false := by
        rw [List.isEmpty_eq_false_iff, Ne, List.dropWhile_eq_nil_iff]
        exact fun hblanks => hall fun c hc => hblanks c (List.mem_reverse.mpr hc)
      rw [dropTrailing, List.reverse_append, List.dropWhile_append, hne,
        if_neg (by simp), List.reverse_append, List.reverse_reverse]
      exact List.prefix_append _ _
  have hline : '\n' ∉ dropTrailing (lead.toList ++ text.toList) := by
    intro hmem
    rcases List.mem_append.mp ((dropTrailing_isPrefix _).subset hmem) with hmem | hmem
    · exact hlead hmem
    · exact htext hmem
  rw [Commented, toList_trimEnd, String.toList_append, splitLines_line hline]
  exact List.forall_mem_singleton.mpr (Or.inr (hkept.trans (List.prefix_append _ _)))

section Separate

variable {a b : Char}

theorem exists_splitLines_cons (c : Char) (cs : List Char) :
    ∃ line rest, splitLines (c :: cs) = (c :: line) :: rest := by
  by_cases hc : c = '\n'
  · exact ⟨[], splitLines cs, by rw [hc, splitLines_newline_cons]⟩
  · rw [splitLines_cons_of_ne hc]
    cases splitLines cs with
    | nil => exact ⟨[], [], rfl⟩
    | cons line rest => exact ⟨line, rest, rfl⟩

/-- Text is separated line by line. -/
theorem splitLines_separate (ha : a ≠ '\n') (cs : List Char) :
    splitLines (separate a b cs) = (splitLines cs).map (separate a b) := by
  fun_induction separate a b cs with
  | case1 => rfl
  | case2 c => by_cases hc : c = '\n' <;> simp [splitLines, hc, separate]
  | case3 c d rest hpair ih =>
      obtain ⟨rfl, rfl⟩ := hpair
      obtain ⟨line, others, hlines⟩ := exists_splitLines_cons d rest
      rw [splitLines_cons_of_ne ha, splitLines_cons_of_ne (by decide),
        splitLines_cons_of_ne ha, ih, hlines]
      simp [separate]
  | case4 c d rest hpair ih =>
      obtain ⟨line, others, hlines⟩ := exists_splitLines_cons d rest
      by_cases hc : c = '\n'
      · subst hc
        rw [splitLines_newline_cons, splitLines_newline_cons, ih]
        rfl
      · rw [splitLines_cons_of_ne hc, splitLines_cons_of_ne hc, ih, hlines]
        simp [separate, hpair]

/-- A line feed at the end is no part of a pair. -/
theorem separate_concat_newline (hb : b ≠ '\n') (cs : List Char) :
    separate a b (cs ++ ['\n']) = separate a b cs ++ ['\n'] := by
  fun_induction separate a b cs with
  | case1 => rfl
  | case2 c => simp [separate, Ne.symm hb]
  | case3 c d rest hpair ih =>
      rw [List.cons_append, List.cons_append, separate, if_pos hpair,
        ← List.cons_append, ih]
      rfl
  | case4 c d rest hpair ih =>
      rw [List.cons_append, List.cons_append, separate, if_neg hpair,
        ← List.cons_append, ih]
      rfl

theorem allBlank_separate_iff (ha : isBlank a = false) {cs : List Char} :
    AllBlank (separate a b cs) ↔ AllBlank cs := by
  fun_induction separate a b cs with
  | case1 => rfl
  | case2 c => rfl
  | case3 c d rest hpair ih => simp [AllBlank, hpair.1, ha]
  | case4 c d rest hpair ih =>
      simp only [AllBlank, List.forall_mem_cons (a := c)] at ih ⊢
      rw [ih]

/-- Separating a line does not change how it starts. -/
theorem prefix_separate_iff {lead cs : List Char} (hspace : ' ' ∉ lead)
    (hlead : ¬ (a ∈ lead ∧ b ∈ lead)) : lead <+: separate a b cs ↔ lead <+: cs := by
  induction lead generalizing cs with
  | nil => simp
  | cons l lead ih =>
      rw [List.mem_cons, not_or] at hspace
      have hrest : ¬ (a ∈ lead ∧ b ∈ lead) := fun h =>
        hlead (h.imp (List.mem_cons_of_mem l) (List.mem_cons_of_mem l))
      match cs with
      | [] => rfl
      | [c] => rfl
      | c :: d :: rest =>
          rw [separate]
          split
          · next hpair =>
              rw [List.cons_prefix_cons, List.cons_prefix_cons, hpair.1, hpair.2]
              refine and_congr_right fun hl => ?_
              cases lead with
              | nil => simp
              | cons next others =>
                  have hnext : next ≠ ' ' := fun h => hspace.2 (h ▸ List.mem_cons_self)
                  have hb : next ≠ b := fun h => hlead ⟨by simp [hl], by simp [h]⟩
                  simp [List.cons_prefix_cons, hnext, hb]
          · rw [List.cons_prefix_cons, List.cons_prefix_cons, ih hspace.2 hrest]

/-- Only spaces are added. -/
theorem eq_space_or_mem_of_mem_separate {c : Char} {cs : List Char}
    (h : c ∈ separate a b cs) :
    c = ' ' ∨ c ∈ cs := by
  fun_induction separate a b cs with
  | case1 => exact Or.inr h
  | case2 d => exact Or.inr h
  | case3 d e rest hpair ih =>
      simp only [List.mem_cons] at h ih ⊢
      grind
  | case4 d e rest hpair ih =>
      simp only [List.mem_cons] at h ih ⊢
      grind

end Separate

theorem lacks_newline_escapeComment {text : String} (h : Lacks '\n' text) :
    Lacks '\n' (escapeComment text) := by
  rw [escapeComment, lacks_ofList]
  intro hmem
  rcases eq_space_or_mem_of_mem_separate hmem with hspace | hmem
  · exact absurd hspace (by decide)
  rcases eq_space_or_mem_of_mem_separate hmem with hspace | hmem
  · exact absurd hspace (by decide)
  · exact h hmem

/-- Escaping a text keeps it neither in the comment nor out of it. -/
theorem staysBehind_escapeComment_iff {lead : String} (hspace : Lacks ' ' lead)
    (hlead : Lacks '*' lead) (text : String) :
    StaysBehind lead (escapeComment text) ↔ StaysBehind lead text := by
  have hclosing : ¬ ('*' ∈ lead.toList ∧ '/' ∈ lead.toList) := fun h => hlead h.1
  have hopening : ¬ ('/' ∈ lead.toList ∧ '*' ∈ lead.toList) := fun h => hlead h.2
  have hlines : splitLines ((escapeComment text).toList ++ ['\n']) =
      (splitLines (text.toList ++ ['\n'])).map
        (separate '/' '*' ∘ separate '*' '/') := by
    calc splitLines ((escapeComment text).toList ++ ['\n'])
        = splitLines (separate '/' '*' (separate '*' '/' (text.toList ++ ['\n']))) := by
          rw [separate_concat_newline (by decide), separate_concat_newline (by decide),
            escapeComment, String.toList_ofList]
      _ = ((splitLines (text.toList ++ ['\n'])).map (separate '*' '/')).map
        (separate '/' '*') := by
          rw [splitLines_separate (by decide), splitLines_separate (by decide)]
      _ = _ := List.map_map
  rw [StaysBehind, StaysBehind, hlines, ← List.map_tail, List.forall_mem_map]
  simp only [Function.comp_apply, allBlank_separate_iff (a := '/') rfl,
    allBlank_separate_iff (a := '*') rfl, prefix_separate_iff hspace hopening,
    prefix_separate_iff hspace hclosing]

end Text

/-! ## Banners -/

def Language.commentLead : Language → String
  | .cpp | .java => "//"
  | .python | .pythonHL => "#"

namespace Banner

open Layout

/-- The title before it is escaped.  What has none goes by its name. -/
def ownTitle (name title : String) : String :=
  if (trim title).isEmpty then name else trim title

/-- The texts that the banner of a class takes over into single lines. -/
def classTexts (c : SourceContext) (file : String) : List String :=
  [file, ownTitle c.name c.body.metadata.title] ++
    licenseText c.body.metadata.license c.name ++
    c.copyright?.toList ++ [c.body.revision.getD currentRevision ++ ")"]

/-- The texts that the banner of a server takes over into single lines. -/
def serverTexts (server : Server) (file : String) : List String :=
  [file, ownTitle server.name server.title]

/-- What is known of the lead of a comment. -/
structure IsLead (lead : String) : Prop where
  newline : Lacks '\n' lead
  space : Lacks ' ' lead
  star : Lacks '*' lead
  trimmed : dropTrailing lead.toList = lead.toList

theorem isLead_commentLead (language : Language) : IsLead language.commentLead := by
  cases language <;> constructor <;> decide

section Lines

variable {lead label text : String} {style : MarkerStyle}
  {content : ZoneId → Option String} {unit : String}

@[simp]
theorem commented_written_append_iff (front back : Layout) :
    Commented lead (written style content unit (front ++ back)) ↔
      Commented lead (written style content unit front) ∧
        Commented lead (written style content unit back) := by
  rw [written_append, commented_append_iff (complete_written front)]

@[simp]
theorem commented_written_lines_iff (texts : List String) :
    Commented lead (written style content unit (lines texts)) ↔
      ∀ text ∈ texts, Commented lead (text.toList ++ ['\n']) := by
  rw [written_lines]
  induction texts with
  | nil => simp [Commented]
  | cons text rest ih =>
      rw [List.flatMap_cons, commented_append_iff (complete_concat _), ih,
        List.forall_mem_cons]

@[simp]
theorem commented_written_line_iff :
    Commented lead (written style content unit (line text)) ↔
      Commented lead (text.toList ++ ['\n']) := by
  rw [written_line]

theorem commented_lead (h : IsLead lead) : Commented lead (lead.toList ++ ['\n']) := by
  rw [Commented, splitLines_line h.newline]
  simp

theorem commented_rule (h : IsLead lead) :
    Commented lead ((rule lead).toList ++ ['\n']) := by
  rw [rule, commented_line_iff h.newline]
  exact staysBehind_of_lacks (lacks_lit (by decide))

/-- A line with a label and a text behind it. -/
theorem commented_labelled_iff (h : IsLead lead) (hlabel : Lacks '\n' label) :
    Commented lead ((lead ++ label ++ text).toList ++ ['\n']) ↔
      StaysBehind lead text := by
  rw [String.append_assoc, commented_line_iff h.newline, staysBehind_append_iff hlabel]

theorem staysBehind_title_iff (h : IsLead lead) (name title : String) :
    StaysBehind lead (if (trim title).isEmpty then name
      else escapeComment (trim title)) ↔
      StaysBehind lead (ownTitle name title) := by
  rw [ownTitle]
  split
  · rfl
  · exact staysBehind_escapeComment_iff h.space h.star _

/-- The lines of the description are comments whatever they hold. -/
theorem commented_opening_iff (h : IsLead lead) {file title : String}
    {description : List String} (hdescription : ∀ text ∈ description, Lacks '\n' text) :
    Commented lead (written style content unit (opening lead file title description)) ↔
      StaysBehind lead file ∧ StaysBehind lead title := by
  have hfile : Commented lead (s!"{lead} file :        {file}".toList ++ ['\n']) ↔
      StaysBehind lead file := commented_labelled_iff h (by decide)
  have htitle : Commented lead (s!"{lead} description : {title}".toList ++ ['\n']) ↔
      StaysBehind lead title := commented_labelled_iff h (by decide)
  have hlines : ∀ text ∈ description, Commented lead
      ((trimEnd (lead ++ "               " ++ escapeComment text)).toList ++
        ['\n']) := by
    intro text htext
    rw [String.append_assoc]
    refine commented_trimEnd h.newline h.trimmed ?_
    exact lacks_append.mpr
      ⟨by decide, lacks_newline_escapeComment (hdescription text htext)⟩
  simp only [opening, commented_written_append_iff, commented_written_lines_iff,
    commented_written_line_iff, List.forall_mem_cons, List.forall_mem_map,
    hfile, htitle, commented_rule h, commented_lead h, iff_true_intro hlines,
    List.not_mem_nil, false_implies, implies_true, true_and, and_true]

/-- The end of a banner is in comments exactly if the copyright stays behind its lead.
-/
theorem commented_closing_iff (h : IsLead lead) {maker : String} :
    Commented lead (written style content unit (closing lead maker)) ↔
      StaysBehind lead maker := by
  have hmaker : Commented lead
      (s!"{lead}          This file is generated by {maker}".toList ++ ['\n']) ↔
        StaysBehind lead maker := commented_labelled_iff h (by decide)
  have hblank : Commented lead ("".toList ++ ['\n']) := by
    intro line hline
    rw [show splitLines ("".toList ++ ['\n']) = [['\n']] from rfl, List.mem_singleton]
      at hline
    exact Or.inl (hline ▸ by decide)
  simp only [closing, blank, commented_written_append_iff, commented_written_lines_iff,
    commented_written_line_iff, List.forall_mem_cons, hmaker, commented_rule h, hblank,
    List.not_mem_nil, false_implies, implies_true, true_and, and_true]

/-- The banner of a class is made of comments exactly when the texts that it takes over
stay behind the lead of their lines. -/
theorem commented_ofClass_iff (h : IsLead lead) (c : SourceContext) (file : String) :
    Commented lead (written style content unit (ofClass c lead file)) ↔
      (c.settings.emitBanner = true →
        ∀ text ∈ classTexts c file, StaysBehind lead text) := by
  have hdescription : ∀ text ∈ c.description, Lacks '\n' text :=
    fun _ => lacks_newline_of_mem_lines
  have htitle : StaysBehind lead c.title ↔
      StaysBehind lead (ownTitle c.name c.body.metadata.title) :=
    staysBehind_title_iff h c.name c.body.metadata.title
  have hproject : Commented lead (s!"{lead} project :     {c.title}".toList ++ ['\n']) ↔
      StaysBehind lead c.title := commented_labelled_iff h (by decide)
  have hlicense : ∀ text : String, Commented lead (s!"{lead} {text}".toList ++ ['\n']) ↔
      StaysBehind lead text := fun text => commented_labelled_iff h (by decide)
  have hcopyright : ∀ text : String, Commented lead
      (s!"{lead} Copyright (C): {escapeComment text}".toList ++ ['\n']) ↔
        StaysBehind lead text :=
    fun text => (commented_labelled_iff h (by decide)).trans
      (staysBehind_escapeComment_iff h.space h.star text)
  have hmaker : StaysBehind lead
      s!"devgen (schema {c.body.revision.getD currentRevision})" ↔
        StaysBehind lead (c.body.revision.getD currentRevision ++ ")") := by
    rw [String.append_assoc]
    exact staysBehind_append_iff (by decide)
  have hnone : Commented lead (written style content unit []) := by
    simp [Commented]
  rw [ofClass, classTexts]
  split
  · next hemit =>
      cases c.copyright? <;>
        simp only [commented_written_append_iff, commented_written_lines_iff,
          List.forall_mem_append, List.forall_mem_cons, List.forall_mem_map,
          commented_opening_iff h hdescription, htitle, hproject, hlicense,
          hcopyright, hnone, commented_lead h, commented_closing_iff h, hmaker, hemit,
          Option.toList_none, Option.toList_some, List.not_mem_nil, false_implies,
          implies_true, forall_const, true_and, and_true, and_assoc, and_self_left]
  · next hemit => simp [Commented, hemit]

/-- The same for a server. -/
theorem commented_ofServer_iff (h : IsLead lead) (server : Server) (settings : Settings)
    (file : String) :
    Commented lead (written style content unit (ofServer server settings lead file)) ↔
      (settings.emitBanner = true →
        ∀ text ∈ serverTexts server file, StaysBehind lead text) := by
  have hdescription : ∀ text ∈ Text.lines server.description, Lacks '\n' text :=
    fun _ => lacks_newline_of_mem_lines
  have hlicense : Commented lead
      (s!"{lead} license :     {server.license.label}".toList ++ ['\n']) :=
    (commented_labelled_iff h (by decide)).mpr
      (staysBehind_of_lacks (by cases server.license <;> decide))
  have hmaker : StaysBehind lead "devgen" := staysBehind_of_lacks (by decide)
  rw [ofServer]
  split
  · next hemit =>
      simp only [commented_written_append_iff, commented_written_line_iff,
        commented_opening_iff h hdescription, staysBehind_title_iff h, hlicense,
        commented_closing_iff h, hmaker, serverTexts, List.forall_mem_cons, hemit]
      simp
  · next hemit => simp [Commented, hemit]

end Lines

end Banner

open Layout

section Layouts

variable (c : SourceContext) (file : String)

theorem Cpp.banner_infix_headerLayout :
    Banner.ofClass c "//" file <:+: headerLayout c file :=
  infix_stacked List.mem_cons_self

theorem Cpp.banner_infix_implementationLayout :
    Banner.ofClass c "//" file <:+: implementationLayout c file :=
  infix_stacked List.mem_cons_self

theorem Cpp.banner_infix_stateMachineLayout :
    Banner.ofClass c "//" file <:+: stateMachineLayout c file :=
  infix_stacked List.mem_cons_self

theorem Java.banner_infix_layout : Banner.ofClass c "//" file <:+: layout c file :=
  infix_stacked List.mem_cons_self

theorem Python.banner_infix_layout : Banner.ofClass c "#" file <:+: layout c file :=
  infix_stacked (List.mem_cons_of_mem _ List.mem_cons_self)

theorem PythonHL.banner_infix_layout : Banner.ofClass c "#" file <:+: layout c file :=
  infix_stacked (List.mem_cons_of_mem _ List.mem_cons_self)

end Layouts

/-- The banner stands in every file of a class. -/
theorem Language.partOf_of_mem_skeletons {c : SourceContext} {language : Language}
    {s : Skeleton} (hs : s ∈ language.skeletons c) :
    (Banner.ofClass c language.commentLead s.file).PartOf c.settings.indentUnit s := by
  cases language with
  | cpp =>
      simp only [Language.skeletons, Cpp.skeletons, List.mem_cons, List.not_mem_nil,
        or_false] at hs
      rcases hs with rfl | rfl | rfl
      · exact partOf_toSkeleton (Cpp.banner_infix_headerLayout c _) _ _ _
      · exact partOf_toSkeleton (Cpp.banner_infix_implementationLayout c _) _ _ _
      · exact partOf_toSkeleton (Cpp.banner_infix_stateMachineLayout c _) _ _ _
  | java =>
      obtain rfl := List.mem_singleton.mp hs
      exact partOf_toSkeleton (Java.banner_infix_layout c _) _ _ _
  | python =>
      obtain rfl := List.mem_singleton.mp hs
      exact partOf_toSkeleton (Python.banner_infix_layout c _) _ _ _
  | pythonHL =>
      obtain rfl := List.mem_singleton.mp hs
      exact partOf_toSkeleton (PythonHL.banner_infix_layout c _) _ _ _

/-- The banner stands in every entry point of a server. -/
theorem EntryPoint.partOf_of_mem_filesIn {server : Server} {settings : Settings}
    {language : Language} {s : Skeleton} (hs : s ∈ filesIn server settings language) :
    (Banner.ofServer server settings language.commentLead s.file).PartOf
      settings.indentUnit s := by
  have hslash : ∀ file l, (Banner.ofServer server settings "//" file).PartOf
        settings.indentUnit (slashFile server settings file l) := fun file l =>
    partOf_toSkeleton (List.prefix_append _ _).isInfix _ _ _
  have hscript : ∀ l,
      (Banner.ofServer server settings "#" (server.name ++ ".py")).PartOf
        settings.indentUnit (scriptFile server settings l) := fun l =>
    partOf_toSkeleton ⟨Script.head, l, rfl⟩ _ _ _
  cases language with
  | cpp =>
      simp only [filesIn, List.mem_cons, List.not_mem_nil, or_false] at hs
      rcases hs with rfl | rfl
      · exact hslash _ _
      · exact hslash _ _
  | java =>
      obtain rfl := List.mem_singleton.mp hs
      exact hslash _ _
  | python =>
      obtain rfl := List.mem_singleton.mp hs
      exact hscript _
  | pythonHL =>
      obtain rfl := List.mem_singleton.mp hs
      exact hscript _

/-- In every file of a class and of a server the banner stands from the start of a line
on.  Its lines are blank or comments exactly when it is left out, or no text that it
takes over into one line has a further line that is neither. -/
theorem commented_banner_iff (settings : Settings) :
    (∀ (cls : DeviceClass) iface issues, cls.resolve = .ok (iface, issues) →
      let c : SourceContext := ⟨iface, cls.toClassBody, settings⟩
      c.name = cls.name ∧ ∀ language files, emit language c = .ok files → ∀ s ∈ files,
        let banner := Banner.ofClass c language.commentLead s.file
        banner.PartOf settings.indentUnit s ∧
        ∀ content, Commented language.commentLead
            (written s.style content settings.indentUnit banner) ↔
          (settings.emitBanner = true →
            ∀ text ∈ Banner.classTexts c s.file,
              StaysBehind language.commentLead text)) ∧
    ∀ server files, EntryPoint.skeletons server settings = .ok files → ∀ s ∈ files,
      ∃ language : Language, server.language? = some language ∧
        let banner := Banner.ofServer server settings language.commentLead s.file
        banner.PartOf settings.indentUnit s ∧
        ∀ content, Commented language.commentLead
            (written s.style content settings.indentUnit banner) ↔
          (settings.emitBanner = true →
            ∀ text ∈ Banner.serverTexts server s.file,
              StaysBehind language.commentLead text) := by
  constructor
  · intro cls iface issues hresolve c
    have hname : iface.name = cls.name := by
      obtain ⟨-, -, rfl, -⟩ := DeviceClass.resolve_eq_ok_iff.mp hresolve
      rfl
    refine ⟨hname, fun language files hemit s hs => ?_⟩
    have hs : s ∈ language.skeletons c := eq_of_emit hemit ▸ hs
    exact ⟨Language.partOf_of_mem_skeletons hs, fun content =>
      Banner.commented_ofClass_iff (Banner.isLead_commentLead language) c s.file⟩
  · intro server files hfiles s hs
    rw [EntryPoint.skeletons] at hfiles
    split at hfiles
    · obtain rfl := Except.ok.inj hfiles
      exact absurd hs List.not_mem_nil
    · next language hlanguage =>
        obtain ⟨-, -, rfl⟩ := Outcome.map_eq_ok_iff.mp hfiles
        exact ⟨language, hlanguage, EntryPoint.partOf_of_mem_filesIn hs, fun content =>
          Banner.commented_ofServer_iff (Banner.isLead_commentLead language) server
            settings s.file⟩

def labMotor (copyright : String) : DeviceClass :=
  { name := "Motor", language := .java, metadata := { copyright, license := .mit } }

def labBench : Server :=
  { name := "Bench", title := "Motors", classes := [labMotor "Lab"] }

theorem exists_resolve_labMotor (copyright : String) :
    ∃ iface issues, (labMotor copyright).resolve = .ok (iface, issues) ∧
      let c : SourceContext := ⟨iface, (labMotor copyright).toClassBody, {}⟩
      emit .java c = .ok [c.file "Motor.java" .block (Java.layout c "Motor.java")] :=
  ⟨_, _, rfl, rfl⟩

theorem commented_banner_labMotor :
    (∃ iface issues, (labMotor "Lab").resolve = .ok (iface, issues) ∧
      let c : SourceContext := ⟨iface, (labMotor "Lab").toClassBody, {}⟩
      ∃ files, emit .java c = .ok files ∧ ∀ s ∈ files,
        let banner := Banner.ofClass c "//" s.file
        banner.PartOf c.settings.indentUnit s ∧
          ∀ content, Commented "//"
            (written s.style content c.settings.indentUnit banner)) ∧
    ∃ files, EntryPoint.skeletons labBench {} = .ok files ∧ ∀ s ∈ files,
      let unit := ({} : Settings).indentUnit
      let banner := Banner.ofServer labBench {} "//" s.file
      banner.PartOf unit s ∧
      ∀ content, Commented "//" (written s.style content unit banner) := by
  obtain ⟨hclass, hserver⟩ := commented_banner_iff {}
  constructor
  · obtain ⟨iface, issues, hresolve, hemit⟩ := exists_resolve_labMotor "Lab"
    obtain ⟨hname, hfiles⟩ := hclass _ _ _ hresolve
    refine ⟨iface, issues, hresolve, _, hemit, fun s hs => ?_⟩
    obtain ⟨hpart, hiff⟩ := hfiles _ _ hemit s hs
    refine ⟨hpart, fun content => (hiff content).mpr fun _ => ?_⟩
    obtain rfl := List.mem_singleton.mp hs
    rw [Banner.classTexts, hname]
    show ∀ text ∈ ["Motor.java", Banner.ownTitle "Motor" ""] ++
      Banner.licenseText .mit "Motor" ++
      Option.toList (if (trim "Lab").isEmpty then none else some (trim "Lab")) ++
        [currentRevision ++ ")"], StaysBehind "//" text
    decide +kernel
  · have hfiles : EntryPoint.skeletons labBench {} =
        .ok [EntryPoint.slashFile labBench {} "Bench.java"
          (EntryPoint.javaMain labBench)] := rfl
    refine ⟨_, hfiles, fun s hs => ?_⟩
    obtain ⟨language, hlanguage, hpart, hiff⟩ := hserver _ _ hfiles s hs
    obtain rfl : language = .java := (Option.some.inj hlanguage).symm
    refine ⟨hpart, fun content => (hiff content).mpr fun _ => ?_⟩
    obtain rfl := List.mem_singleton.mp hs
    show ∀ text ∈ Banner.serverTexts labBench "Bench.java", StaysBehind "//" text
    decide +kernel

/-- A copyright of two lines goes on in the code. -/
theorem not_forall_commented_banner :
    ¬ ∀ settings (cls : DeviceClass) iface issues, cls.resolve = .ok (iface, issues) →
      ∀ language files, emit language ⟨iface, cls.toClassBody, settings⟩ = .ok files →
        ∀ s ∈ files, ∀ content, Commented language.commentLead
          (written s.style content settings.indentUnit
            (Banner.ofClass ⟨iface, cls.toClassBody, settings⟩ language.commentLead
              s.file)) := by
  intro hall
  let text := "Lab\nMotor"
  obtain ⟨iface, issues, hresolve, hemit⟩ := exists_resolve_labMotor text
  let c : SourceContext := ⟨iface, (labMotor text).toClassBody, {}⟩
  have hcommented :=
    hall _ _ _ _ hresolve _ _ hemit _ (List.mem_singleton_self _) fun _ => none
  rw [Banner.commented_ofClass_iff (Banner.isLead_commentLead _)] at hcommented
  have hcopyright : c.copyright? = some text := by
    show (if (trim text).isEmpty then none else some (trim text)) = some text
    decide +kernel
  have hbehind := hcommented rfl text (by simp [Banner.classTexts, c, hcopyright])
  exact absurd hbehind (by decide +kernel)

end DeviceForge
