import DeviceForge.Proofs.Generation
import DeviceForge.Proofs.Inheritance
import DeviceForge.Proofs.Source.Written

/-!
# Where docstrings end

A docstring goes on up to three quotes of which the first is not escaped.  Free
text in it has no three quotes in a row any more, but its last characters meet
the quotes that close it: a quote there ends the docstring early, and a
backslash late.
-/

namespace DeviceForge

open Text

namespace Docstring

def quotes : List Char :=
  ['"', '"', '"']

/-- The character that follows is escaped: it has an odd number of backslashes before
it. -/
def Escaped (front : List Char) : Prop :=
  Odd (front.rtakeWhile (· == '\\')).length

instance (front : List Char) : Decidable (Escaped front) :=
  inferInstanceAs (Decidable (Odd _))

/-- Three quotes in the text would close a docstring. -/
def ClosedWithin (text : List Char) : Prop :=
  ∃ front back, text = front ++ quotes ++ back ∧ ¬ Escaped front

/-- Among the three quotes that would close a docstring which starts with the text, the
first are those that stand behind the text. -/
def ClosedByOwnQuotes (text : List Char) : Prop :=
  ¬ Escaped text ∧
    ∀ front back, text = front ++ back → back ≠ [] → quotes <+: back ++ quotes →
      Escaped front

/-- The last characters of the text change what the quotes behind it mean: an odd number
of backslashes, or a quote that is not escaped. -/
def RunsOn (text : List Char) : Prop :=
  Escaped text ∨ text.getLast? = some '"' ∧ ¬ Escaped text.dropLast

instance (text : List Char) : Decidable (RunsOn text) :=
  inferInstanceAs (Decidable (_ ∨ _ ∧ ¬ _))

theorem not_escaped_concat {c : Char} (hc : c ≠ '\\') (cs : List Char) :
    ¬ Escaped (cs ++ [c]) := by
  rw [Escaped, List.rtakeWhile_concat, if_neg (by simpa using hc)]
  decide

/-- Another character keeps what stands before it from the backslashes behind it. -/
theorem escaped_append_cons_iff {c : Char} (hc : c ≠ '\\') (front back : List Char) :
    Escaped (front ++ c :: back) ↔ Escaped back := by
  have hrun : (front ++ c :: back).rtakeWhile (· == '\\') =
      back.rtakeWhile (· == '\\') := by
    induction back using List.reverseRecOn with
    | nil =>
      rw [List.rtakeWhile_concat, if_neg (by simpa using hc), List.rtakeWhile_nil]
    | append_singleton back d ih =>
        rw [← List.cons_append, ← List.append_assoc, List.rtakeWhile_concat,
          List.rtakeWhile_concat, ih]
  rw [Escaped, Escaped, hrun]

/-- A text is closed by the quotes behind it if nothing in it closes it, and if it does
not run on into them. -/
theorem closedByOwnQuotes_iff {text : List Char} :
    ClosedByOwnQuotes text ↔ ¬ ClosedWithin text ∧ ¬ RunsOn text := by
  constructor
  · rintro ⟨hescaped, hfirst⟩
    constructor
    · rintro ⟨front, back, rfl, hfront⟩
      refine hfront (hfirst front (quotes ++ back) (List.append_assoc _ _ _)
        (by simp [quotes]) ?_)
      rw [List.append_assoc]
      exact List.prefix_append _ _
    · rintro (hend | ⟨hlast, hfront⟩)
      · exact hescaped hend
      · have htext : text.dropLast ++ ['"'] = text :=
          List.dropLast_append_getLast? _ hlast
        exact hfront (hfirst text.dropLast ['"'] htext.symm (by simp) (by decide))
  · rintro ⟨hwithin, hruns⟩
    refine ⟨fun hescaped => hruns (Or.inl hescaped), ?_⟩
    intro front back htext hback hquotes
    by_contra hfront
    match back, hback with
    | [c], _ =>
        obtain rfl : '"' = c := by simpa [quotes] using hquotes
        exact hruns (Or.inr (by simpa [htext] using hfront))
    | [c, d], _ =>
        obtain ⟨hc, hd⟩ : '"' = c ∧ '"' = d := by simpa [quotes] using hquotes
        have hlast : text = (front ++ ['"']) ++ ['"'] := by simp [htext, ← hc, ← hd]
        refine hruns (Or.inr ⟨by simp [hlast], ?_⟩)
        rw [hlast, List.dropLast_concat]
        exact not_escaped_concat (by decide) front
    | c :: d :: e :: rest, _ =>
        obtain ⟨hc, hd, he⟩ : '"' = c ∧ '"' = d ∧ '"' = e := by
          simpa [quotes] using hquotes
        exact hwithin ⟨front, rest, by simp [htext, quotes, ← hc, ← hd, ← he], hfront⟩

theorem not_closedWithin_of_notMem {text : List Char} (h : '"' ∉ text) :
    ¬ ClosedWithin text := by
  rintro ⟨front, back, rfl, -⟩
  simp [quotes] at h

/-- Another character parts the quotes before it from those behind it. -/
theorem closedWithin_append_cons_iff {c : Char} (hquote : c ≠ '"') (hslash : c ≠ '\\')
    (front back : List Char) :
    ClosedWithin (front ++ c :: back) ↔ ClosedWithin front ∨ ClosedWithin back := by
  constructor
  · rintro ⟨before, after, htext, hbefore⟩
    rw [List.append_assoc, List.append_eq_append_iff] at htext
    rcases htext with ⟨gap, rfl, hback⟩ | ⟨gap, rfl, hafter⟩
    · -- The quotes stand behind the character.
      cases gap with
      | nil => exact absurd (List.cons.inj hback).1 hquote
      | cons d gap =>
          obtain ⟨rfl, rfl⟩ := List.cons.inj hback
          rw [escaped_append_cons_iff hslash] at hbefore
          exact Or.inr ⟨gap, after, (List.append_assoc _ _ _).symm, hbefore⟩
    · -- They start before it, so they end before it.
      match gap with
      | [] => exact absurd (List.cons.inj hafter).1.symm hquote
      | [d] =>
          simp only [quotes, List.cons_append, List.nil_append, List.cons.injEq]
            at hafter
          exact absurd hafter.2.1.symm hquote
      | [d, e] =>
          simp only [quotes, List.cons_append, List.nil_append, List.cons.injEq]
            at hafter
          exact absurd hafter.2.2.1.symm hquote
      | d :: e :: f :: rest =>
          simp only [quotes, List.cons_append, List.nil_append, List.cons.injEq]
            at hafter
          obtain ⟨rfl, rfl, rfl, -⟩ := hafter
          exact Or.inl ⟨before, rest, by simp [quotes], hbefore⟩
  · rintro (⟨before, after, rfl, hbefore⟩ | ⟨before, after, rfl, hbefore⟩)
    · exact ⟨before, after ++ c :: back, by simp, hbefore⟩
    · refine ⟨front ++ c :: before, after, by simp, ?_⟩
      rwa [escaped_append_cons_iff hslash]

theorem closedWithin_cons_iff {c : Char} (hquote : c ≠ '"') (hslash : c ≠ '\\')
    (text : List Char) : ClosedWithin (c :: text) ↔ ClosedWithin text := by
  rw [← List.nil_append (c :: text), closedWithin_append_cons_iff hquote hslash]
  exact or_iff_right (not_closedWithin_of_notMem List.not_mem_nil)

theorem not_runsOn_concat {c : Char} (hquote : c ≠ '"') (hslash : c ≠ '\\')
    (cs : List Char) :
    ¬ RunsOn (cs ++ [c]) := by
  rintro (hescaped | ⟨hlast, -⟩)
  · exact not_escaped_concat hslash cs hescaped
  · exact hquote (by simpa using hlast)

/-! ## Escaped text -/

/-- A quote at the start of escaped text was one before. -/
theorem eq_cons_of_head?_escapeDocstring {cs : List Char}
    (h : (escapeDocstring cs).head? = some '"') :
    ∃ rest, cs = '"' :: rest ∧ escapeDocstring cs = '"' :: escapeDocstring rest := by
  revert h
  fun_cases escapeDocstring cs with
  | case1 rest => simp
  | case2 c rest hother =>
      intro h
      obtain rfl : c = '"' := by simpa using h
      exact ⟨rest, rfl, rfl⟩
  | case3 => simp

/-- Escaped text has no three quotes in a row. -/
theorem not_infix_escapeDocstring (cs : List Char) :
    ¬ quotes <:+: escapeDocstring cs := by
  fun_induction escapeDocstring cs with
  | case1 rest ih => simpa [quotes, List.infix_cons_iff] using ih
  | case2 c rest hother ih =>
      rw [List.infix_cons_iff, not_or]
      refine ⟨fun hprefix => ?_, ih⟩
      obtain ⟨hc, hrest⟩ := List.cons_prefix_cons.mp hprefix
      have hsecond : (escapeDocstring rest).head? = some '"' := by
        obtain ⟨others, hothers⟩ := hrest
        rw [← hothers]
        rfl
      obtain ⟨next, rfl, hnext⟩ := eq_cons_of_head?_escapeDocstring hsecond
      rw [hnext] at hrest
      have hthird : (escapeDocstring next).head? = some '"' := by
        obtain ⟨others, hothers⟩ := (List.cons_prefix_cons.mp hrest).2
        rw [← hothers]
        rfl
      obtain ⟨last, rfl, -⟩ := eq_cons_of_head?_escapeDocstring hthird
      exact hother last hc.symm rfl
  | case3 => simp [quotes]

theorem not_closedWithin_docstringText (text : String) :
    ¬ ClosedWithin (docstringText text).toList := by
  rintro ⟨front, back, htext, -⟩
  rw [docstringText, String.toList_ofList] at htext
  exact not_infix_escapeDocstring text.toList ⟨front, back, htext.symm⟩

/-- Lines between the lines of the quotes. -/
def linesText (texts : List String) : List Char :=
  '\n' :: texts.flatMap fun text => (docstringText text).toList ++ ['\n']

def spacedText (cmd : Command) : List Char :=
  ' ' :: ((docstringText cmd.description).toList ++ [' '])

/-- The docstring of a command in a module with the declarative interface. -/
def commandText (cmd : Command) : String :=
  if cmd.description.isEmpty then s!"Execute the {cmd.name} command."
  else docstringText cmd.description

/-- Escaped lines have no three quotes in a row, and line feeds keep them apart. -/
theorem not_closedWithin_linesText (texts : List String) :
    ¬ ClosedWithin (linesText texts) := by
  have hlines : ¬ ClosedWithin
      (texts.flatMap fun text => (docstringText text).toList ++ ['\n']) := by
    induction texts with
    | nil => exact not_closedWithin_of_notMem List.not_mem_nil
    | cons text rest ih =>
        rw [List.flatMap_cons, List.append_assoc, List.singleton_append,
          closedWithin_append_cons_iff (by decide) (by decide)]
        exact not_or.mpr ⟨not_closedWithin_docstringText text, ih⟩
  rwa [linesText, closedWithin_cons_iff (by decide) (by decide)]

theorem complete_linesText (texts : List String) : Complete (linesText texts) := by
  rw [linesText, ← List.singleton_append, List.flatMap_def]
  refine (complete_concat []).append (Complete.flatten fun text htext => ?_)
  obtain ⟨line, -, rfl⟩ := List.mem_map.mp htext
  exact complete_concat _

/-- Escaped lines never close a docstring, nor do they run on into the quotes below
them. -/
theorem closedByOwnQuotes_linesText (texts : List String) :
    ClosedByOwnQuotes (linesText texts) := by
  obtain ⟨cs, hcs⟩ := List.getLast?_eq_some_iff.mp
    ((complete_linesText texts).resolve_left (List.cons_ne_nil _ _))
  rw [closedByOwnQuotes_iff]
  refine ⟨not_closedWithin_linesText texts, ?_⟩
  rw [hcs]
  exact not_runsOn_concat (by decide) (by decide) cs

/-- Spaces around escaped text keep its ends from the quotes. -/
theorem closedByOwnQuotes_spacedText (cmd : Command) :
    ClosedByOwnQuotes (spacedText cmd) := by
  rw [closedByOwnQuotes_iff]
  constructor
  · rw [spacedText, closedWithin_cons_iff (by decide) (by decide),
      closedWithin_append_cons_iff (by decide) (by decide), not_or]
    exact ⟨not_closedWithin_docstringText _,
      not_closedWithin_of_notMem List.not_mem_nil⟩
  · rw [spacedText, ← List.cons_append]
    exact not_runsOn_concat (by decide) (by decide) _

/-- The docstring of a described command ends where it should exactly when its last
characters leave the quotes behind it alone.  One that only names the command does
unless the name closes it. -/
theorem closedByOwnQuotes_commandText_iff (cmd : Command) :
    ClosedByOwnQuotes (commandText cmd).toList ↔
      if cmd.description.isEmpty then ¬ ClosedWithin cmd.name.toList
      else ¬ RunsOn (docstringText cmd.description).toList := by
  rw [closedByOwnQuotes_iff, commandText]
  split
  · have htext : s!"Execute the {cmd.name} command.".toList =
        "Execute the".toList ++ ' ' ::
          (cmd.name.toList ++ ' ' :: "command.".toList) := by
      simp [toString]
    have hend : ' ' :: "command.".toList = " command".toList ++ ['.'] := rfl
    have hruns : ¬ RunsOn s!"Execute the {cmd.name} command.".toList := by
      rw [htext, hend, ← List.append_assoc, ← List.cons_append, ← List.append_assoc]
      exact not_runsOn_concat (by decide) (by decide) _
    have hwithin : ClosedWithin s!"Execute the {cmd.name} command.".toList ↔
        ClosedWithin cmd.name.toList := by
      have hbefore : ¬ ClosedWithin "Execute the".toList :=
        not_closedWithin_of_notMem (by decide)
      have hafter : ¬ ClosedWithin "command.".toList :=
        not_closedWithin_of_notMem (by decide)
      rw [htext, closedWithin_append_cons_iff (by decide) (by decide),
        closedWithin_append_cons_iff (by decide) (by decide), or_iff_right hbefore,
        or_iff_left hafter]
    rw [hwithin]
    exact and_iff_left hruns
  · exact and_iff_right (not_closedWithin_docstringText _)

end Docstring

/-! ## Files with docstrings -/

open Docstring Layout
open Script (function)

/-- The docstring stands in the file, whatever the zones of the file hold. -/
def Skeleton.HasDocstring (s : Skeleton) (text : List Char) : Prop :=
  ∀ content, quotes ++ text ++ quotes <:+: (s.render content).toList

theorem Layout.PartOf.hasDocstring {part : Layout} {unit : String} {s : Skeleton}
    (h : part.PartOf unit s) {text : List Char}
    (htext : ∀ content, quotes ++ text ++ quotes <:+:
      written s.style content unit part) :
    s.HasDocstring text := by
  intro content
  obtain ⟨before, after, -, hrender⟩ := h content
  rw [hrender]
  exact (htext content).trans (List.infix_append _ _ _)

/-- A docstring on a line of its own. -/
theorem hasDocstring_of_line_mem {l : Layout} {depth : ℕ} {doc : String}
    {text : List Char} (hdoc : doc.toList = quotes ++ text ++ quotes)
    (hmem : Piece.line depth doc ∈ l) (file : String) (style : MarkerStyle)
    (unit : String) :
    (l.toSkeleton file style unit).HasDocstring text := by
  refine (partOf_of_mem hmem file style unit).hasDocstring fun content => ?_
  have hne : doc.isEmpty = false := by
    rw [← Bool.not_eq_true, String.isEmpty_iff]
    rintro rfl
    simp [quotes] at hdoc
  have hline : written style content unit [Piece.line depth doc] =
      (indentText unit depth).toList ++ doc.toList ++ ['\n'] := by
    simp [written, pieceChars, lineText, hne]
  rw [Layout.toSkeleton, hline, ← hdoc]
  exact List.infix_append _ _ _

theorem mem_indented {depth : ℕ} {text : String} {l : Layout}
    (h : Piece.line depth text ∈ l) :
    Piece.line (depth + 1) text ∈ indented l :=
  List.mem_map_of_mem (f := indentPiece) h

/-- The docstring of a module, between lines of quotes. -/
theorem hasDocstring_of_docstring_infix {c : SourceContext} {l : Layout}
    (h : Script.docstring c <:+: l) (file : String) (style : MarkerStyle)
    (unit : String) :
    (l.toSkeleton file style unit).HasDocstring
      (linesText (c.title :: c.description)) := by
  refine (partOf_toSkeleton h file style unit).hasDocstring fun content => ?_
  have hwritten : written style content unit (Script.docstring c) =
      quotes ++ linesText (c.title :: c.description) ++ quotes ++ ['\n', '\n'] := by
    simp [Script.docstring, stacked, linesText, quotes, blank, List.flatMap_map]
  rw [Layout.toSkeleton, hwritten]
  exact (List.prefix_append _ _).isInfix

section Modules

variable {c : SourceContext} {cmd : Command}

/-- A docstring in the method of a command stands in the module, two levels deeper. -/
theorem hasDocstring_of_mem_method {method : Command → Layout} {members l : Layout}
    {doc : String} {text : List Char} (hdoc : doc.toList = quotes ++ text ++ quotes)
    (hmethod : Piece.line 1 doc ∈ method cmd) (hcmd : cmd ∈ c.iface.commands.locals)
    (hmembers : forEach c.iface.commands.locals method <:+: members)
    (hl : indented members <:+: l) (file : String) (style : MarkerStyle)
    (unit : String) :
    (l.toSkeleton file style unit).HasDocstring text := by
  have hmember : Piece.line 1 doc ∈ members :=
    hmembers.subset (mem_forEach hcmd hmethod)
  exact hasDocstring_of_line_mem hdoc (hl.subset (mem_indented hmember)) _ _ _

namespace Python

theorem hasDocstring_module {s : Skeleton} (hs : s ∈ skeletons c) :
    s.HasDocstring (linesText (c.title :: c.description)) := by
  obtain rfl := List.mem_singleton.mp hs
  exact hasDocstring_of_docstring_infix (infix_stacked (by simp)) _ _ _

/-- The description stands between spaces in the method of the command. -/
theorem hasDocstring_command {s : Skeleton} (hs : s ∈ skeletons c)
    (hcmd : cmd ∈ c.iface.commands.locals)
    (hdescription : cmd.description.isEmpty = false) :
    s.HasDocstring (spacedText cmd) := by
  let doc := s!"\"\"\" {docstringText cmd.description} \"\"\""
  have hdoc : doc.toList = quotes ++ spacedText cmd ++ quotes := by
    simp [doc, spacedText, quotes, toString]
  have hmethod : Piece.line 1 doc ∈ commandMethod c cmd := by
    simp only [commandMethod, function, hdescription, List.mem_append]
    exact Or.inl (Or.inl (Or.inr (mem_indented (by simp [line, doc]))))
  have hmembers : forEach c.iface.commands.locals (commandMethod c) <:+:
      deviceMembers c :=
    infix_stacked (by simp)
  obtain rfl := List.mem_singleton.mp hs
  exact hasDocstring_of_mem_method hdoc hmethod hcmd hmembers
    (infix_stacked (by simp)) _ _ _

end Python

namespace PythonHL

theorem hasDocstring_module {s : Skeleton} (hs : s ∈ skeletons c) :
    s.HasDocstring (linesText (c.title :: c.description)) := by
  obtain rfl := List.mem_singleton.mp hs
  exact hasDocstring_of_docstring_infix (infix_stacked (by simp)) _ _ _

/-- The text stands between the quotes as it is. -/
theorem hasDocstring_command {s : Skeleton} (hs : s ∈ skeletons c)
    (hcmd : cmd ∈ c.iface.commands.locals) :
    s.HasDocstring (commandText cmd).toList := by
  let doc := s!"\"\"\"{commandText cmd}\"\"\""
  have hdoc : doc.toList = quotes ++ (commandText cmd).toList ++ quotes := by
    simp [doc, quotes, toString]
  have hmethod : Piece.line 1 doc ∈ commandMethod c cmd := by
    simp only [commandMethod, function, List.mem_append]
    exact Or.inl (Or.inr (Or.inl (Or.inr
      (mem_indented (by simp [quoted, line, commandText, doc])))))
  have hmembers : forEach c.iface.commands.locals (commandMethod c) <:+:
      classMembers c :=
    infix_stacked (by simp)
  obtain rfl := List.mem_singleton.mp hs
  exact hasDocstring_of_mem_method hdoc hmethod hcmd hmembers
    (infix_stacked (by simp)) _ _ _

end PythonHL

end Modules

/-- The commands in effect that a class declares itself are its commands. -/
theorem DeviceClass.mem_locals_commands_iff {cls : DeviceClass} {iface : Interface}
    {issues : List InterfaceIssue} (hresolve : cls.resolve = .ok (iface, issues))
    {cmd : Command} :
    cmd ∈ iface.commands.locals ↔ cmd ∈ cls.commands := by
  obtain ⟨-, hlevels, rfl, -⟩ := resolve_eq_ok_iff.mp hresolve
  exact mem_locals_effectiveMembers_iff fun _ =>
    KindView.commands.nodup_of_levels hlevels

/-- The docstring of a module and those of the commands of its class stand in the
module.  Each is closed by its own quotes, but for those of commands in a module with
the declarative interface.  Such a one is so exactly when the end of the description
leaves these quotes alone, or if there is no description, nothing in the name of the
command closes it. -/
theorem closedByOwnQuotes_docstrings (settings : Settings) {cls : DeviceClass}
    {iface : Interface} {issues : List InterfaceIssue}
    (hresolve : cls.resolve = .ok (iface, issues)) :
    let c : SourceContext := ⟨iface, cls.toClassBody, settings⟩
    let moduleText := linesText (c.title :: c.description)
    ClosedByOwnQuotes moduleText ∧
      (∀ files, emit .python c = .ok files → ∀ s ∈ files, s.HasDocstring moduleText ∧
        ∀ cmd ∈ cls.commands, cmd.description.isEmpty = false →
          s.HasDocstring (spacedText cmd) ∧ ClosedByOwnQuotes (spacedText cmd)) ∧
      ∀ files, emit .pythonHL c = .ok files → ∀ s ∈ files, s.HasDocstring moduleText ∧
        ∀ cmd ∈ cls.commands, s.HasDocstring (commandText cmd).toList ∧
          (ClosedByOwnQuotes (commandText cmd).toList ↔
            if cmd.description.isEmpty then ¬ ClosedWithin cmd.name.toList
            else ¬ RunsOn (docstringText cmd.description).toList) := by
  intro c moduleText
  have hlocal : ∀ cmd ∈ cls.commands, cmd ∈ c.iface.commands.locals :=
    fun _ => (DeviceClass.mem_locals_commands_iff hresolve).mpr
  refine ⟨closedByOwnQuotes_linesText _, fun files hfiles s hs => ?_,
    fun files hfiles s hs => ?_⟩
  · rw [eq_of_emit hfiles] at hs
    exact ⟨Python.hasDocstring_module hs, fun cmd hcmd hdescription =>
      ⟨Python.hasDocstring_command hs (hlocal cmd hcmd) hdescription,
        closedByOwnQuotes_spacedText cmd⟩⟩
  · rw [eq_of_emit hfiles] at hs
    exact ⟨PythonHL.hasDocstring_module hs, fun cmd hcmd =>
      ⟨PythonHL.hasDocstring_command hs (hlocal cmd hcmd),
        closedByOwnQuotes_commandText_iff cmd⟩⟩

def describedMotor (description : String) : DeviceClass :=
  { name := "Motor", language := .pythonHL,
    commands := [{ name := "Go", description }] }

theorem exists_resolve_describedMotor (description : String) :
    ∃ iface issues, (describedMotor description).resolve = .ok (iface, issues) ∧
      let c : SourceContext := ⟨iface, (describedMotor description).toClassBody, {}⟩
      emit .pythonHL c = .ok (PythonHL.skeletons c) :=
  ⟨_, _, rfl, rfl⟩

theorem closedByOwnQuotes_docstrings_describedMotor :
    ∃ iface issues, (describedMotor "Say \"hi\".").resolve = .ok (iface, issues) ∧
      let c : SourceContext := ⟨iface, (describedMotor "Say \"hi\".").toClassBody, {}⟩
      ∃ files, emit .pythonHL c = .ok files ∧ ∀ s ∈ files,
        s.HasDocstring "Say \"hi\".".toList ∧
        ClosedByOwnQuotes "Say \"hi\".".toList := by
  obtain ⟨iface, issues, hresolve, hemit⟩ := exists_resolve_describedMotor "Say \"hi\"."
  obtain ⟨-, -, hfiles⟩ := closedByOwnQuotes_docstrings {} hresolve
  refine ⟨iface, issues, hresolve, _, hemit, fun s hs => ?_⟩
  obtain ⟨hstands, hiff⟩ := (hfiles _ hemit s hs).2 _ (List.mem_singleton_self _)
  refine ⟨hstands, hiff.mpr ?_⟩
  rw [if_neg (by decide)]
  decide +kernel

/-- A quote at the end of a description closes the docstring with two of the quotes
behind it. -/
theorem not_forall_closedByOwnQuotes :
    ¬ ∀ settings (cls : DeviceClass) iface issues, cls.resolve = .ok (iface, issues) →
      ∀ files, emit .pythonHL ⟨iface, cls.toClassBody, settings⟩ = .ok files →
        ∀ s ∈ files, ∀ cmd ∈ cls.commands, s.HasDocstring (commandText cmd).toList →
          ClosedByOwnQuotes (commandText cmd).toList := by
  intro hall
  obtain ⟨iface, issues, hresolve, hemit⟩ := exists_resolve_describedMotor "Say \"hi\""
  have hcmd :=
    (DeviceClass.mem_locals_commands_iff hresolve).mpr (List.mem_singleton_self _)
  have hclosed := hall _ _ _ _ hresolve _ hemit _ (List.mem_singleton_self _) _
    (List.mem_singleton_self _)
      (PythonHL.hasDocstring_command (List.mem_singleton_self _) hcmd)
  rw [closedByOwnQuotes_commandText_iff, if_neg (by decide)] at hclosed
  exact absurd hclosed (by decide +kernel)

end DeviceForge
