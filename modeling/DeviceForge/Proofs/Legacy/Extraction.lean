import DeviceForge.Legacy.Extraction
import DeviceForge.Proofs.Text.Blank
import DeviceForge.Proofs.Text.Lines

/-!
# Reading methods out of a legacy source

A legacy source lists its methods one after the other: a header line, the lines
of a signature, and the body between a line that opens a brace and one that
closes it.  The scan that looks for the closing brace counts braces line by line
and knows nothing of the lists that follow.  It stops at the line that ends the
method as long as no line of the body closes more braces than are open.
-/

namespace DeviceForge

open Text

namespace Extraction

/-- A line as it is read from a source: a carriage return at its end is taken for a part
of the line break. -/
def readLine (line : List Char) : List Char :=
  chomp (line ++ ['\n'])

theorem readLine_of_getLast? {line : List Char} (h : line.getLast? ≠ some '\r') :
    readLine line = line :=
  chomp_line h

/-- What is read as part of the line break is blank. -/
theorem trimChars_readLine (line : List Char) :
    trimChars (readLine line) = trimChars line := by
  have hnewline : AllBlank ['\n'] := List.forall_mem_singleton.mpr rfl
  obtain ⟨ending, hline, hending⟩ := exists_eq_chomp_append (line ++ ['\n'])
  have hblank : AllBlank ending := by
    rcases hending with rfl | rfl | rfl
    · exact fun c hc => absurd hc List.not_mem_nil
    · exact hnewline
    · exact AllBlank.append (List.forall_mem_singleton.mpr rfl) hnewline
  rw [← trimChars_append_of_allBlank_right hnewline line, hline,
    trimChars_append_of_allBlank_right hblank]
  rfl

theorem splitLines_bodyText {lines : List (List Char)}
    (h : ∀ line ∈ lines, '\n' ∉ line) :
    splitLines (bodyText lines).toList = lines.map (· ++ ['\n']) := by
  rw [bodyText, String.toList_ofList, List.flatMap_def, splitLines_flatten]
  intro line hline
  obtain ⟨content, hcontent, rfl⟩ := List.mem_map.mp hline
  exact IsLine.concat (h content hcontent)

/-- The lines of a text are read back one by one. -/
theorem map_chomp_splitLines_bodyText {lines : List (List Char)}
    (h : ∀ line ∈ lines, '\n' ∉ line) :
    (splitLines (bodyText lines).toList).map chomp = lines.map readLine := by
  rw [splitLines_bodyText h, List.map_map]
  rfl

theorem header?_of_trimChars_eq {line other : List Char}
    (h : trimChars line = trimChars other) :
    header? line = header? other := by
  rw [header?, header?, h]

theorem isHeader_of_trimChars_eq {line other : List Char}
    (h : trimChars line = trimChars other) :
    isHeader line = isHeader other := by
  rw [isHeader, isHeader, header?_of_trimChars_eq h]

def bracedHeader (id : ZoneId) : List Char :=
  bracedLead ++ ' ' :: id.text.toList

/-- The header of a method is read back as it was written. -/
theorem header?_bracedHeader {id : ZoneId}
    (htrim : trimChars id.text.toList = id.text.toList) (hne : id.text.toList ≠ []) :
    header? (bracedHeader id) = some (.braced, id.text.toList) := by
  have htrailing := dropTrailing_append (trimChars_eq_self_iff.mp htrim).2 hne
    (bracedLead ++ [' '])
  have hheader : trimChars (bracedHeader id) = bracedHeader id := by
    refine trimChars_eq_self_iff.mpr ⟨dropLeading_cons_of_not_blank (by decide) _, ?_⟩
    rwa [bracedHeader, ← List.singleton_append, ← List.append_assoc]
  have hid : trimChars (' ' :: id.text.toList) = id.text.toList := by
    have hspace : AllBlank [' '] := allBlank_replicate_space 1
    rw [← List.singleton_append, trimChars_append_of_allBlank_left hspace, htrim]
  have hrest : afterStart? bracedLead (bracedHeader id) =
      some (' ' :: id.text.toList) :=
    afterStart?_eq_some_iff.mpr rfl
  simp only [header?, hheader, hrest, hid]

/-- What a header names is a stretch of its line. -/
theorem isInfix_of_header? {line raw : List Char} {shape : BodyShape}
    (h : header? line = some (shape, raw)) : raw <:+: line := by
  have hcut : ∀ lead rest, afterStart? lead (trimChars line) = some rest →
      trimChars rest <:+: line := by
    intro lead rest hrest
    have hsuffix : rest <:+ trimChars line :=
      ⟨lead, (afterStart?_eq_some_iff.mp hrest).symm⟩
    exact ((trimChars_isInfix rest).trans hsuffix.isInfix).trans
      (trimChars_isInfix line)
  simp only [header?] at h
  split at h
  · next rest hrest =>
      obtain ⟨-, rfl⟩ := Prod.mk.inj (Option.some.inj h)
      exact hcut _ _ hrest
  · obtain ⟨rest, hrest, hpair⟩ := Option.map_eq_some_iff.mp h
    obtain ⟨-, rfl⟩ := Prod.mk.inj hpair
    exact hcut _ _ hrest

theorem text_ne_nil_of_isFillable {id : ZoneId} (h : isFillable id = true) :
    id.text.toList ≠ [] := by
  intro hnil
  rw [isFillable, ZoneId.slot?, hnil] at h
  exact absurd h (by decide)

/-! ## Braces -/

def totalBalance (lines : List (List Char)) : Int :=
  (lines.map balance).sum

@[simp]
theorem totalBalance_nil : totalBalance [] = 0 := rfl

@[simp]
theorem totalBalance_cons (line : List Char) (lines : List (List Char)) :
    totalBalance (line :: lines) = balance line + totalBalance lines := by
  simp [totalBalance]

@[simp]
theorem totalBalance_append (front back : List (List Char)) :
    totalBalance (front ++ back) = totalBalance front + totalBalance back := by
  simp [totalBalance]

/-- Lines that close as many braces as they open, and never more than are open. -/
@[mk_iff]
structure Balanced (lines : List (List Char)) : Prop where
  nonneg : ∀ front, front <+: lines → 0 ≤ totalBalance front
  total : totalBalance lines = 0

instance (lines : List (List Char)) : Decidable (Balanced lines) :=
  decidable_of_iff
    ((∀ front ∈ lines.inits, 0 ≤ totalBalance front) ∧ totalBalance lines = 0)
      (by simp only [balanced_iff, List.mem_inits])

/-- Nothing but blanks stands before the first closing brace of the line. -/
def StartsClosing (line : List Char) : Prop :=
  (dropLeading line).head? = some '\x7d'

instance (line : List Char) : Decidable (StartsClosing line) :=
  inferInstanceAs (Decidable (_ = _))

/-- The scan goes on while braces are open, and ends at a line that closes the last of
them. -/
theorem untilClosed?_append {depth : Int} {inner : List (List Char)}
    {closing : List Char}
    (hopen : ∀ front, front <+: inner → 0 < depth + totalBalance front)
    (hclosed : depth + totalBalance (inner ++ [closing]) ≤ 0)
    (rest : List (List Char)) :
    untilClosed? depth (inner ++ closing :: rest) =
      some (if StartsClosing closing then inner else inner ++ [closing]) := by
  induction inner generalizing depth with
  | nil =>
      have hclosing : depth + balance closing ≤ 0 := by simpa using hclosed
      rw [List.nil_append, untilClosed?, if_pos hclosing]
      by_cases hstarts : StartsClosing closing
      · rw [if_pos hstarts]
        exact if_pos hstarts
      · rw [if_neg hstarts]
        exact if_neg hstarts
  | cons line lines ih =>
      have hline : ¬ depth + balance line ≤ 0 := by
        have := hopen [line] (by simp)
        simp only [totalBalance_cons, totalBalance_nil] at this
        omega
      rw [List.cons_append, untilClosed?, if_neg hline, ih, Option.map_some]
      · split <;> rfl
      · intro front hfront
        have := hopen (line :: front) (List.cons_prefix_cons.mpr ⟨rfl, hfront⟩)
        rw [totalBalance_cons] at this
        omega
      · rw [List.cons_append, totalBalance_cons] at hclosed
        omega

/-- A body that is found ends at the first line on which no brace is left open. -/
theorem exists_of_untilClosed? {depth : Int} (hdepth : 0 < depth)
    {lines body : List (List Char)} (h : untilClosed? depth lines = some body) :
    ∃ inner closing rest, lines = inner ++ closing :: rest ∧
      (∀ front, front <+: inner → 0 < depth + totalBalance front) ∧
      depth + totalBalance (inner ++ [closing]) ≤ 0 := by
  induction lines generalizing depth body with
  | nil => exact absurd h (by simp [untilClosed?])
  | cons line lines ih =>
      rw [untilClosed?] at h
      split at h
      · next hclosed =>
          refine ⟨[], line, lines, rfl, fun front hfront => ?_, by simpa using hclosed⟩
          rw [List.prefix_nil.mp hfront]
          simpa using hdepth
      · next hclosed =>
          obtain ⟨found, hfound, -⟩ := Option.map_eq_some_iff.mp h
          obtain ⟨inner, closing, rest, rfl, hopen, hend⟩ := ih (by omega) hfound
          refine ⟨line :: inner, closing, rest, rfl, fun front hfront => ?_, ?_⟩
          · cases front with
            | nil => simpa using hdepth
            | cons first front =>
                obtain ⟨rfl, hrest⟩ := List.cons_prefix_cons.mp hfront
                have := hopen front hrest
                rw [totalBalance_cons]
                omega
          · rw [List.cons_append, totalBalance_cons]
            omega

/-- Lines of a signature without braces are passed over. -/
theorem fromBrace?_append {signature : List (List Char)}
    (hsignature : ∀ line ∈ signature, isHeader line = false ∧ '\x7b' ∉ line)
    {opening : List Char} (hheader : isHeader opening = false)
    (hbrace : '\x7b' ∈ opening) (rest : List (List Char)) :
    fromBrace? (signature ++ opening :: rest) = some (opening :: rest) := by
  induction signature with
  | nil => simp [fromBrace?, hheader, hbrace]
  | cons line lines ih =>
      rw [List.forall_mem_cons] at hsignature
      obtain ⟨⟨hline, hnone⟩, hlines⟩ := hsignature
      rw [List.cons_append, fromBrace?, hline, ih hlines]
      simp [hnone]

/-- What is found starts at the first line with a brace, and no header stands before it.
-/
theorem exists_of_fromBrace? {lines found : List (List Char)}
    (h : fromBrace? lines = some found) :
    ∃ signature opening rest, lines = signature ++ opening :: rest ∧
      found = opening :: rest ∧
      (∀ line ∈ signature, isHeader line = false ∧ '\x7b' ∉ line) ∧
      isHeader opening = false ∧ '\x7b' ∈ opening := by
  induction lines with
  | nil => exact absurd h (by simp [fromBrace?])
  | cons line lines ih =>
      rw [fromBrace?] at h
      split at h
      · exact absurd h (by simp)
      · next hheader =>
          rw [Bool.not_eq_true] at hheader
          split at h
          · next hbrace =>
              refine ⟨[], line, lines, rfl, (Option.some.inj h).symm, by simp,
                hheader, ?_⟩
              simpa using hbrace
          · next hbrace =>
              obtain ⟨signature, opening, rest, rfl, hfound, hsignature, hopening⟩ :=
                ih h
              refine ⟨line :: signature, opening, rest, rfl, hfound, ?_, hopening⟩
              exact List.forall_mem_cons.mpr ⟨⟨hheader, by simpa using hbrace⟩,
                hsignature⟩

/-- Balanced lines between two braces on lines of their own are found as they are. -/
theorem bracedBody?_eq {signature body : List (List Char)}
    (hsignature : ∀ line ∈ signature, isHeader line = false ∧ '\x7b' ∉ line)
    (hbody : Balanced body) (rest : List (List Char)) :
    bracedBody? (signature ++ ['\x7b'] :: (body ++ ['\x7d'] :: rest)) = some body := by
  have hscan : untilClosed? 1 (body ++ ['\x7d'] :: rest) = some body := by
    refine untilClosed?_append (fun front hfront => ?_) ?_ rest
    · have := hbody.nonneg front hfront
      omega
    · rw [totalBalance_append, hbody.total]
      decide
  rw [bracedBody?, fromBrace?_append hsignature (by decide) (by decide)]
  exact hscan

/-! ## Methods -/

/-- A method that is found has a header, its id is one that may be filled, and its body
is looked for in the lines below the header. -/
theorem exists_header_of_mem_methodsIn {lines : List (List Char)} {found : FoundMethod}
    (h : found ∈ methodsIn lines) :
    isFillable found.id = true ∧ ∃ i line shape, lines[i]? = some line ∧
      header? line = some (shape, found.id.text.toList) ∧
      found.body = body? shape (lines.drop (i + 1)) := by
  induction lines with
  | nil => exact absurd h List.not_mem_nil
  | cons first rest ih =>
      have hrest (hmem : found ∈ methodsIn rest) : isFillable found.id = true ∧
          ∃ i line shape, (first :: rest)[i]? = some line ∧
            header? line = some (shape, found.id.text.toList) ∧
            found.body = body? shape ((first :: rest).drop (i + 1)) := by
        obtain ⟨hfillable, i, line, shape, hline, hheader, hbody⟩ := ih hmem
        exact ⟨hfillable, i + 1, line, shape, hline, hheader, hbody⟩
      rw [methodsIn] at h
      split at h
      · exact hrest h
      · next shape raw hheader =>
          simp only at h
          split at h
          · next hfillable =>
              rcases List.mem_cons.mp h with rfl | h
              · exact ⟨hfillable, 0, first, shape, rfl, by simpa using hheader, rfl⟩
              · exact hrest h
          · exact hrest h

/-- Lines that are no headers hold no methods. -/
theorem methodsIn_append {front : List (List Char)}
    (hfront : ∀ line ∈ front, isHeader line = false) (rest : List (List Char)) :
    methodsIn (front ++ rest) = methodsIn rest := by
  induction front with
  | nil => rfl
  | cons line lines ih =>
      rw [List.forall_mem_cons, isHeader, Option.isSome_eq_false_iff,
        Option.isNone_iff_eq_none] at hfront
      rw [List.cons_append, methodsIn, hfront.1]
      exact ih hfront.2

theorem isBlankText_bodyText {lines : List (List Char)}
    (h : ¬ ∀ line ∈ lines, AllBlank line) : isBlankText (bodyText lines) = false := by
  rw [isBlankText, bodyText, String.toList_ofList, ← Bool.not_eq_true, List.all_eq_true]
  exact fun hall => h fun line hline c hc =>
    hall c (List.mem_flatMap.mpr ⟨line, hline, List.mem_append_left _ hc⟩)

/-- One listed method is found, with its body, and the search goes on behind it. -/
theorem methodsIn_listed {head : List Char} {id : ZoneId}
    {signature body : List (List Char)}
    (hhead : header? head = some (.braced, id.text.toList)) (hid : isFillable id = true)
    (hsignature : ∀ line ∈ signature, isHeader line = false ∧ '\x7b' ∉ line)
    (hbody : ∀ line ∈ body, isHeader line = false)
    (hblank : ¬ ∀ line ∈ body, AllBlank line) (hbalanced : Balanced body)
    (rest : List (List Char)) :
    methodsIn (head :: (signature ++ ['\x7b'] :: (body ++ ['\x7d'] :: rest))) =
      ⟨id, some (bodyText body)⟩ :: methodsIn rest := by
  have hfound : body? .braced (signature ++ ['\x7b'] :: (body ++ ['\x7d'] :: rest)) =
      some (bodyText body) := by
    simp [body?, bracedBody?_eq hsignature hbalanced, isBlankText_bodyText hblank]
  have hskip : methodsIn (signature ++ ['\x7b'] :: (body ++ ['\x7d'] :: rest)) =
      methodsIn rest := by
    have hopening : ∀ line ∈ [['\x7b']], isHeader line = false := by decide
    have hclosing : ∀ line ∈ [['\x7d']], isHeader line = false := by decide
    rw [methodsIn_append fun line hline => (hsignature line hline).1,
      ← List.singleton_append, methodsIn_append hopening, methodsIn_append hbody,
      ← List.singleton_append, methodsIn_append hclosing]
  simp only [methodsIn, hhead, String.ofList_toList, hid, if_true, hfound, hskip]

end Extraction

open Extraction

theorem isFillable_of_mem_extractMethods {source : String} {found : FoundMethod}
    (h : found ∈ extractMethods source) : isFillable found.id = true :=
  (exists_header_of_mem_methodsIn h).1

/-- An id that is found stands on one line. -/
theorem newline_notMem_of_mem_extractMethods {source : String} {found : FoundMethod}
    (h : found ∈ extractMethods source) : '\n' ∉ found.id.text.toList := by
  obtain ⟨-, i, content, shape, hcontent, hheader, -⟩ :=
    exists_header_of_mem_methodsIn h
  obtain ⟨line, hline, rfl⟩ := List.mem_map.mp (List.mem_of_getElem? hcontent)
  exact fun hmem =>
    newline_notMem_chomp hline ((isInfix_of_header? hheader).subset hmem)

/-- A method that a legacy source lists: the id in its header, the lines of its
signature, and the lines between its braces. -/
structure ListedMethod where
  id : ZoneId
  signature : List (List Char)
  body : List (List Char)

namespace ListedMethod

def lines (m : ListedMethod) : List (List Char) :=
  bracedHeader m.id :: (m.signature ++ ['\x7b'] :: (m.body ++ [['\x7d']]))

def found (m : ListedMethod) : FoundMethod :=
  ⟨m.id, some (bodyText m.body)⟩

/-- A method that its listing shows unambiguously: the id is one that sources give
bodies for, no line is another header, and the braces of the body match. -/
@[mk_iff]
structure WellFormed (m : ListedMethod) : Prop where
  trim_id : trimChars m.id.text.toList = m.id.text.toList
  newline_notMem_id : '\n' ∉ m.id.text.toList
  member_or_class : m.id.slot?.isSome = true ∨ "class:".toList <+: m.id.text.toList
  signature : ∀ line ∈ m.signature, '\n' ∉ line ∧ isHeader line = false ∧ '\x7b' ∉ line
  body : ∀ line ∈ m.body, '\n' ∉ line ∧ isHeader line = false ∧
    line.getLast? ≠ some '\r'
  not_blank : ¬ ∀ line ∈ m.body, AllBlank line
  balanced : Balanced m.body

instance (m : ListedMethod) : Decidable m.WellFormed :=
  decidable_of_iff' _ (wellFormed_iff m)

variable {m : ListedMethod}

theorem WellFormed.isFillable_id (h : m.WellFormed) : isFillable m.id = true := by
  rw [isFillable, Bool.or_eq_true]
  refine h.member_or_class.imp (fun hslot => hslot) fun hclass => ?_
  obtain ⟨rest, hrest⟩ := hclass
  rw [afterStart?_eq_some_iff.mpr hrest.symm]
  rfl

theorem WellFormed.newline_notMem (h : m.WellFormed) :
    ∀ line ∈ m.lines, '\n' ∉ line := by
  have hbrace : '\n' ∉ ['\x7b'] ∧ '\n' ∉ ['\x7d'] := by decide
  have hheader : '\n' ∉ bracedHeader m.id := by
    have hlead : '\n' ∉ bracedLead := by decide
    simp [bracedHeader, hlead, h.newline_notMem_id]
  intro line hline
  simp only [lines, List.mem_cons, List.mem_append, List.not_mem_nil, or_false] at hline
  rcases hline with rfl | hline | rfl | hline | rfl
  · exact hheader
  · exact (h.signature line hline).1
  · exact hbrace.1
  · exact (h.body line hline).1
  · exact hbrace.2

/-- A method is found wherever it stands in a source. -/
theorem WellFormed.methodsIn_lines (h : m.WellFormed) (rest : List (List Char)) :
    methodsIn (m.lines.map readLine ++ rest) = m.found :: methodsIn rest := by
  have hbody : m.body.map readLine = m.body :=
    (List.map_congr_left fun line hline =>
      readLine_of_getLast? (h.body line hline).2.2).trans
      m.body.map_id
  have hlines : m.lines.map readLine ++ rest = readLine (bracedHeader m.id) ::
      (m.signature.map readLine ++ ['\x7b'] :: (m.body ++ ['\x7d'] :: rest)) := by
    simp only [lines, List.map_cons, List.map_append, hbody, List.map_nil,
      List.cons_append, List.append_assoc, List.nil_append]
    rfl
  have hhead : header? (readLine (bracedHeader m.id)) =
      some (.braced, m.id.text.toList) := by
    rw [header?_of_trimChars_eq (trimChars_readLine _)]
    exact header?_bracedHeader h.trim_id (text_ne_nil_of_isFillable h.isFillable_id)
  have hsignature : ∀ line ∈ m.signature.map readLine, isHeader line = false ∧
      '\x7b' ∉ line := by
    intro line hline
    obtain ⟨written, hwritten, rfl⟩ := List.mem_map.mp hline
    obtain ⟨-, hheader, hbrace⟩ := h.signature written hwritten
    rw [isHeader_of_trimChars_eq (trimChars_readLine _)]
    exact ⟨hheader, fun hmem => hbrace ((chomp_concat_isPrefix written).subset hmem)⟩
  rw [hlines]
  exact methodsIn_listed hhead h.isFillable_id hsignature
    (fun line hline => (h.body line hline).2.1) h.not_blank h.balanced rest

end ListedMethod

/-- The source that lists some methods one after the other. -/
def sourceOf (methods : List ListedMethod) : String :=
  bodyText (methods.flatMap ListedMethod.lines)

/-- A source gives back the methods that it lists, in their order, each with the lines
between its braces. -/
theorem extractMethods_sourceOf {methods : List ListedMethod}
    (h : ∀ m ∈ methods, m.WellFormed) :
    extractMethods (sourceOf methods) =
      methods.map fun m => ⟨m.id, some (bodyText m.body)⟩ := by
  have hlines : ∀ line ∈ methods.flatMap ListedMethod.lines, '\n' ∉ line := by
    intro line hline
    obtain ⟨m, hm, hline⟩ := List.mem_flatMap.mp hline
    exact (h m hm).newline_notMem line hline
  rw [extractMethods, sourceOf, map_chomp_splitLines_bodyText hlines]
  clear hlines
  induction methods with
  | nil => rfl
  | cons m rest ih =>
      rw [List.forall_mem_cons] at h
      rw [List.flatMap_cons, List.map_append, h.1.methodsIn_lines, ih h.2]
      rfl

/-- A body with nested braces, below a signature whose lines end in carriage returns,
and a body of the class without any signature. -/
def motorMethods : List ListedMethod :=
  [{ id := .ofMember .attribute "Speed" .read
     signature :=
       ["void Motor::read_Speed(".toList ++ ['\r'],
        "  Attribute &attr)".toList ++ ['\r']]
     body :=
       ["  if (ready) \x7b".toList, "    set();".toList, "  \x7d else \x7b".toList, [],
        "  \x7d".toList] },
   { id := .ofClass .members
     signature := []
     body := ["  int count;".toList] }]

theorem extractMethods_sourceOf_motorMethods :
    (∀ m ∈ motorMethods, m.WellFormed) ∧ extractMethods (sourceOf motorMethods) =
      [⟨.ofMember .attribute "Speed" .read,
        some "  if (ready) \x7b\n    set();\n  \x7d else \x7b\n\n  \x7d\n"⟩,
       ⟨.ofClass .members, some "  int count;\n"⟩] := by
  have hwell : ∀ m ∈ motorMethods, m.WellFormed := by decide +kernel
  exact ⟨hwell, (extractMethods_sourceOf hwell).trans (by rfl)⟩

end DeviceForge
