import DeviceForge.Proofs.OrderedMap
import DeviceForge.Proofs.Zone.Marker
import DeviceForge.Zone.Recovery

/-!
# The zones that lines close

Read without regard to repetitions, lines close one zone after another: a line
that opens a zone forgets the one that is open, and a line that closes the
open zone yields it with its body.  Recovery keeps of these zones exactly the
ones whose id is closed once.
-/

namespace DeviceForge

open Text

namespace Scan

theorem bodyLine_of_isLine {line : List Char} (hline : IsLine line) :
    bodyLine line = line := by
  obtain ⟨content, -, rfl⟩ := hline
  simp [bodyLine]

theorem bodyLine_of_notMem {line : List Char} (hline : '\n' ∉ line) :
    bodyLine line = line ++ ['\n'] := by
  unfold bodyLine
  rw [if_neg]
  intro hlast
  exact hline (List.mem_of_getLast? hlast)

theorem bodyLine_cons {line : List Char} (hline : line ≠ []) (c : Char) :
    bodyLine (c :: line) = c :: bodyLine line := by
  unfold bodyLine
  simp only [List.getLast?_cons, List.getLast?_eq_some_getLast hline, Option.getD_some]
  split <;> rfl

theorem isLine_bodyLine {cs line : List Char} (hline : line ∈ splitLines cs) :
    IsLine (bodyLine line) := by
  rcases isLine_or_of_mem_splitLines hline with h | ⟨h, -⟩
  · rwa [bodyLine_of_isLine h]
  · rw [bodyLine_of_notMem h]
    exact IsLine.concat h

/-- The lines of a text with all their ends are the lines of the ended text. -/
theorem map_bodyLine_splitLines (cs : List Char) :
    (splitLines cs).map bodyLine = splitLines (ended cs) := by
  induction cs with
  | nil => rfl
  | cons c cs ih =>
      by_cases hc : c = '\n'
      · subst c
        rw [ended_newline_cons, splitLines_newline_cons, splitLines_newline_cons,
          List.map_cons, ih]
        rfl
      · cases hlines : splitLines cs with
        | nil =>
            have hcs : cs = [] := by
              by_contra hne
              exact splitLines_ne_nil hne hlines
            subst hcs
            have hended : ended [c] = [c] ++ ['\n'] := by
              apply ended_of_not_complete
              intro h
              exact hc (eq_newline_of_complete_singleton h)
            rw [hended, splitLines_line (by simpa using Ne.symm hc),
              splitLines_cons_of_ne hc, splitLines_nil]
            simp [bodyLine_of_notMem, Ne.symm hc]
        | cons line rest =>
            have hcs : cs ≠ [] := by
              rintro rfl
              simp at hlines
            have hne : line ≠ [] := by
              have hmem : line ∈ splitLines cs := by simp [hlines]
              rcases isLine_or_of_mem_splitLines hmem with ⟨content, -, rfl⟩ | ⟨-, h⟩
              · simp
              · exact h
            rw [ended_cons_of_ne_nil c hcs, splitLines_cons_of_ne hc,
              splitLines_cons_of_ne hc, ← ih, hlines]
            simp [bodyLine_cons hne]

theorem isLine_of_mem_splitLines_ended {cs line : List Char}
    (hline : line ∈ splitLines (ended cs)) : IsLine line := by
  rw [← map_bodyLine_splitLines] at hline
  obtain ⟨raw, hraw, rfl⟩ := List.mem_map.mp hline
  exact isLine_bodyLine hraw

end Scan

/-- A zone between its markers: its id and its body. -/
abbrev ZoneText := ZoneId × List Char

namespace MarkerStyle

variable (style : MarkerStyle)

/-- The zone that is open after a line. -/
def openAfter (opened : Option ZoneText) (line : List Char) : Option ZoneText :=
  match style.read? line with
  | some (.opens id) => some (id, [])
  | some (.closes id) => opened.filter fun zone => zone.1 ≠ id
  | none => opened.map fun zone => (zone.1, zone.2 ++ Scan.bodyLine line)

/-- The zone that a line closes. -/
def closedBy (opened : Option ZoneText) (line : List Char) : Option ZoneText :=
  match style.read? line with
  | some (.closes id) => opened.filter fun zone => zone.1 = id
  | _ => none

def openAfterAll (opened : Option ZoneText) (lines : List (List Char)) :
    Option ZoneText :=
  lines.foldl style.openAfter opened

/-- The zones that lines close, in their order. -/
def closings (opened : Option ZoneText) : List (List Char) → List ZoneText
  | [] => []
  | line :: rest =>
      (style.closedBy opened line).toList ++
        closings (style.openAfter opened line) rest

variable {style}

/-- The lines behind go on from the zone that the lines in front leave open. -/
theorem closings_append (opened : Option ZoneText) (front back : List (List Char)) :
    style.closings opened (front ++ back) =
      style.closings opened front ++
        style.closings (style.openAfterAll opened front) back := by
  induction front generalizing opened with
  | nil => rfl
  | cons line rest ih =>
      rw [List.cons_append, closings, closings, ih, List.append_assoc]
      rfl

/-- A line that opens a zone forgets what was before. -/
theorem closings_cons_of_opens {id : ZoneId} {line : List Char}
    (hline : style.read? line = some (.opens id)) (opened : Option ZoneText)
    (rest : List (List Char)) :
    style.closings opened (line :: rest) = style.closings (some (id, [])) rest := by
  simp [closings, closedBy, openAfter, hline]

theorem closings_cons_of_plain {line : List Char} (hline : style.read? line = none)
    (opened : Option ZoneText) (rest : List (List Char)) :
    style.closings opened (line :: rest) =
      style.closings (opened.map fun zone => (zone.1, zone.2 ++ Scan.bodyLine line))
        rest := by
  simp [closings, closedBy, openAfter, hline]

theorem closings_cons_of_closes {id : ZoneId} {line body : List Char}
    (hline : style.read? line = some (.closes id)) (rest : List (List Char)) :
    style.closings (some (id, body)) (line :: rest) =
      (id, body) :: style.closings none rest := by
  simp [closings, closedBy, openAfter, hline, Option.filter]

/-- Lines that are no markers belong to the open zone. -/
theorem openAfterAll_of_plain {lines : List (List Char)}
    (hlines : ∀ line ∈ lines, style.read? line = none) (opened : Option ZoneText) :
    style.openAfterAll opened lines =
      opened.map fun zone => (zone.1, zone.2 ++ (lines.map Scan.bodyLine).flatten) := by
  induction lines generalizing opened with
  | nil => simp [openAfterAll]
  | cons line rest ih =>
      have hline := hlines line List.mem_cons_self
      have hrest :=
        ih (fun other hother => hlines other (List.mem_cons_of_mem _ hother))
          (style.openAfter opened line)
      simp only [openAfterAll, List.foldl_cons] at hrest ⊢
      rw [hrest]
      simp [openAfter, hline, Function.comp_def]

/-- Only markers close zones. -/
theorem closings_of_plain {lines : List (List Char)}
    (hlines : ∀ line ∈ lines, style.read? line = none) (opened : Option ZoneText) :
    style.closings opened lines = [] := by
  induction lines generalizing opened with
  | nil => rfl
  | cons line rest ih =>
      rw [closings_cons_of_plain (hlines line List.mem_cons_self)]
      exact ih (fun other hother => hlines other (List.mem_cons_of_mem _ hother)) _

theorem read?_bodyLine (line : List Char) :
    style.read? (Scan.bodyLine line) = style.read? line := by
  unfold Scan.bodyLine
  split
  · rfl
  · exact read?_concat_newline style line

/-- Ending the last line makes no marker. -/
theorem plain_ended_iff {cs : List Char} :
    style.Plain (ended cs) ↔ style.Plain cs := by
  rw [Plain, ← Scan.map_bodyLine_splitLines]
  simp [Plain, read?_bodyLine]

/-- Only the marker that a line is and the line as a part of a body count. -/
theorem closings_map_bodyLine (opened : Option ZoneText) {lines : List (List Char)}
    (hlines : ∀ line ∈ lines, IsLine (Scan.bodyLine line)) :
    style.closings opened (lines.map Scan.bodyLine) = style.closings opened lines := by
  induction lines generalizing opened with
  | nil => rfl
  | cons line rest ih =>
      have hbody : Scan.bodyLine (Scan.bodyLine line) = Scan.bodyLine line :=
        Scan.bodyLine_of_isLine (hlines line List.mem_cons_self)
      rw [List.map_cons, closings, closings,
        ih _ fun other hother => hlines other (List.mem_cons_of_mem _ hother)]
      simp only [closedBy, openAfter, read?_bodyLine, hbody]

/-- The zones that a text closes are those that it closes with its last line
ended. -/
theorem closings_splitLines (opened : Option ZoneText) (cs : List Char) :
    style.closings opened (splitLines cs) =
      style.closings opened (splitLines (ended cs)) := by
  rw [← Scan.map_bodyLine_splitLines, closings_map_bodyLine]
  exact fun line hline => Scan.isLine_bodyLine hline

/-- A body is put together from whole lines that are no markers. -/
def ZoneBody (style : MarkerStyle) (body : List Char) : Prop :=
  Complete body ∧ style.Plain body

theorem zoneBody_nil (style : MarkerStyle) : style.ZoneBody [] :=
  ⟨complete_nil, plain_nil style⟩

theorem ZoneBody.append_line {body line : List Char} (hbody : style.ZoneBody body)
    (hline : IsLine line) (hread : style.read? line = none) :
    style.ZoneBody (body ++ line) :=
  ⟨hbody.1.append hline.complete,
    (plain_append_iff hbody.1).mpr ⟨hbody.2, (plain_iff_of_isLine hline).mpr hread⟩⟩

/-- Whatever the lines are, a zone that they close has a body of whole lines
that are no markers. -/
theorem zoneBody_of_mem_closings {opened : Option ZoneText}
    (hopened : ∀ zone ∈ opened, style.ZoneBody zone.2) {lines : List (List Char)}
    (hlines : ∀ line ∈ lines, IsLine (Scan.bodyLine line)) {zone : ZoneText}
    (hzone : zone ∈ style.closings opened lines) : style.ZoneBody zone.2 := by
  induction lines generalizing opened with
  | nil => simp [closings] at hzone
  | cons line rest ih =>
      rw [closings, List.mem_append] at hzone
      rcases hzone with hzone | hzone
      · have hmem : zone ∈ opened := by
          unfold closedBy at hzone
          cases hread : style.read? line with
          | none => simp [hread] at hzone
          | some marker =>
              cases marker with
              | opens id => simp [hread] at hzone
              | closes id =>
                  simp only [hread, Option.mem_toList, Option.filter_eq_some_iff]
                    at hzone
                  exact hzone.1
        exact hopened zone hmem
      · refine ih ?_ (fun other hother => hlines other (List.mem_cons_of_mem _ hother))
          hzone
        intro next hnext
        unfold openAfter at hnext
        cases hread : style.read? line with
        | none =>
            simp only [hread, Option.mem_def, Option.map_eq_some_iff] at hnext
            obtain ⟨before, hbefore, rfl⟩ := hnext
            exact (hopened before hbefore).append_line (hlines line List.mem_cons_self)
              (by rw [read?_bodyLine, hread])
        | some marker =>
            cases marker with
            | opens id =>
                simp only [hread, Option.mem_def, Option.some.injEq] at hnext
                subst hnext
                exact zoneBody_nil style
            | closes id =>
                simp only [hread, Option.mem_def, Option.filter_eq_some_iff] at hnext
                exact hopened next hnext.1

end MarkerStyle

end DeviceForge
