import DeviceForge.Proofs.Source.Layout

/-!
# What a layout writes

A file is made of its pieces one after another: each line and each zone ends its
last line, so what a part of a layout writes stands in the file as it is and
starts a line there.
-/

namespace DeviceForge

open Text

namespace Layout

section Written

variable (style : MarkerStyle) (content : ZoneId → Option String) (unit : String)

/-- What a piece writes, where the zones hold what `content` gives them. -/
def pieceChars : Piece → List Char
  | .line depth text => (lineText unit depth text).toList
  | .zone depth id body =>
      Skeleton.zoneChars style id (indentText unit depth)
        ((content id).getD (Text.endLine (indentLines body (indentText unit depth))))

def written (l : Layout) : List Char :=
  l.flatMap (pieceChars style content unit)

end Written

variable {style : MarkerStyle} {content : ZoneId → Option String} {unit : String}

@[simp]
theorem written_nil : written style content unit [] = [] := rfl

@[simp]
theorem written_append (front back : Layout) :
    written style content unit (front ++ back) =
      written style content unit front ++ written style content unit back :=
  List.flatMap_append

@[simp]
theorem written_lines (texts : List String) :
    written style content unit (lines texts) =
      texts.flatMap fun text => text.toList ++ ['\n'] := by
  simp only [written, lines, List.flatMap_map, pieceChars, toList_lineText_zero]

@[simp]
theorem written_line (text : String) :
    written style content unit (line text) = text.toList ++ ['\n'] := by
  simp [written, line, pieceChars, toList_lineText_zero]

theorem complete_pieceChars (piece : Piece) :
    Complete (pieceChars style content unit piece) := by
  cases piece with
  | line depth text => exact complete_lineText depth text
  | zone depth id body => exact complete_concat _

theorem complete_written (l : Layout) : Complete (written style content unit l) := by
  rw [written, List.flatMap_def]
  refine Complete.flatten fun text htext => ?_
  obtain ⟨piece, -, rfl⟩ := List.mem_map.mp htext
  exact complete_pieceChars piece

/-- A text that ends a line leaves the next one to what follows it. -/
theorem atLineStart_append_of_complete {front : List Char} (hfront : Complete front)
    (back : List Char) :
    Skeleton.atLineStart true (front ++ back) = Skeleton.atLineStart true back := by
  rcases List.eq_nil_or_concat back with rfl | ⟨rest, last, rfl⟩
  · rcases hfront with rfl | hfront
    · rfl
    · simp [Skeleton.atLineStart, hfront]
  · simp [Skeleton.atLineStart, ← List.append_assoc]

/-- Joining neighbouring lines into one text does not change what is written. -/
theorem renderFrom_segments (l : Layout) :
    Skeleton.renderFrom style content true (segments unit l) =
      written style content unit l := by
  induction l with
  | nil => rfl
  | cons piece rest ih =>
      rw [written, List.flatMap_cons, ← written, ← ih]
      cases piece with
      | zone depth id body => simp [segments, Skeleton.renderFrom, pieceChars]
      | line depth text =>
          have hcomplete : Complete (lineText unit depth text).toList :=
            complete_lineText depth text
          rcases segments_line_cases unit depth text rest with
            ⟨more, others, hrest, hsegments⟩ | ⟨-, hsegments⟩
          · rw [hsegments, hrest, Skeleton.renderFrom, Skeleton.renderFrom,
              String.toList_append, atLineStart_append_of_complete hcomplete,
              List.append_assoc]
            rfl
          · have hstart := atLineStart_append_of_complete hcomplete []
            rw [List.append_nil] at hstart
            rw [hsegments, Skeleton.renderFrom, hstart]
            rfl

/-- A file holds what its layout writes. -/
theorem toList_render_toSkeleton (file : String) (l : Layout) :
    ((l.toSkeleton file style unit).render content).toList =
      written style content unit l := by
  rw [Skeleton.render, String.toList_ofList]
  exact renderFrom_segments l

/-- What the part writes stands in the file from the start of a line, whatever the zones
of the file hold. -/
def PartOf (part : Layout) (unit : String) (s : Skeleton) : Prop :=
  ∀ content, ∃ before after, Complete before ∧
    (s.render content).toList = before ++ written s.style content unit part ++ after

theorem partOf_toSkeleton {part l : Layout} (h : part <:+: l) (file : String)
    (style : MarkerStyle) (unit : String) :
    part.PartOf unit (l.toSkeleton file style unit) := by
  obtain ⟨front, back, rfl⟩ := h
  intro content
  refine ⟨written style content unit front, written style content unit back,
    complete_written front, ?_⟩
  rw [toList_render_toSkeleton, written_append, written_append]
  rfl

/-- A piece of the layout stands in its file. -/
theorem partOf_of_mem {piece : Piece} {l : Layout} (h : piece ∈ l) (file : String)
    (style : MarkerStyle) (unit : String) :
    PartOf [piece] unit (l.toSkeleton file style unit) :=
  partOf_toSkeleton ((List.singleton_infix_iff piece l).mpr h) file style unit

end Layout

end DeviceForge
