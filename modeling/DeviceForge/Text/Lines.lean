import DeviceForge.Text.Blank

/-!
# Lines

A line ends with a line feed, which belongs to it; only the last line of a text may lack
one. The lines of a text put together are the text (`flatten_splitLines`). The contents
of a line leave out its line feed and a carriage return right before that.
-/

namespace DeviceForge.Text

/-- The lines of a text, each with its line feed. -/
def splitLines : List Char → List (List Char)
  | [] => []
  | c :: cs =>
    if c = '\n' then ['\n'] :: splitLines cs
    else
      match splitLines cs with
      | [] => [[c]]
      | line :: rest => (c :: line) :: rest

/-- The lines of a text make up the text. -/
@[simp]
theorem flatten_splitLines (cs : List Char) : (splitLines cs).flatten = cs := by
  induction cs with
  | nil => rfl
  | cons c cs ih =>
      by_cases hc : c = '\n'
      · simp [splitLines, hc, ih]
      · cases hs : splitLines cs with
        | nil =>
            rw [hs] at ih
            simpa only [splitLines, hc, if_false, hs, List.flatten_cons,
              List.flatten_nil, List.append_nil, List.cons.injEq, true_and] using ih
        | cons line rest =>
            rw [hs] at ih
            simpa only [splitLines, hc, if_false, hs, List.flatten_cons,
              List.cons_append, List.cons.injEq, true_and] using ih

/-- A line without its end: a line feed, and a carriage return only before a line feed.
-/
def chomp (line : List Char) : List Char :=
  match line.reverse with
  | '\n' :: '\r' :: rest => rest.reverse
  | '\n' :: rest => rest.reverse
  | _ => line

def lines (s : String) : List String :=
  (splitLines s.toList).map fun line => String.ofList (chomp line)

/-- The text itself if it is empty or ends its last line, else the text with that line
ended. -/
def endLine (s : String) : String :=
  if s.toList.isEmpty || s.toList.getLast? == some '\n' then s else s ++ "\n"

/-- Indents every line that is not blank. A blank line loses its leading spaces and
tabs, so that no line gains white space at its end. -/
def indentLines (text indent : String) : String :=
  String.ofList <| (splitLines text.toList).flatMap fun line =>
    if line.all isBlank then line.dropWhile (fun c => c == ' ' || c == '\t')
    else indent.toList ++ line

end DeviceForge.Text
