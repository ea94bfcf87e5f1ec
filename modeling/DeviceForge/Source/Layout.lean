import DeviceForge.Skeleton

/-!
# Layouts

A layout is a file before it is known how deep a level of indentation is: lines and
zones, each at a depth. Layouts are put together with `++` and `stacked`, and moved
right with `indented`; `toSkeleton` writes them out. Neighbouring lines become one
segment of generated text.
-/

namespace DeviceForge

inductive Piece where
  | line (depth : Nat) (text : String)
  /-- A zone with its default body, which is indented like its markers. -/
  | zone (depth : Nat) (id : ZoneId) (body : String)
  deriving DecidableEq, Repr

abbrev Layout :=
  List Piece

namespace Layout

def line (text : String) : Layout :=
  [.line 0 text]

def lines (texts : List String) : Layout :=
  texts.map (.line 0)

def blank : Layout :=
  line ""

def zone (id : ZoneId) (body : String) : Layout :=
  [.zone 0 id body]

def indentPiece : Piece → Piece
  | .line depth text => .line (depth + 1) text
  | .zone depth id body => .zone (depth + 1) id body

def indented (l : Layout) : Layout :=
  l.map indentPiece

/-- A layout one level deeper between braces on lines of their own. -/
def braced (l : Layout) : Layout :=
  line "\x7b" ++ indented l ++ line "\x7d"

/-- Parts below one another. -/
def stacked (parts : List Layout) : Layout :=
  parts.flatten

def forEach {α : Type} (items : List α) (f : α → Layout) : Layout :=
  items.flatMap f

/-- A part that is there only if it has something to show. -/
def unlessEmpty {α : Type} (items : List α) (l : Layout) : Layout :=
  if items.isEmpty then [] else l

def indentText (unit : String) (depth : Nat) : String :=
  String.join (List.replicate depth unit)

/-- A line with its line feed. An empty line is not indented. -/
def lineText (unit : String) (depth : Nat) (text : String) : String :=
  if text.isEmpty then "\n" else indentText unit depth ++ text ++ "\n"

def segments (unit : String) : Layout → List Segment
  | [] => []
  | .line depth text :: rest =>
    match segments unit rest with
    | .text more :: others => .text (lineText unit depth text ++ more) :: others
    | others => .text (lineText unit depth text) :: others
  | .zone depth id body :: rest =>
    let indent := indentText unit depth
    .zone id (Text.endLine (Text.indentLines body indent)) indent :: segments unit rest

def toSkeleton (file : String) (style : MarkerStyle) (unit : String) (l : Layout) :
    Skeleton :=
  ⟨file, style, segments unit l⟩

end Layout

end DeviceForge
