import DeviceForge.Document.Yaml.Scalar
import DeviceForge.Document.Yaml.Whitespace

/-!
# Block scalars

A block scalar is made of the lines after its header that are indented far enough. Its
column is given in the header or follows from its first lines. A literal block keeps its
line ends. In a folded one, lines next to each other are joined unless one of them
starts with white space. The header also says which of the last line ends are kept.
-/

namespace DeviceForge.Yaml

/-- Which line ends at the end of a block are kept. -/
inductive Chomping where
  | strip
  | clip
  | keep
  deriving DecidableEq

structure BlockHeader where
  chomping : Chomping := .clip
  /-- How much further right the block stands than what it is in, if that is given. -/
  increment : Option Nat := none

namespace BlockHeader

def withChomping (h : BlockHeader) : List Char → BlockHeader × List Char
  | '+' :: rest => ({ h with chomping := .keep }, rest)
  | '-' :: rest => ({ h with chomping := .strip }, rest)
  | rest => (h, rest)

/-- An increment is one digit, and not zero. -/
def withIncrement? (h : BlockHeader) (text : List Char) :
    Option (BlockHeader × List Char) :=
  match text with
  | [] => some (h, text)
  | c :: rest =>
    if c = '0' then none
    else if c.isDigit then
      some ({ h with increment := some (Decimal.digitValue c) }, rest)
    else some (h, text)

/-- The header after the mark of a block, and what follows its line. The two indicators
stand in either order. -/
def read? (text : List Char) : Option (BlockHeader × List Char) := do
  let (h, rest) ←
    if text.head? == some '+' || text.head? == some '-' then
      let (h, rest) := withChomping {} text
      h.withIncrement? rest
    else (withIncrement? {} text).map fun (h, rest) => h.withChomping rest
  return (h, ← afterLine? rest)

end BlockHeader

structure Line where
  contents : List Char
  ending : List Char := []

namespace Line

def isSpaces (line : Line) : Bool :=
  line.contents.all (· = ' ')

def spaces (line : Line) : Nat :=
  (line.contents.takeWhile (· = ' ')).length

def hasTab (line : Line) : Bool :=
  (line.contents.dropWhile (· = ' ')).head? == some '\t'

/-- Whether a line belongs to a block at a column. A line of fewer spaces does if it
ends. -/
def isInBlock (column : Nat) (line : Line) : Bool :=
  column ≤ line.spaces || (line.isSpaces && !line.ending.isEmpty)

end Line

def linesOf : List Char → List Line
  | [] => [⟨[], []⟩]
  | c :: rest =>
    if isBreak c then ⟨[], [c]⟩ :: linesOf rest
    else (linesOf rest).modifyHead fun line =>
      { line with contents := c :: line.contents }

def Line.toText (line : Line) : List Char :=
  line.contents ++ line.ending

/-- The column of a block that starts with these lines. It is at least `least` and at
least one, and wide enough for all lines of spaces up to the first other line. -/
def blockColumn? (least : Nat) (lines : List Line) : Option Nat :=
  let isLeading (line : Line) := line.isSpaces && !line.ending.isEmpty
  let first := (lines.dropWhile isLeading).head?
  if first.any Line.hasTab then none
  else
    let widths := (lines.takeWhile isLeading ++ first.toList).map Line.spaces
    some (widths.foldl max (max least 1))

/-- A text without the line ends behind its last line, these line ends, and the line
ends of the empty lines after them. -/
structure BlockText where
  text : List Char
  ending : List Char
  empties : List Char

def foldEnding (ending empties : List Char) : List Char :=
  if ending = ['\n'] then if empties.isEmpty then [' '] else [] else ending

/-- Joins the lines of a block, given the line ends before them and whether the line
before starts with white space. -/
def joinLines (isFolded : Bool) (ending empties : List Char) (wasSpaced : Bool) :
    List Line → BlockText
  | [] => ⟨[], ending, empties⟩
  | line :: rest =>
    if line.contents.isEmpty then
      joinLines isFolded ending (empties ++ line.ending) wasSpaced rest
    else
      let isSpaced := line.contents.head?.any isSpace
      let joint :=
        if isFolded && !wasSpaced && !isSpaced then foldEnding ending empties
        else ending
      let after := joinLines isFolded line.ending [] isSpaced rest
      { after with text := joint ++ empties ++ line.contents ++ after.text }

def BlockText.chomp (b : BlockText) : Chomping → List Char
  | .strip => b.text
  | .clip => b.text ++ b.ending
  | .keep => b.text ++ b.ending ++ b.empties

/-- The contents of a block scalar after its mark, and what follows it. `indent` is the
least column of what stands inside the collection around it. -/
def blockScalar? (isFolded : Bool) (indent : Nat) (text : List Char) :
    Option (List Char × List Char) := do
  let (h, rest) ← BlockHeader.read? text
  let lines := linesOf rest
  let column ←
    match h.increment with
    | some n => some (indent - 1 + n)
    | none => blockColumn? indent lines
  let body := lines.takeWhile (Line.isInBlock column)
  let after := lines.dropWhile (Line.isInBlock column)
  if after.head?.any Line.hasTab then none
  else
    let contents :=
      body.map fun line => { line with contents := line.contents.drop column }
    return ((joinLines isFolded [] [] false contents).chomp h.chomping,
      after.flatMap Line.toText)

end DeviceForge.Yaml
