import DeviceForge.Text.Lines
import DeviceForge.Zone.Id

/-!
# Method bodies in legacy sources

Old sources carry a header line before each method that names the zone it fills. After a
header for braces the body stands between the first opening brace and the one that
closes it; after a header for scripts it is the stretch of lines indented deeper than
the first line of code. Only headers whose id is a member-level one, or starts like that
of a class, are taken.
-/

namespace DeviceForge

/-- How the body of a method is delimited. -/
inductive BodyShape where
  | braced
  | indented
  deriving DecidableEq, Repr

/-- A method found in a source. The body is absent if it is blank or has no end. -/
structure FoundMethod where
  id : ZoneId
  body : Option String
  deriving DecidableEq, Repr

namespace Extraction

def bracedLead : List Char :=
  "//+---- method:".toList

def scriptLead : List Char :=
  "#+---- method:".toList

/-- A header line: the shape of the body that follows, and what stands after the lead.
-/
def header? (line : List Char) : Option (BodyShape × List Char) :=
  let trimmed := Text.trimChars line
  match Text.afterStart? bracedLead trimmed with
  | some rest => some (.braced, Text.trimChars rest)
  | none =>
    (Text.afterStart? scriptLead trimmed).map fun rest =>
      (.indented, Text.trimChars rest)

def isHeader (line : List Char) : Bool :=
  (header? line).isSome

def isFillable (id : ZoneId) : Bool :=
  id.slot?.isSome || (Text.afterStart? "class:".toList id.text.toList).isSome

/-- Opening braces less closing ones. -/
def balance (line : List Char) : Int :=
  (line.count '\x7b' : Int) - (line.count '\x7d' : Int)

/-- The lines from the first opening brace on, which comes before any further header. -/
def fromBrace? : List (List Char) → Option (List (List Char))
  | [] => none
  | line :: rest =>
    if isHeader line then none
    else if line.contains '\x7b' then some (line :: rest)
    else fromBrace? rest

/-- The lines up to the one where `depth` open braces are closed. That line belongs to
the body unless it starts with a closing brace. -/
def untilClosed? (depth : Int) : List (List Char) → Option (List (List Char))
  | [] => none
  | line :: rest =>
    if depth + balance line ≤ 0 then
      if (Text.dropLeading line).head? = some '\x7d' then some [] else some [line]
    else (untilClosed? (depth + balance line) rest).map (line :: ·)

/-- The lines after the one with the first opening brace, up to the matching one. -/
def bracedBody? (lines : List (List Char)) : Option (List (List Char)) :=
  match fromBrace? lines with
  | none | some [] => none
  | some (first :: rest) =>
    if balance first ≤ 0 then some [] else untilClosed? (balance first) rest

def isBlankLine (line : List Char) : Bool :=
  line.all Text.isBlank

/-- The width of the blanks before a line, in bytes. -/
def width (line : List Char) : Nat :=
  (String.ofList (line.takeWhile Text.isBlank)).utf8ByteSize

/-- The lines deeper than the given width, up to the next header. Blank lines are kept
empty. -/
def deeperThan (base : Nat) : List (List Char) → List (List Char)
  | [] => []
  | line :: rest =>
    if isBlankLine line then [] :: deeperThan base rest
    else if width line ≤ base || isHeader line then []
    else line :: deeperThan base rest

/-- The lines deeper than the first line that is not blank, without blank lines at the
end. -/
def indentedBody? (lines : List (List Char)) : Option (List (List Char)) :=
  match lines.dropWhile isBlankLine with
  | [] => none
  | first :: rest =>
    some ((deeperThan (width first) rest).reverse.dropWhile List.isEmpty).reverse

def bodyText (lines : List (List Char)) : String :=
  String.ofList (lines.flatMap (· ++ ['\n']))

/-- The body after a header, unless it is blank. -/
def body? (shape : BodyShape) (lines : List (List Char)) : Option String :=
  let found := match shape with
    | .braced => bracedBody? lines
    | .indented => indentedBody? lines
  (found.map bodyText).filter fun text => !Text.isBlankText text

def methodsIn : List (List Char) → List FoundMethod
  | [] => []
  | line :: rest =>
    match header? line with
    | none => methodsIn rest
    | some (shape, raw) =>
      let id : ZoneId := ⟨String.ofList raw⟩
      if isFillable id then ⟨id, body? shape rest⟩ :: methodsIn rest else methodsIn rest

end Extraction

/-- All methods of a source that carry a header, in order. -/
def extractMethods (source : String) : List FoundMethod :=
  Extraction.methodsIn ((Text.splitLines source.toList).map Text.chomp)

end DeviceForge
