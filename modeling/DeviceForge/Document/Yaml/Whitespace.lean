import DeviceForge.Text.Blank

/-!
# White space of YAML

Spaces and tabs separate on a line, and a line ends at a line feed or at one of the two
separators of Unicode. Inside a scalar, white space with line ends in it is folded.
Positions are counted in lines and columns, since columns decide how a document is
nested.
-/

namespace DeviceForge.Yaml

def isSpace (c : Char) : Bool :=
  c = ' ' ∨ c = '\t'

def isBreak (c : Char) : Bool :=
  c ∈ ['\n', '\u2028', '\u2029']

def isWhite (c : Char) : Bool :=
  isSpace c || isBreak c

/-- Whether a text is over or goes on with white space. -/
def startsWithWhite : List Char → Bool
  | [] => true
  | c :: _ => isWhite c

/-- Writes each line end of ASCII, and the one of its extension, as a line feed. -/
def unifyBreaks : List Char → List Char
  | [] => []
  | '\r' :: '\n' :: rest => '\n' :: unifyBreaks rest
  | c :: rest => (if c = '\r' ∨ c = '\u0085' then '\n' else c) :: unifyBreaks rest

/-- What white space inside a scalar stands for. On one line it stands for itself. One
line feed is a space, and of several line ends the first is dropped if it is a line
feed. -/
def fold (white : List Char) : List Char :=
  match white.filter isBreak with
  | [] => white
  | ['\n'] => [' ']
  | '\n' :: breaks => breaks
  | breaks => breaks

def afterWhite (text : List Char) : List Char :=
  text.dropWhile isWhite

theorem length_afterWhite_le (text : List Char) :
    (afterWhite text).length ≤ text.length :=
  (List.dropWhile_suffix isWhite).length_le

/-- What follows a line on which nothing but a comment is left. -/
def afterLine? (text : List Char) : Option (List Char) :=
  let rest := text.dropWhile isSpace
  let rest := if rest.head? == some '#' then rest.dropWhile (!isBreak ·) else rest
  match rest with
  | [] => some []
  | c :: after => if isBreak c then some after else none

structure Position where
  line : Nat := 0
  column : Nat := 0
  deriving DecidableEq

namespace Position

def step (p : Position) (c : Char) : Position :=
  if isBreak c then ⟨p.line + 1, 0⟩ else { p with column := p.column + 1 }

def after (p : Position) (text : List Char) : Position :=
  text.foldl step p

end Position

/-- Whether a line starts the document or ends it. -/
def isMarkerLine (line : List Char) : Bool :=
  match line with
  | '-' :: '-' :: '-' :: rest => startsWithWhite rest
  | '.' :: '.' :: '.' :: rest => startsWithWhite rest
  | _ => false

/-- Whether white space ends with a line end and the line after it is a marker. -/
def isBeforeMarker (white text : List Char) : Bool :=
  white.getLast?.any isBreak && isMarkerLine text

end DeviceForge.Yaml
