import DeviceForge.Document.Yaml.Whitespace

/-!
# Plain scalars

A scalar without quotes is made of words. It ends at a colon before white space, at a
comment, at a marker of documents, and outside flow collections at the first line that
is not indented far enough. White space between its words is folded, and white space
after its last word is not part of it.
-/

namespace DeviceForge.Yaml

def isFlowMark (c : Char) : Bool :=
  c ∈ [',', '[', ']', '{', '}']

/-- Whether a colon stands before a character of flow collections, which is not allowed
there. -/
def isMisplacedColon (text : List Char) : Bool :=
  match text with
  | ':' :: c :: _ => isFlowMark c || c = '?'
  | _ => false

def endsWord (inFlow : Bool) (text : List Char) : Bool :=
  match text with
  | [] => true
  | c :: rest =>
    isWhite c || (c = ':' && startsWithWhite rest) ||
      (inFlow && (isFlowMark c || isMisplacedColon text))

def word (inFlow : Bool) : List Char → List Char
  | [] => []
  | c :: rest => if endsWord inFlow (c :: rest) then [] else c :: word inFlow rest

/-- Whether a tab stands where the lines after the first have to be indented. -/
def hasTabInIndent (indent : Nat) (white : List Char) : Bool :=
  (Text.splitWhere isBreak white).tail.any fun line => (line.take indent).contains '\t'

/-- A plain scalar with what follows it and the white space after it. -/
structure PlainScalar where
  contents : List Char
  rest : List Char
  /-- Whether the white space after the scalar held a line end. -/
  endsLine : Bool

/-- The rest of a plain scalar after white space. It has to stand at a column of at
least `indent` outside flow collections. -/
def plainRest? (inFlow : Bool) (indent : Nat) (p : Position) (white text : List Char) :
    Option PlainScalar :=
  let first := word inFlow text
  let rest := text.drop first.length
  if (p.column = 0 && isMarkerLine text) || text.head? == some '#' then
    some ⟨[], text, white.any isBreak⟩
  else if inFlow && isMisplacedColon rest then none
  else if first = [] then some ⟨[], text, white.any isBreak⟩
  else
    let next := rest.takeWhile isWhite
    let after := afterWhite rest
    let q := p.after (first ++ next)
    let contents := fold white ++ first
    if next.isEmpty then some ⟨contents, rest, false⟩
    else if hasTabInIndent indent next then none
    else if !inFlow && q.column < indent then some ⟨contents, after, next.any isBreak⟩
    else
      (plainRest? inFlow indent q next after).map fun s =>
        { s with contents := contents ++ s.contents }
termination_by text.length
decreasing_by
  have hrest := length_afterWhite_le (text.drop (word inFlow text).length)
  have hpos : 0 < (word inFlow text).length := List.length_pos_iff.mpr (by assumption)
  have hle : 0 < text.length := by
    cases text with
    | nil => simp [word] at hpos
    | cons c rest => simp
  rw [List.length_drop] at hrest
  omega

def plain? (inFlow : Bool) (indent : Nat) (p : Position) (text : List Char) :
    Option PlainScalar :=
  plainRest? inFlow indent p [] text

/-- Whether a plain scalar may start with this text. -/
def startsPlain (inFlow : Bool) : List Char → Bool
  | [] => false
  | c :: rest =>
    if c = '-' then !startsWithWhite rest
    else if c = '?' ∨ c = ':' then !inFlow && !startsWithWhite rest
    else
      !isWhite c && !isFlowMark c &&
        c ∉ ['#', '&', '*', '!', '|', '>', '\'', '"', '%', '@', '\x60']

end DeviceForge.Yaml
