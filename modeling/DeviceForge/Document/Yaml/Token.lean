import DeviceForge.Document.Yaml.Block
import DeviceForge.Document.Yaml.Plain
import DeviceForge.Document.Yaml.Quoted
import DeviceForge.Document.Yaml.Tag

/-!
# Tokens of YAML

A document is cut into tokens. Indentation becomes tokens as well: a block collection
opens where an entry stands further right than the collections around it, and closes
where one stands further left. A scalar or flow collection turns out to be a key only at
the colon after it, so the place in front of it is remembered as long as a colon may
follow.
-/

namespace DeviceForge.Yaml

inductive Token where
  | directive (d : Directive)
  | documentStart
  | documentEnd
  | blockList
  | blockMapping
  /-- The end of the innermost block collection. -/
  | blockEnd
  | flowList
  | flowListEnd
  | flowMapping
  | flowMappingEnd
  | comma
  /-- The dash before an item of a block list. -/
  | dash
  | key
  /-- The colon before the value of a field. -/
  | value
  | anchor (name : String)
  | alias (name : String)
  | tag (t : TagText)
  | scalar (text : String) (style : ScalarStyle)
  deriving DecidableEq

/-- The place in front of something that may turn out to be a key. -/
structure KeyPlace where
  /-- How many tokens there are before it. -/
  tokenCount : Nat
  position : Position
  /-- Whether it stands where only a key can stand. -/
  isRequired : Bool

namespace KeyPlace

/-- How far behind the start of a key its colon may stand. -/
def maxLength : Nat :=
  1024

/-- Whether a colon here is too late. It has to be on the line of the key. -/
def isExpired (place : KeyPlace) (p : Position) : Bool :=
  place.position.line < p.line || place.position.column + maxLength < p.column

end KeyPlace

structure Lexer where
  rest : List Char
  position : Position := {}
  /-- The tokens so far, last first. -/
  tokens : List Token := []
  /-- The columns of the open block collections, innermost first. -/
  columns : List Nat := []
  keyPlace : Option KeyPlace := none
  /-- The key places around the open flow collections, innermost first. -/
  outerPlaces : List (Option KeyPlace) := []
  /-- Whether a key may start here. -/
  keyAllowed : Bool := true

namespace Lexer

def inFlow (x : Lexer) : Bool :=
  !x.outerPlaces.isEmpty

/-- The least column of what stands inside the innermost block collection. -/
def indent (x : Lexer) : Nat :=
  match x.columns with
  | [] => 0
  | column :: _ => column + 1

def emit (x : Lexer) (rest : List Char) (token : Token) : Lexer :=
  let text := x.rest.take (x.rest.length - rest.length)
  { x with rest, position := x.position.after text, tokens := token :: x.tokens }

def emitMark (x : Lexer) (token : Token) : Lexer :=
  x.emit x.rest.tail token

/-- Opens a block collection here, unless the innermost one is not further left. -/
def openBlock (x : Lexer) (token : Token) : Lexer :=
  if x.inFlow || x.position.column < x.indent then x
  else { x with columns := x.position.column :: x.columns, tokens := token :: x.tokens }

/-- Closes the innermost block collections as long as their columns satisfy a test. -/
def closeBlocks (x : Lexer) (test : Nat → Bool) : Lexer :=
  if x.inFlow then x
  else
    let columns := x.columns.dropWhile test
    let closed := x.columns.length - columns.length
    { x with columns, tokens := List.replicate closed .blockEnd ++ x.tokens }

/-- Forgets the key place. Where a key is required it may not be forgotten. -/
def dropKeyPlace? (x : Lexer) : Option Lexer :=
  if x.keyPlace.any (·.isRequired) then none else some { x with keyPlace := none }

/-- Remembers this place if a key may start here. -/
def saveKeyPlace? (x : Lexer) : Option Lexer :=
  if x.keyAllowed then do
    let isRequired := !x.inFlow && x.columns.head? == some x.position.column
    let x ← x.dropKeyPlace?
    return { x with keyPlace := some ⟨x.tokens.length, x.position, isRequired⟩ }
  else some x

/-- Forgets the key places for which a colon would be too late. -/
def expireKeyPlaces? (x : Lexer) : Option Lexer :=
  let isExpired (place : KeyPlace) := place.isExpired x.position
  let isMissed (place : KeyPlace) := place.isRequired && isExpired place
  if (x.keyPlace :: x.outerPlaces).any (·.any isMissed) then none
  else some { x with
    keyPlace := x.keyPlace.filter (!isExpired ·)
    outerPlaces := x.outerPlaces.map (·.filter (!isExpired ·)) }

/-- Skips white space and comments. A line end outside flow collections makes a key
possible, and a tab may not stand where one is possible. -/
def skip (inFlow isComment keyAllowed : Bool) (p : Position) :
    List Char → List Char × Position × Bool
  | [] => ([], p, keyAllowed)
  | c :: rest =>
    if isBreak c then skip inFlow false (keyAllowed || !inFlow) (p.step c) rest
    else if isComment || c = '#' then skip inFlow true keyAllowed (p.step c) rest
    else if c = ' ' || (c = '\t' && (inFlow || !keyAllowed)) then
      skip inFlow false keyAllowed (p.step c) rest
    else (c :: rest, p, keyAllowed)

/-- Moves to the next token, past the ends of the block collections before it. -/
def toToken? (x : Lexer) : Option Lexer := do
  let (rest, position, keyAllowed) := skip x.inFlow false x.keyAllowed x.position x.rest
  let x ← { x with rest, position, keyAllowed }.expireKeyPlaces?
  return x.closeBlocks (x.position.column < ·)

def marker? (x : Lexer) : Option Lexer := do
  let x ← (x.closeBlocks fun _ => true).dropKeyPlace?
  let token := if x.rest.head? == some '-' then .documentStart else .documentEnd
  return { x.emit (x.rest.drop 3) token with keyAllowed := false }

def openFlow? (x : Lexer) (token : Token) : Option Lexer := do
  let x ← x.saveKeyPlace?
  return { x.emitMark token with
    keyPlace := none, outerPlaces := x.keyPlace :: x.outerPlaces, keyAllowed := true }

def closeFlow? (x : Lexer) (token : Token) : Option Lexer := do
  let x ← x.dropKeyPlace?
  return { x.emitMark token with
    keyPlace := x.outerPlaces.head?.join
    outerPlaces := x.outerPlaces.tail
    keyAllowed := false }

def comma? (x : Lexer) : Option Lexer := do
  let x ← x.dropKeyPlace?
  return { x.emitMark .comma with keyAllowed := true }

def dash? (x : Lexer) : Option Lexer :=
  if !x.inFlow && !x.keyAllowed then none
  else do
    let x ← (x.openBlock .blockList).dropKeyPlace?
    return { x.emitMark .dash with keyAllowed := true }

def markedKey? (x : Lexer) : Option Lexer :=
  if !x.inFlow && !x.keyAllowed then none
  else do
    let x ← (x.openBlock .blockMapping).dropKeyPlace?
    return { x.emitMark .key with keyAllowed := !x.inFlow }

/-- Makes what stands at the key place a key, with the mapping that it opens. -/
def insertKey (x : Lexer) (place : KeyPlace) : Lexer :=
  let count := x.tokens.length - place.tokenCount
  let before : Lexer :=
    { x with position := place.position, tokens := x.tokens.drop count }
  let opened := before.openBlock .blockMapping
  { x with
    tokens := x.tokens.take count ++ .key :: opened.tokens
    columns := opened.columns
    keyPlace := none
    keyAllowed := false }

/-- A colon before a value. What stands at the key place is the key. -/
def value? (x : Lexer) : Option Lexer :=
  match x.keyPlace with
  | some place => some ((x.insertKey place).emitMark .value)
  | none =>
    if !x.inFlow && !x.keyAllowed then none
    else some { (x.openBlock .blockMapping).emitMark .value with
      keyAllowed := !x.inFlow }

def directiveLine? (x : Lexer) : Option Lexer := do
  let x ← (x.closeBlocks fun _ => true).dropKeyPlace?
  let (d, rest) ← directive? x.rest.tail
  return { x.emit rest (.directive d) with keyAllowed := false }

def named? (x : Lexer) (token : String → Token) : Option Lexer := do
  let x ← x.saveKeyPlace?
  let (name, rest) ← anchorName? x.rest.tail
  return { x.emit rest (token name) with keyAllowed := false }

/-- A tag with white space after it, or with a comma in a flow collection. -/
def tagged? (x : Lexer) : Option Lexer := do
  let x ← x.saveKeyPlace?
  let (t, rest) ← tag? x.rest
  if startsWithWhite rest || (x.inFlow && rest.head? == some ',') then
    return { x.emit rest (.tag t) with keyAllowed := false }
  else none

def block? (x : Lexer) (isFolded : Bool) : Option Lexer := do
  let x ← x.dropKeyPlace?
  let (contents, rest) ← blockScalar? isFolded x.indent x.rest.tail
  let style := if isFolded then .folded else .literal
  return { x.emit rest (.scalar (String.ofList contents) style) with
    keyAllowed := true }

def quoted? (x : Lexer) (read? : List Char → Option (List Char × List Char)) :
    Option Lexer := do
  let x ← x.saveKeyPlace?
  let (contents, rest) ← read? x.rest.tail
  return { x.emit rest (.scalar (String.ofList contents) .quoted) with
    keyAllowed := false }

def plainScalar? (x : Lexer) : Option Lexer := do
  let x ← x.saveKeyPlace?
  let s ← plain? x.inFlow x.indent x.position x.rest
  return { x.emit s.rest (.scalar (String.ofList s.contents) .plain) with
    keyAllowed := s.endsLine }

def token? (x : Lexer) : Option Lexer :=
  match x.rest with
  | [] => none
  | c :: rest =>
    let standsApart := startsWithWhite rest
    if x.position.column = 0 && c = '%' then x.directiveLine?
    else if x.position.column = 0 && isMarkerLine x.rest then x.marker?
    else if c = '[' then x.openFlow? .flowList
    else if c = '{' then x.openFlow? .flowMapping
    else if c = ']' then x.closeFlow? .flowListEnd
    else if c = '}' then x.closeFlow? .flowMappingEnd
    else if c = ',' then x.comma?
    else if c = '-' && standsApart then x.dash?
    else if c = '?' && (x.inFlow || standsApart) then x.markedKey?
    else if c = ':' && (x.inFlow || standsApart) then x.value?
    else if c = '*' then x.named? .alias
    else if c = '&' then x.named? .anchor
    else if c = '!' then x.tagged?
    else if c = '|' && !x.inFlow then x.block? false
    else if c = '>' && !x.inFlow then x.block? true
    else if c = '\'' then x.quoted? singleQuoted?
    else if c = '"' then x.quoted? doubleQuoted?
    else if startsPlain x.inFlow x.rest then x.plainScalar?
    else none

/-- All tokens of a text. Every token takes at least one character. -/
def allTokens? (x : Lexer) : Option (List Token) :=
  match x.toToken? with
  | none => none
  | some y =>
    if y.rest.isEmpty then
      ((y.closeBlocks fun _ => true).dropKeyPlace?).map (·.tokens.reverse)
    else
      match y.token? with
      | none => none
      | some z => if z.rest.length < x.rest.length then allTokens? z else none
termination_by x.rest.length

end Lexer

/-- The lexer at the start of a text. A byte order mark there is passed over and takes a
column. -/
def Lexer.start : List Char → Lexer
  | '\uFEFF' :: rest => { rest, position := ⟨0, 1⟩ }
  | rest => { rest }

def tokens? (text : List Char) : Option (List Token) :=
  (Lexer.start text).allTokens?

end DeviceForge.Yaml
