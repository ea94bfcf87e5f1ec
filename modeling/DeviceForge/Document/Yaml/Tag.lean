import DeviceForge.Decimal.Reading
import DeviceForge.Document.Yaml.Whitespace

/-!
# Anchors, tags and directives

An anchor names a part of a document, and an alias repeats that part. A tag is written
with a handle and a suffix, and a directive before the document says which text a handle
stands for.
-/

namespace DeviceForge.Yaml

def isNameChar (c : Char) : Bool :=
  c.isAlphanum || c = '_' || c = '-'

def anchorName? (text : List Char) : Option (String × List Char) :=
  let name := text.takeWhile isNameChar
  let rest := text.dropWhile isNameChar
  let ends := startsWithWhite rest ||
    rest.head?.any (· ∈ ['?', ':', ',', ']', '}', '%', '@', '\x60'])
  if name.isEmpty || !ends then none else some (String.ofList name, rest)

/-- A tag as it is written. Without a handle its suffix is the whole tag. -/
structure TagText where
  handle : String
  suffix : String
  deriving DecidableEq

/-- The characters of tags. Brackets and commas belong to a tag only where they cannot
end it. -/
def isTagChar (isDelimited : Bool) (c : Char) : Bool :=
  isNameChar c ||
    c ∈ [';', '/', '?', ':', '@', '&', '=', '+', '$', '.', '%', '!', '~', '*', '\'',
      '(', ')'] ||
    (isDelimited && c ∈ [',', '[', ']'])

/-- The bytes of a text in which a percent sign and two digits write one byte. -/
def escapedBytes? : List Char → Option (List UInt8)
  | [] => some []
  | '%' :: high :: low :: rest => do
    let byte ← Decimal.hex? [high, low]
    return byte.toUInt8 :: (← escapedBytes? rest)
  | '%' :: _ => none
  | c :: rest => (escapedBytes? rest).map (c.toNat.toUInt8 :: ·)

def tagPart? (part : List Char) : Option String := do
  String.fromUTF8? ⟨(← escapedBytes? part).toArray⟩

/-- An exclamation mark, or a name between two of them. A name that no second one
follows is returned with the mark before it. -/
def handle? (text : List Char) : Option (List Char × List Char) :=
  match text with
  | '!' :: rest =>
    let name := rest.takeWhile isNameChar
    match rest.dropWhile isNameChar with
    | '!' :: after => some ('!' :: name ++ ['!'], after)
    | after => some ('!' :: name, after)
  | _ => none

/-- Whether a handle has an exclamation mark on both sides. -/
def isNamedHandle (handle : List Char) : Bool :=
  1 < handle.length && handle.getLast? == some '!'

def tag? (text : List Char) : Option (TagText × List Char) := do
  match text with
  | '!' :: '<' :: rest =>
    let part := rest.takeWhile (isTagChar true)
    match rest.dropWhile (isTagChar true) with
    | '>' :: after =>
      if part.isEmpty then none else return (⟨"", ← tagPart? part⟩, after)
    | _ => none
  | _ =>
    let (handle, rest) ← handle? text
    let part := rest.takeWhile (isTagChar false)
    let after := rest.dropWhile (isTagChar false)
    if isNamedHandle handle then
      if part.isEmpty then none
      else return (⟨String.ofList handle, ← tagPart? part⟩, after)
    else
      let suffix := String.ofList handle.tail ++ (← tagPart? part)
      return (if suffix.isEmpty then ⟨"", "!"⟩ else ⟨"!", suffix⟩, after)

inductive Directive where
  | version (major minor : Nat)
  | tag (handle replacement : String)
  deriving DecidableEq

/-- A part of a version number. It has at most nine digits. -/
def versionNumber? (text : List Char) : Option (Nat × List Char) :=
  let digits := text.takeWhile Char.isDigit
  if digits.isEmpty || 9 < digits.length then none
  else some (Decimal.ofDigits digits, text.dropWhile Char.isDigit)

def versionDirective? (text : List Char) : Option (Directive × List Char) := do
  let (major, rest) ← versionNumber? text
  match rest with
  | '.' :: rest =>
    let (minor, rest) ← versionNumber? rest
    return (.version major minor, rest)
  | _ => none

def tagDirective? (text : List Char) : Option (Directive × List Char) := do
  let (handle, rest) ← handle? text
  if !(handle = ['!'] || isNamedHandle handle) || !rest.head?.any isSpace then none
  else
    let part := (rest.dropWhile isSpace).takeWhile (isTagChar true)
    let after := (rest.dropWhile isSpace).dropWhile (isTagChar true)
    if part.isEmpty || !startsWithWhite after then none
    else return (.tag (String.ofList handle) (← tagPart? part), after)

/-- The directive after a percent sign, and what follows its line. -/
def directive? (text : List Char) : Option (Directive × List Char) := do
  let name := String.ofList (text.takeWhile isNameChar)
  let rest := text.dropWhile isNameChar
  if !startsWithWhite rest then none
  else
    let body := rest.dropWhile isSpace
    let (directive, rest) ←
      match name with
      | "YAML" => versionDirective? body
      | "TAG" => tagDirective? body
      | _ => none
    return (directive, ← afterLine? rest)

def defaultHandles : List (String × String) :=
  [("!", "!"), ("!!", "tag:yaml.org,2002:")]

/-- What the handles stand for under the directives of a document. There may be one
version, which is 1.1 or 1.2, and one directive for each handle. -/
def handlesOf? : Bool → List (String × String) → List Directive →
    Option (List (String × String))
  | _, handles, [] => some (handles ++ defaultHandles)
  | hasVersion, handles, .version major minor :: rest =>
    if hasVersion || major ≠ 1 || minor ∉ [1, 2] then none
    else handlesOf? true handles rest
  | hasVersion, handles, .tag handle replacement :: rest =>
    if (handles.lookup handle).isSome then none
    else handlesOf? hasVersion ((handle, replacement) :: handles) rest

/-- The tag that is written, unless its handle is unknown. -/
def TagText.expand? (t : TagText) (handles : List (String × String)) : Option String :=
  if t.handle.isEmpty then some t.suffix
  else (handles.lookup t.handle).map (· ++ t.suffix)

end DeviceForge.Yaml
