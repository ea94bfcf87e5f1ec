import DeviceForge.Document.Yaml.Builder

/-!
# YAML documents

A text holds at most one document, and one without contents is absent. It is cut into
tokens, from which the document is built. Directives come before it, and markers may
stand where it starts and ends.
-/

namespace DeviceForge.Yaml

def isMarker (token : Token) : Bool :=
  token = .documentStart ∨ token = .documentEnd

/-- The document of tokens that all belong to its contents. -/
def contentsOf? (handles : List (String × String)) (tokens : List Token) :
    Option Document := do
  let b := (← tokens.foldlM Builder.step? { handles }).fillEmpty
  if b.stack.isEmpty then return { root := ← b.slot.value?, anchored := b.anchored }
  else none

def splitDirectives : List Token → List Directive × List Token
  | .directive d :: rest =>
    let (directives, body) := splitDirectives rest
    (d :: directives, body)
  | body => ([], body)

/-- The document of all tokens of a text. After directives it needs a token that starts
it. Without one it may not be empty if a token ends it. -/
def Document.ofTokens? (tokens : List Token) : Option Document := do
  let (directives, body) := splitDirectives tokens
  let handles ← handlesOf? false [] directives
  let (isMarked, body) := match body with
    | .documentStart :: rest => (true, rest)
    | _ => (false, body)
  let contents := body.takeWhile (!isMarker ·)
  let after := body.dropWhile (!isMarker ·)
  if !directives.isEmpty && !isMarked then none
  else if !after.all (· = .documentEnd) then none
  else if contents.isEmpty && !isMarked && !after.isEmpty then none
  else contentsOf? handles contents

def isPrintable (c : Char) : Bool :=
  let n := c.toNat
  n = 0x09 || n = 0x0A || n = 0x0D || (0x20 ≤ n && n ≤ 0x7E) || n = 0x85 ||
    (0xA0 ≤ n && n ≠ 0xFFFE && n ≠ 0xFFFF)

def read? (text : String) : Option Document := do
  if !text.toList.all isPrintable then none
  else Document.ofTokens? (← tokens? (unifyBreaks text.toList))

end DeviceForge.Yaml
