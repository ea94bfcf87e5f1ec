import DeviceForge.Document.Numeral

/-!
# JSON documents

A text is read in two passes. The first cuts it into tokens: marks, strings, and the
words between them. The second builds the value, with the open containers on a stack.
Both passes take one step for each character or token.

An escape may write half of a surrogate pair. A string with such a half is no text, but
it is an error only where the string is used; it is read as a string without a text.
-/

namespace DeviceForge.Json

inductive Value where
  | null
  | bool (b : Bool)
  | number (x : Numeral)
  /-- A string, which has no text if it holds half of a surrogate pair. -/
  | string (text : Option String)
  | list (items : List Value)
  /-- An object with its fields in the order of the document, repeated ones included. -/
  | object (fields : List (Option String × Value))

/-- The unit that an escape of one letter stands for. -/
def escaped? (c : Char) : Option Nat :=
  match c with
  | '"' => some 0x22
  | '\\' => some 0x5C
  | '/' => some 0x2F
  | 'b' => some 0x08
  | 'f' => some 0x0C
  | 'n' => some 0x0A
  | 'r' => some 0x0D
  | 't' => some 0x09
  | _ => none

/-- The characters of a string, as their values. An escape with four digits gives one
unit, which may be half of a surrogate pair. -/
def units? : List Char → Option (List Nat)
  | '\\' :: 'u' :: a :: b :: c :: d :: rest => do
    let unit ← Decimal.hex? [a, b, c, d]
    return unit :: (← units? rest)
  | '\\' :: c :: rest => do
    let unit ← escaped? c
    return unit :: (← units? rest)
  | c :: rest => if c.toNat < 0x20 then none else (units? rest).map (c.toNat :: ·)
  | [] => some []

def isLeadSurrogate (unit : Nat) : Bool :=
  0xD800 ≤ unit && unit ≤ 0xDBFF

def isTrailSurrogate (unit : Nat) : Bool :=
  0xDC00 ≤ unit && unit ≤ 0xDFFF

/-- Joins surrogate pairs. There is no text if a half stands alone. -/
def joinPairs? : List Nat → Option (List Char)
  | [] => some []
  | unit :: rest =>
    if isLeadSurrogate unit then
      match rest with
      | [] => none
      | trail :: rest =>
        if isTrailSurrogate trail then
          let c := Char.ofNat (0x10000 + (unit - 0xD800) * 0x400 + (trail - 0xDC00))
          (joinPairs? rest).map (c :: ·)
        else none
    else if isTrailSurrogate unit then none
    else (joinPairs? rest).map (Char.ofNat unit :: ·)

def string? (contents : List Char) : Option Value :=
  (units? contents).map fun units => .string ((joinPairs? units).map String.ofList)

/-! ## Tokens -/

inductive Token where
  | mark (c : Char)
  | scalar (v : Value)

def isMark (c : Char) : Bool :=
  c ∈ ['{', '}', '[', ']', ':', ',']

def isSpace (c : Char) : Bool :=
  c = ' ' ∨ c = '\n' ∨ c = '\r' ∨ c = '\t'

def word? (word : List Char) : Option Value :=
  if word = "null".toList then some .null
  else if word = "true".toList then some (.bool true)
  else if word = "false".toList then some (.bool false)
  else (Numeral.read? word).map .number

/-- What the first pass is in the middle of. Contents are kept last character first. -/
inductive Pass where
  | between (word : List Char)
  | inString (contents : List Char)
  | afterBackslash (contents : List Char)

def endWord? (word : List Char) : Option (List Token) :=
  if word.isEmpty then some [] else (word? word.reverse).map ([.scalar ·])

/-- One character of the first pass: where it leads, and the tokens that end there. -/
def Pass.step? (c : Char) : Pass → Option (Pass × List Token)
  | .between word =>
    if isSpace c then (endWord? word).map (.between [], ·)
    else if isMark c then (endWord? word).map fun tokens =>
      (.between [], tokens ++ [.mark c])
    else if c = '"' then (endWord? word).map (.inString [], ·)
    else some (.between (c :: word), [])
  | .inString contents =>
    if c = '"' then (string? contents.reverse).map fun v => (.between [], [.scalar v])
    else if c = '\\' then some (.afterBackslash (c :: contents), [])
    else some (.inString (c :: contents), [])
  | .afterBackslash contents => some (.inString (c :: contents), [])

def tokens? (pass : Pass) : List Char → Option (List Token)
  | [] =>
    match pass with
    | .between word => endWord? word
    | _ => none
  | c :: rest => do
    let (next, ended) ← pass.step? c
    return ended ++ (← tokens? next rest)

/-! ## Values -/

/-- A container that is not closed yet, with its contents last first. -/
inductive Container where
  | list (items : List Value)
  | object (fields : List (Option String × Value))
  /-- An object with the key of the field whose value is being read. -/
  | field (fields : List (Option String × Value)) (key : Option String)

/-- What may come next. -/
inductive Expected where
  | value
  | valueOrEnd
  | key
  | keyOrEnd
  | colon
  | commaOrEnd
  /-- The document is complete. -/
  | nothing (document : Value)

structure Reader where
  /-- The open containers, innermost first. -/
  stack : List Container := []
  expected : Expected := .value

namespace Reader

/-- Puts a complete value where it belongs. -/
def give (v : Value) : List Container → Option Reader
  | [] => some { expected := .nothing v }
  | .list items :: rest => some ⟨.list (v :: items) :: rest, .commaOrEnd⟩
  | .field fields key :: rest =>
    some ⟨.object ((key, v) :: fields) :: rest, .commaOrEnd⟩
  | .object _ :: _ => none

def close (bracket : Char) : List Container → Option Reader
  | .list items :: rest =>
    if bracket = ']' then give (.list items.reverse) rest else none
  | .object fields :: rest =>
    if bracket = '}' then give (.object fields.reverse) rest else none
  | _ => none

def openContainer (bracket : Char) (stack : List Container) : Option Reader :=
  if bracket = '[' then some ⟨.list [] :: stack, .valueOrEnd⟩
  else if bracket = '{' then some ⟨.object [] :: stack, .keyOrEnd⟩
  else none

def takeKey (key : Option String) : List Container → Option Reader
  | .object fields :: rest => some ⟨.field fields key :: rest, .colon⟩
  | _ => none

def afterComma (stack : List Container) : Option Reader :=
  match stack with
  | .list _ :: _ => some ⟨stack, .value⟩
  | .object _ :: _ => some ⟨stack, .key⟩
  | _ => none

/-- One token of the second pass. -/
def step? (reader : Reader) (token : Token) : Option Reader :=
  match reader.expected, token with
  | .value, .scalar v => give v reader.stack
  | .value, .mark c => openContainer c reader.stack
  | .valueOrEnd, .scalar v => give v reader.stack
  | .valueOrEnd, .mark c =>
    if c = ']' then close c reader.stack else openContainer c reader.stack
  | .key, .scalar (.string key) => takeKey key reader.stack
  | .keyOrEnd, .scalar (.string key) => takeKey key reader.stack
  | .keyOrEnd, .mark c => close c reader.stack
  | .colon, .mark ':' => some { reader with expected := .value }
  | .commaOrEnd, .mark c =>
    if c = ',' then afterComma reader.stack else close c reader.stack
  | _, _ => none

def document? (reader : Reader) : Option Value :=
  match reader.expected with
  | .nothing v => some v
  | _ => none

end Reader

def read? (text : String) : Option Value := do
  let tokens ← tokens? (.between []) text.toList
  let reader ← tokens.foldlM Reader.step? {}
  reader.document?

/-- The fields of an object whose keys are texts. A list stands for an object too: its
items are the values of the named fields, in their order, and the last ones may be
missing. -/
def Value.fieldsOf? (names : List String) : Value → Option (List (String × Value))
  | .object fields => fields.mapM fun field => field.1.map (·, field.2)
  | .list items => if items.length ≤ names.length then some (names.zip items) else none
  | _ => none

end DeviceForge.Json

namespace DeviceForge

def uniqueField? {α : Type} (key : String) (fields : List (String × α)) :
    Option (Option α) :=
  match fields.filter (·.1 == key) with
  | [] => some none
  | [field] => some (some field.2)
  | _ => none

/-- Reads a field that is there at most once. A missing one has a fallback. -/
def readUnique? {α β : Type} (fields : List (String × α)) (key : String) (fallback : β)
    (read? : α → Option β) : Option β := do
  match ← uniqueField? key fields with
  | none => some fallback
  | some value => read? value

end DeviceForge
