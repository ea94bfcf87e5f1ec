import DeviceForge.Document.Yaml.Token
import DeviceForge.Document.Yaml.Value

/-!
# Building documents from tokens

The open collections are on a stack, and beside it is the place of the current item, key
or field value. Most collections end at a token of their own. Two kinds are loose and
end where they cannot go on: a list at the column of the key that it belongs to, and a
single field among the items of a flow list.
-/

namespace DeviceForge.Yaml

structure Properties where
  anchor : Option Nat := none
  tag : Option String := none
  deriving DecidableEq

/-- The tag of a scalar that is written out. An exclamation mark alone is no tag of one.
-/
def Properties.scalarTag (p : Properties) : Option String :=
  p.tag.filter (· ≠ "!")

inductive Style where
  | block
  | flow
  /-- Without a token that ends it. -/
  | loose
  deriving DecidableEq

/-- Which part of a field comes next or is current. -/
inductive Part where
  /-- A key with a token before it. -/
  | key
  /-- A key of a flow mapping without a token before it. No value follows it. -/
  | loneKey
  /-- A key that is left out. Only its value can follow. -/
  | omittedKey
  | value (key : Value)

inductive Contents where
  | list (items : List Value)
  | mapping (fields : List (Value × Value)) (part : Part)

structure Collection where
  properties : Properties
  style : Style
  contents : Contents

/-- The place where a value can stand. -/
inductive Slot where
  /-- No value can stand here. -/
  | closed
  | empty (p : Properties)
  | filled (v : Value)

namespace Slot

def value? : Slot → Option Value
  | .closed => none
  | .empty _ => some .absent
  | .filled v => some v

def written? : Slot → Option Value
  | .filled v => some v
  | _ => none

end Slot

/-- The items of a list together with the current one. An item of a flow list has to be
written. -/
def itemsWith (style : Style) (items : List Value) (slot : Slot) : List Value :=
  let current := if style = .flow then slot.written? else slot.value?
  current.toList ++ items

/-- The fields of a mapping together with the current one. A value that does not follow
its key is absent. -/
def fieldsWith (fields : List (Value × Value)) (part : Part) (slot : Slot) :
    List (Value × Value) :=
  match part, slot.value? with
  | .value key, some v => (key, v) :: fields
  | .omittedKey, _ => (.absent, .absent) :: fields
  | _, some key => (key, .absent) :: fields
  | _, none => fields

def Collection.complete (c : Collection) (slot : Slot) : Value :=
  match c.contents with
  | .list items => .list c.properties.tag (itemsWith c.style items slot).reverse
  | .mapping fields part =>
    .mapping c.properties.tag (fieldsWith fields part slot).reverse

structure Builder where
  /-- What the handles of tags stand for. -/
  handles : List (String × String)
  /-- The open collections, innermost first. -/
  stack : List Collection := []
  slot : Slot := .empty {}
  /-- The anchors by their names, last first. -/
  anchors : List (String × Nat) := []
  anchored : List (Nat × Value) := []

namespace Builder

def fill (b : Builder) (p : Properties) (v : Value) : Builder :=
  { b with
    slot := .filled v
    anchored := (p.anchor.map fun anchor => (anchor, v)).toList ++ b.anchored }

def openCollection (b : Builder) (c : Collection) (slot : Slot) : Builder :=
  { b with stack := c :: b.stack, slot }

def continueWith (b : Builder) (c : Collection) (contents : Contents) (slot : Slot) :
    Builder :=
  { b with stack := { c with contents } :: b.stack.tail, slot }

/-- Closes the innermost collection, which is then the current value. -/
def close? (b : Builder) : Option Builder :=
  match b.stack with
  | [] => none
  | inner :: rest =>
    some ({ b with stack := rest }.fill inner.properties (inner.complete b.slot))

/-- Whether a token is a value, or starts one, or stands before one. -/
def startsValue : Token → Bool
  | .scalar _ _ => true
  | .alias _ => true
  | .anchor _ => true
  | .tag _ => true
  | .flowList => true
  | .flowMapping => true
  | .blockList => true
  | .blockMapping => true
  | _ => false

/-- Whether a dash starts a loose list here, as the key or value of a block mapping. -/
def opensLooseList (b : Builder) : Bool :=
  match b.stack with
  | ⟨_, .block, .mapping _ _⟩ :: _ => true
  | _ => false

/-- Where properties stand for themselves, they belong to an empty scalar. -/
def fillEmpty (b : Builder) : Builder :=
  match b.slot with
  | .empty p => if p = {} then b else b.fill p (.scalar { text := "", tag := p.tag })
  | _ => b

/-- Whether a token goes into the current place. -/
def goesInSlot (b : Builder) (token : Token) : Bool :=
  startsValue token || (token = .dash && b.opensLooseList)

/-- Fills the current place if the token does not belong to the properties there. -/
def settle (b : Builder) (token : Token) : Builder :=
  if b.goesInSlot token then b else b.fillEmpty

/-- Whether a token ends a loose collection. -/
def endsLoose (b : Builder) (token : Token) : Bool :=
  match b.stack, b.slot with
  | ⟨_, .loose, .list _⟩ :: _, _ => token ∈ [.key, .value, .blockEnd]
  | ⟨_, .loose, .mapping _ .key⟩ :: _, .empty _ => false
  | ⟨_, .loose, .mapping _ .omittedKey⟩ :: _, _ => token ≠ .value
  | ⟨_, .loose, .mapping _ _⟩ :: _, _ => token ∈ [.comma, .flowListEnd]
  | _, _ => false

def closeLoose? (b : Builder) (token : Token) : Option Builder :=
  if b.endsLoose token then b.close? else some b

/-- Makes room for a key of a flow mapping that no token announces. -/
def startLoneKey (b : Builder) (token : Token) : Builder :=
  match b.stack, b.slot with
  | c@⟨_, .flow, .mapping fields _⟩ :: _, .closed =>
    if startsValue token then b.continueWith c (.mapping fields .loneKey) (.empty {})
    else b
  | _, _ => b

/-- A value, or what stands before it, in an empty place. -/
def atValue? (b : Builder) (p : Properties) : Token → Option Builder
  | .scalar text style => some (b.fill p (.scalar { text, style, tag := p.scalarTag }))
  | .alias name =>
    if p = {} then (b.anchors.lookup name).map fun anchor => b.fill {} (.alias anchor)
    else none
  | .anchor name =>
    if p.anchor.isSome then none
    else
      let anchor := b.anchors.length
      some { b with
        slot := .empty { p with anchor := some anchor }
        anchors := (name, anchor) :: b.anchors }
  | .tag t =>
    if p.tag.isSome then none
    else (t.expand? b.handles).map fun tag =>
      { b with slot := .empty { p with tag := some tag } }
  | .blockList => some (b.openCollection ⟨p, .block, .list []⟩ .closed)
  | .blockMapping => some (b.openCollection ⟨p, .block, .mapping [] .key⟩ .closed)
  | .flowList => some (b.openCollection ⟨p, .flow, .list []⟩ (.empty {}))
  | .flowMapping => some (b.openCollection ⟨p, .flow, .mapping [] .key⟩ .closed)
  | .dash =>
    if b.opensLooseList then some (b.openCollection ⟨p, .loose, .list []⟩ (.empty {}))
    else none
  | _ => none

def inList? (b : Builder) (c : Collection) (items : List Value) (token : Token) :
    Option Builder :=
  match c.style, token, b.slot with
  | .flow, .comma, .filled v => some (b.continueWith c (.list (v :: items)) (.empty {}))
  | .flow, .key, .empty _ =>
    some (b.openCollection ⟨{}, .loose, .mapping [] .key⟩ (.empty {}))
  | .flow, .flowListEnd, _ => b.close?
  | .flow, _, _ => none
  | style, .dash, slot =>
    some (b.continueWith c (.list (itemsWith style items slot)) (.empty {}))
  | .block, .blockEnd, _ => b.close?
  | _, _, _ => none

/-- A token inside a mapping. Where a single field of a flow list starts without a key,
the token after its mark is passed over. -/
def inMapping? (b : Builder) (c : Collection) (fields : List (Value × Value))
    (part : Part) (token : Token) : Option Builder :=
  match c.style, part, token, b.slot with
  | .loose, .key, token, .empty _ =>
    if token ∈ [.value, .comma, .flowListEnd] then
      some (b.continueWith c (.mapping fields .omittedKey) .closed)
    else none
  | .loose, .omittedKey, .value, _ =>
    some (b.continueWith c (.mapping fields (.value .absent)) (.empty {}))
  | _, .key, .value, slot =>
    slot.value?.map fun key =>
      b.continueWith c (.mapping fields (.value key)) (.empty {})
  | .block, _, .key, slot =>
    some (b.continueWith c (.mapping (fieldsWith fields part slot) .key) (.empty {}))
  | .block, _, .blockEnd, _ => b.close?
  | .flow, _, .key, .closed =>
    some (b.continueWith c (.mapping fields .key) (.empty {}))
  | .flow, _, .comma, .closed => none
  | .flow, _, .comma, slot =>
    some (b.continueWith c (.mapping (fieldsWith fields part slot) .key) .closed)
  | .flow, _, .flowMappingEnd, _ => b.close?
  | _, _, _, _ => none

/-- A token that belongs to the innermost collection. -/
def inCollection? (b : Builder) (token : Token) : Option Builder :=
  match b.stack with
  | [] => none
  | c :: _ =>
    match c.contents with
    | .list items => b.inList? c items token
    | .mapping fields part => b.inMapping? c fields part token

def step? (b : Builder) (token : Token) : Option Builder := do
  let b := (← (b.settle token).closeLoose? token).startLoneKey token
  if b.goesInSlot token then
    match b.slot with
    | .empty p => b.atValue? p token
    | _ => none
  else b.inCollection? token

end Builder

end DeviceForge.Yaml
