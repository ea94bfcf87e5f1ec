import DeviceForge.Document.Yaml.Scalar

/-!
# Values of YAML

A document is a value whose parts can be aliases of other parts. What an alias stands
for is looked up by the number of its anchor, so a part can also be an alias of
something that it is in.
-/

namespace DeviceForge.Yaml

inductive Value where
  | scalar (s : Scalar)
  | list (tag : Option String) (items : List Value)
  /-- A mapping with its fields in the order of the document, repeated ones included. -/
  | mapping (tag : Option String) (fields : List (Value × Value))
  | alias (anchor : Nat)

namespace Value

def absent : Value :=
  .scalar { text := "" }

mutual

/-- How many parts a value has. A collection counts with its start and its end. -/
def partCount : Value → Nat
  | .scalar _ => 1
  | .alias _ => 1
  | .list _ items => 2 + partCountOfItems items
  | .mapping _ fields => 2 + partCountOfFields fields

def partCountOfItems : List Value → Nat
  | [] => 0
  | v :: rest => partCount v + partCountOfItems rest

def partCountOfFields : List (Value × Value) → Nat
  | [] => 0
  | (key, v) :: rest => partCount key + partCount v + partCountOfFields rest

end

/-- The fields of a mapping. A value that is not written out is a mapping without
fields. -/
def fields? : Value → Option (List (Value × Value))
  | .mapping _ fields => some fields
  | .scalar s => if s.text.isEmpty && s.style = .plain then some [] else none
  | _ => none

def text? : Value → Option String
  | .scalar s => some s.text
  | _ => none

end Value

structure Document where
  root : Value := .absent
  /-- The values with anchors, by the numbers of their anchors. -/
  anchored : List (Nat × Value) := []

/-- What an alias stands for. Any other value stands for itself. -/
def Document.resolve (d : Document) : Value → Value
  | .alias anchor => (d.anchored.lookup anchor).getD (.alias anchor)
  | v => v

end DeviceForge.Yaml
