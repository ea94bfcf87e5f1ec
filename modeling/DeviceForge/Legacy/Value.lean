import DeviceForge.Decimal.Reading
import DeviceForge.Decimal.Shortest
import DeviceForge.OrderedMap
import DeviceForge.Text.Blank
import DeviceForge.Text.Case

/-!
# Values of legacy records

Old descriptions are loosely typed: a number may stand where a text is meant, and truth
values and whole numbers may be written as texts. A record keeps its fields in the order
of the file.
-/

namespace DeviceForge

inductive RawValue where
  | bool (b : Bool)
  | number (x : Float)
  | text (s : String)
  | list (items : List RawValue)
  | record (fields : List (String × RawValue))

abbrev RawRecord :=
  List (String × RawValue)

namespace RawRecord

def get? (record : RawRecord) (key : String) : Option RawValue :=
  OrderedMap.find? key record

/-- Sets a field. A field that is there keeps its place. -/
def set (record : RawRecord) (key : String) (value : RawValue) : RawRecord :=
  if record.any (·.1 == key) then OrderedMap.replaceAll key value record
  else record ++ [(key, value)]

def ofFields (fields : List (String × RawValue)) : RawRecord :=
  fields.foldl (fun record field => record.set field.1 field.2) []

end RawRecord

namespace RawValue

def asText? : RawValue → Option String
  | .text s => some s
  | _ => none

/-- A truth value, also spelled in words or digits. -/
def asBool? : RawValue → Option Bool
  | .bool b => some b
  | .text s =>
    let word := Text.toLowerAscii (Text.trim s)
    if word ∈ ["true", "yes", "1"] then some true
    else if word ∈ ["false", "no", "0"] then some false
    else none
  | _ => none

def asNat32? : RawValue → Option UInt32
  | .number x =>
    if x ≥ 0 ∧ x.floor == x ∧ x ≤ 4294967295 then some x.toUInt64.toUInt32 else none
  | .text s => (Decimal.nat32? (Text.trimChars s.toList)).map UInt32.ofNat
  | _ => none

def asList? : RawValue → Option (List RawValue)
  | .list items => some items
  | _ => none

def asRecord? : RawValue → Option RawRecord
  | .record fields => some fields
  | _ => none

def scalarText? : RawValue → Option String
  | .text s => some s
  | .number x => some (Decimal.text x)
  | .bool b => some (if b then "true" else "false")
  | _ => none

/-- The scalars of a list as texts. A text stands for a list of its own. -/
def textItems : RawValue → List String
  | .text s => [s]
  | .list items => items.filterMap scalarText?
  | _ => []

end RawValue

end DeviceForge
