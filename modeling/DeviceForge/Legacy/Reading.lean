import DeviceForge.Document.Json
import DeviceForge.Document.Yaml
import DeviceForge.Legacy.Upgrade

/-!
# Reading legacy descriptions

Records are written as JSON or YAML documents. A record has no null and no string
without a text, and its numbers are floats. Containers may be nested up to a limit.
-/

namespace DeviceForge

namespace RawValue

/-- The value of a part of a JSON document with at most so many levels of containers. -/
def ofJson? : Nat → Json.Value → Option RawValue
  | _, .null => none
  | _, .bool b => some (.bool b)
  | _, .number x => x.float?.map .number
  | _, .string s => s.map .text
  | 0, .list _ => none
  | 0, .object _ => none
  | levels + 1, .list items => (items.mapM (ofJson? levels)).map .list
  | levels + 1, .object fields => do
    let fields ← fields.mapM fun field => do
      return (← field.1, ← ofJson? levels field.2)
    return .record (RawRecord.ofFields fields)

/-- The value of a scalar. A whole number of more than 64 bits has none. -/
def ofScalar? (s : Yaml.Scalar) : Option RawValue := do
  match ← s.meaning? with
  | .null => none
  | .bool b => return .bool b
  | .integer n => if Yaml.Scalar.fits64 n then return .number (Float.ofInt n) else none
  | .decimal x => return .number x
  | .text t => return .text t

/-- The text of a key inside a record, which must not mean anything else. -/
def keyOf? : Yaml.Value → Option String
  | .scalar s => do
    match ← s.meaning? with
    | .text t => return t
    | _ => none
  | _ => none

/-- Reading that may follow so many more aliases. -/
abbrev Following := StateT Nat Option

/-- The value that an alias stands for. Any other value stands for itself. -/
def follow (d : Yaml.Document) : Yaml.Value → Following Yaml.Value
  | .alias anchor => do
    match ← get with
    | 0 => failure
    | left + 1 =>
      set left
      return d.resolve (.alias anchor)
  | v => return v

/-- The value of a part of a YAML document with at most so many levels of collections. A
collection with a local tag has none. -/
def ofYaml? (d : Yaml.Document) : Nat → Yaml.Value → Following RawValue
  | 0, v => do
    match ← follow d v with
    | .scalar s => ofScalar? s
    | _ => failure
  | levels + 1, v => do
    match ← follow d v with
    | .scalar s => ofScalar? s
    | .list tag items =>
      if tag.any Yaml.isLocalTag then failure
      else return .list (← items.mapM (ofYaml? d levels))
    | .mapping tag fields =>
      if tag.any Yaml.isLocalTag then failure
      else
        let fields ← fields.mapM fun (key, v) => do
          return (← keyOf? (← follow d key), ← ofYaml? d levels v)
        return .record (RawRecord.ofFields fields)
    | .alias _ => failure

end RawValue

namespace RawRecord

/-- How deep the containers of a JSON document may be nested. -/
def jsonLevels : Nat :=
  127

def yamlLevels : Nat :=
  128

def ofJson? (text : String) : Option RawRecord := do
  (← RawValue.ofJson? jsonLevels (← Json.read? text)).asRecord?

/-- How many aliases are followed for each part of a YAML document. -/
def aliasesPerPart : Nat :=
  100

/-- The record of a YAML document. The keys of the document itself are texts as they
stand. -/
def ofYaml? (text : String) : Option RawRecord := do
  let d ← Yaml.read? text
  let read : RawValue.Following (List (String × RawValue)) :=
    (← d.root.fields?).mapM fun (key, v) => do
      return (← (← RawValue.follow d key).text?,
        ← RawValue.ofYaml? d (yamlLevels - 1) v)
  return ofFields (← read.run' (aliasesPerPart * d.root.partCount))

end RawRecord

namespace LegacyDescription

def sourcesOf? : Json.Value → Option (OrderedMap String String)
  | .object fields => do
    let sources ← fields.mapM fun field =>
      match field with
      | (some file, .string (some text)) => some (file, text)
      | _ => none
    return OrderedMap.ofList sources
  | _ => none

/-- The description that a JSON document holds: a record, and sources unless there are
none. Other fields are ignored. -/
def ofJson? (text : String) : Option LegacyDescription := do
  let fields ← (← Json.read? text).fieldsOf? ["record", "sources"]
  let some value := ← uniqueField? "record" fields | none
  let record ← (← RawValue.ofJson? (RawRecord.jsonLevels - 1) value).asRecord?
  let sources ← readUnique? fields "sources" .empty sourcesOf?
  return { record, sources }

end LegacyDescription

end DeviceForge
