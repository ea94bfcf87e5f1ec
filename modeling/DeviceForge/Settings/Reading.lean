import DeviceForge.Document.Json
import DeviceForge.Document.Yaml
import DeviceForge.Source.Context
import DeviceForge.Text.Case
import DeviceForge.Text.Cut

/-!
# Reading settings

Settings are written as a JSON or YAML document. A missing field has its default, and an
unknown one is ignored. The end of a file's name tells its format.
-/

namespace DeviceForge.Settings

/-- Why settings cannot be read. -/
inductive ReadError where
  /-- There is no such file. -/
  | unreadable
  /-- The name of the file ends in no known format. -/
  | unknownFormat
  | json
  | yaml
  deriving DecidableEq

/-- How the values of a format are read as the types of the fields. -/
structure FieldReader (α : Type) where
  nat? : α → Option Nat
  bool? : α → Option Bool
  /-- A text, or nothing where the value is null. -/
  textOrNull? : α → Option (Option String)

/-- The names of the fields, in their order. -/
def fieldNames : List String :=
  ["indent_width", "default_copyright", "emit_banner", "recover_legacy_code"]

/-- Settings with the fields of a document. -/
def ofFields? {α : Type} (reader : FieldReader α) (fields : List (String × α)) :
    Option Settings := do
  let default : Settings := {}
  return {
    indentWidth := ← readUnique? fields "indent_width" default.indentWidth reader.nat?
    defaultCopyright :=
      ← readUnique? fields "default_copyright" default.defaultCopyright
        reader.textOrNull?
    emitBanner := ← readUnique? fields "emit_banner" default.emitBanner reader.bool?
    recoverLegacyCode :=
      ← readUnique? fields "recover_legacy_code" default.recoverLegacyCode
        reader.bool? }

def jsonReader : FieldReader Json.Value where
  nat?
    | .number x => x.nat64?
    | _ => none
  bool?
    | .bool b => some b
    | _ => none
  textOrNull?
    | .null => some none
    | .string text => text.map some
    | _ => none

def ofJson? (text : String) : Option Settings := do
  let fields ← (← Json.read? text).fieldsOf? fieldNames
  ofFields? jsonReader fields

def yamlReader (d : Yaml.Document) : FieldReader Yaml.Value where
  nat? v :=
    match d.resolve v with
    | .scalar s => s.nat64?
    | _ => none
  bool? v :=
    match d.resolve v with
    | .scalar s => s.bool?
    | _ => none
  textOrNull? v :=
    match d.resolve v with
    | .scalar s => s.textOrNull?
    | _ => none

/-- Every key is a scalar, and it is its text whatever it means. -/
def ofYaml? (text : String) : Option Settings := do
  let d ← Yaml.read? text
  let fields ← (← d.root.fields?).mapM fun (key, v) => do
    return (← (d.resolve key).text?, v)
  ofFields? (yamlReader d) fields

/-- What follows the last point of a name, unless only that point comes first. -/
def extension? (name : String) : Option String :=
  match Text.cut? '.' name.toList.reverse with
  | some (ending, stem) =>
    if stem.isEmpty then none else some (String.ofList ending.reverse)
  | none => none

/-- The settings in a file, given by its name and its contents if there is such a file.
-/
def ofFile (name : String) (contents? : Option String) : Except ReadError Settings := do
  let some text := contents? | throw .unreadable
  match (extension? name).map Text.toLowerAscii with
  | some "json" =>
    if let some settings := ofJson? text then return settings else throw .json
  | some "yaml" | some "yml" =>
    if let some settings := ofYaml? text then return settings else throw .yaml
  | _ => throw .unknownFormat

end DeviceForge.Settings
