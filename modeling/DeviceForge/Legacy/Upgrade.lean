import DeviceForge.Device.Editing
import DeviceForge.Fragments
import DeviceForge.Legacy.Extraction
import DeviceForge.Legacy.Value
import DeviceForge.Source.Context
import DeviceForge.Warning

/-!
# Upgrading legacy descriptions

A legacy description is a loosely typed record together with the sources that were
generated from it. The upgrade makes a class out of it. Whatever cannot be carried over
is skipped or replaced, and noted as an issue; only a record without a usable class name
is refused, and one that is not legacy.
-/

namespace DeviceForge

structure LegacyDescription where
  record : RawRecord
  /-- The sources by file name. -/
  sources : OrderedMap String String := .empty

inductive LegacyError where
  /-- The record has a current revision, which may be written as a text. -/
  | notLegacy (revision : String)
  | missingClassName
  deriving DecidableEq

def LegacyError.message : LegacyError → String
  | .notLegacy revision => s!"record uses the current schema revision {revision}"
  | .missingClassName => "legacy record has no class name"

/-- A part of a legacy description that was skipped or replaced. -/
inductive ConversionIssue where
  | unknownLanguage (label : String)
  | unknownField (key : String)
  | unknownLicense (label : String)
  | namelessState
  | unreadableState
  | rejectedState (name : String) (error : ModelError)
  | namelessMember (kind : MemberKind)
  | unknownType (key : MemberKey) (label : String) (fallback : DataType)
  | attributeType (key : MemberKey) (type : DataType)
  | propertyType (key : MemberKey) (type : DataType)
  | unknownFormat (key : MemberKey) (label : String)
  | unknownAccess (key : MemberKey) (label : String)
  | rejectedMember (key : MemberKey) (error : ModelError)
  | unknownState (key : MemberKey) (state : String)
  | rejectedConstraint (key : MemberKey) (error : ModelError)
  /-- A source holds the body of a member that the class does not have. -/
  | unknownOwner (file : String) (key : MemberKey)
  | noBody (file : String) (id : ZoneId)
  /-- A member has a zone, but no source a body for it. -/
  | notRecovered (id : ZoneId)
  deriving DecidableEq

namespace ConversionIssue

def message : ConversionIssue → String
  | .unknownLanguage label => s!"unknown language '{label}', using {Language.cpp.label}"
  | .unknownField key => s!"unknown field '{key}' ignored"
  | .unknownLicense label => s!"unknown license '{label}', using {License.gpl.label}"
  | .namelessState => "state without a name skipped"
  | .unreadableState => "unreadable state entry skipped"
  | .rejectedState name error => s!"state '{name}' skipped: {error.message}"
  | .namelessMember kind => s!"{kind.label} without a name skipped"
  | .unknownType key label fallback =>
    s!"{memberText key.kind key.name}: unknown type '{label}', using {fallback.label}"
  | .attributeType key type =>
    s!"{memberText key.kind key.name}: " ++
      s!"type {type.label} cannot be an attribute, using DevString"
  | .propertyType key type =>
    s!"{memberText key.kind key.name}: " ++
      s!"type {type.label} cannot be a property, using DevString"
  | .unknownFormat key label =>
    s!"{memberText key.kind key.name}: unknown format '{label}', using SCALAR"
  | .unknownAccess key label =>
    s!"{memberText key.kind key.name}: unknown write type '{label}', using READ"
  | .rejectedMember key error =>
    s!"{memberText key.kind key.name} skipped: {error.message}"
  | .unknownState key state =>
    s!"{memberText key.kind key.name}: " ++
      s!"unknown state '{state}' dropped from its allowed states"
  | .rejectedConstraint key error =>
    s!"{memberText key.kind key.name}: allowed states dropped: {error.message}"
  | .unknownOwner file key =>
    s!"{file}: body for unknown {memberText key.kind key.name} not recovered"
  | .noBody file id => s!"{file}: no body found for '{id.text}', a stub is generated"
  | .notRecovered id => s!"no hand-written body recovered for '{id.text}'"

def toWarning (issue : ConversionIssue) : Warning :=
  { kind := .conversionIncomplete, message := issue.message }

end ConversionIssue

structure Noted (α : Type) where
  value : α
  issues : List ConversionIssue := []

instance : Monad Noted where
  pure a := ⟨a, []⟩
  bind x f :=
    let y := f x.value
    ⟨y.value, x.issues ++ y.issues⟩

def note (issue : ConversionIssue) : Noted Unit :=
  ⟨(), [issue]⟩

structure Conversion where
  cls : DeviceClass
  fragments : Fragments
  issues : List ConversionIssue

def Conversion.warnings (c : Conversion) : List Warning :=
  c.issues.map (·.toWarning)

namespace Legacy

def revisionKey : String :=
  "pogoRevision"

/-- The first major revision that is not legacy. -/
def firstCurrentMajor : Nat :=
  7

/-- The major number of a revision `major.minor`, where the minor number may be missing.
-/
def major? (revision : String) : Option Nat :=
  let text := Text.trimChars revision.toList
  let (major, minor) := (Text.cut? '.' text).getD (text, ['0'])
  match Decimal.nat32? major, Decimal.nat32? minor with
  | some n, some _ => some n
  | _, _ => none

/-- A record is legacy unless it names a current revision. -/
def isLegacy (record : RawRecord) : Bool :=
  let revision? := match record.get? revisionKey with
    | some (.text s) => some s
    | some (.number x) => some (Decimal.text x)
    | _ => none
  match revision?.bind major? with
  | some major => decide (major < firstCurrentMajor)
  | none => true

def knownKeys : List String :=
  [revisionKey, "class_name", "language", "title", "description", "copyright",
    "license", "abstract", "states", "attributes", "commands", "class_properties",
    "device_properties"]

/-- A text field without the blanks around it. A number counts as its text. -/
def textField? (record : RawRecord) (key : String) : Option String :=
  match record.get? key with
  | some (.text s) => some (Text.trim s)
  | some (.number x) => some (Decimal.text x)
  | _ => none

def textField (record : RawRecord) (key : String) : String :=
  (textField? record key).getD ""

def flag (record : RawRecord) (key : String) : Bool :=
  ((record.get? key).bind RawValue.asBool?).getD false

def natField? (record : RawRecord) (key : String) : Option UInt32 :=
  (record.get? key).bind RawValue.asNat32?

def listField (record : RawRecord) (key : String) : List RawValue :=
  ((record.get? key).bind RawValue.asList?).getD []

/-- The entries of a list field that are records. -/
def recordsField (record : RawRecord) (key : String) : List RawRecord :=
  (listField record key).filterMap RawValue.asRecord?

def textsField (record : RawRecord) (key : String) : List String :=
  ((record.get? key).map RawValue.textItems).getD []

/-- The states in which a member may be used, if the record speaks of them. -/
def allowedField? (item : RawRecord) : Option (List String) :=
  (item.get? "allowed_states").map RawValue.textItems

/-- A value read from a text field, or a fallback. A text that cannot be read is an
issue. -/
def readField {α : Type} (record : RawRecord) (key : String) (read? : String → Option α)
    (fallback : α) (issue : String → ConversionIssue) : Noted α :=
  match textField? record key with
  | none => pure fallback
  | some label =>
    match read? label with
    | some value => pure value
    | none => do
      note (issue label)
      pure fallback

def languageOf? (label : String) : Option Language :=
  if label = "C++" then some .cpp else Language.ofLabel? label

def readLanguage (record : RawRecord) : Noted Language :=
  readField record "language" languageOf? .cpp .unknownLanguage

def noteUnknownFields (record : RawRecord) : Noted Unit :=
  ⟨(), (record.filter fun field => field.1 ∉ knownKeys).map fun field =>
    .unknownField field.1⟩

def readMetadata (record : RawRecord) : Noted Metadata := do
  let license ← readField record "license" License.ofLabel? .gpl .unknownLicense
  return {
    title := textField record "title"
    description := textField record "description"
    copyright := textField record "copyright"
    license }

/-- The state that an entry declares. -/
def readState : RawValue → Except ConversionIssue State
  | .text name => .ok { name := Text.trim name }
  | .record fields =>
    match textField? fields "name" with
    | some name => .ok { name, description := textField fields "description" }
    | none => .error .namelessState
  | _ => .error .unreadableState

/-- Adds the state of an entry, unless the class refuses it. -/
def addState (body : ClassBody) (entry : RawValue) : Noted ClassBody :=
  match readState entry with
  | .error issue => ⟨body, [issue]⟩
  | .ok state =>
    match body.addState state with
    | .ok body => pure body
    | .error error => ⟨body, [.rejectedState state.name error]⟩

/-! ## Members -/

/-- A data type, or the fallback, with an issue for a label that names none. -/
def readType (item : RawRecord) (field : String) (fallback : DataType)
    (key : MemberKey) : Noted DataType :=
  readField item field DataType.ofLabel? fallback fun label =>
    .unknownType key label fallback

/-- Replaces a data type that does not fit. -/
def fitting (fits : DataType → Bool) (issue : DataType → ConversionIssue)
    (type : DataType) : Noted DataType :=
  if fits type then pure type else ⟨.string, [issue type]⟩

def readAttribute (item : RawRecord) (name : String) : Noted Attribute := do
  let key : MemberKey := ⟨.attribute, name⟩
  let type ← readType item "data_type" .string key
  let dataType ← fitting DataType.isAttributeType (.attributeType key) type
  let format ← readField item "format" Format.ofLabel? .scalar (.unknownFormat key)
  let access ← readField item "write_type" Access.ofLabel? .read (.unknownAccess key)
  return {
    name, dataType, format, access
    maxX := (natField? item "max_x").getD 1
    maxY := (natField? item "max_y").getD 0
    description := textField item "description"
    enumLabels := textsField item "enum_labels"
    memorized := flag item "memorized"
    pollingPeriod := natField? item "polling_period" }

def readCommand (item : RawRecord) (name : String) : Noted Command := do
  let key : MemberKey := ⟨.command, name⟩
  let input ← readType item "argin_type" .void key
  let output ← readType item "argout_type" .void key
  return {
    name
    argin := ⟨input, (textField? item "argin_description").getD "none"⟩
    argout := ⟨output, (textField? item "argout_description").getD "none"⟩
    description := textField item "description"
    pollingPeriod := natField? item "polling_period" }

def readProperty (kind : MemberKind) (item : RawRecord) (name : String) :
    Noted Property := do
  let key : MemberKey := ⟨kind, name⟩
  let type ← readType item "data_type" .string key
  let dataType ← fitting DataType.isPropertyType (.propertyType key) type
  return {
    name, dataType
    description := textField item "description"
    defaultValues := textsField item "default_values"
    mandatory := flag item "mandatory" }

/-- A constraint that waits until all members are there. -/
abbrev Pending :=
  List (MemberKey × List String)

/-- Adds the member of a record, unless the class refuses it. -/
def addMember (kind : MemberKind) (read : RawRecord → String → Noted Member)
    (so : ClassBody × Pending) (item : RawRecord) : Noted (ClassBody × Pending) :=
  match textField? item "name" with
  | none => ⟨so, [.namelessMember kind]⟩
  | some name => do
    let member ← read item name
    match so.1.add member with
    | .error error => ⟨so, [.rejectedMember ⟨kind, name⟩ error]⟩
    | .ok body =>
      let constraint := (allowedField? item).toList.map fun states =>
        (⟨kind, name⟩, states)
      pure (body, so.2 ++ constraint)

/-- Constrains a member to the declared states of a list. -/
def addConstraint (body : ClassBody) (constraint : MemberKey × List String) :
    Noted ClassBody :=
  let states := constraint.2.map Text.trim
  let unknown := states.filter (!body.machine.hasState ·)
  let issues := unknown.map (ConversionIssue.unknownState constraint.1)
  match body.setAllowedStates constraint.1 (states.filter body.machine.hasState) with
  | .ok body => ⟨body, issues⟩
  | .error error => ⟨body, issues ++ [.rejectedConstraint constraint.1 error]⟩

/-- Adds states, members and constraints. Only attributes and commands are constrained.
-/
def readContents (record : RawRecord) (body : ClassBody) : Noted ClassBody := do
  let body ← (listField record "states").foldlM addState body
  let (body, pending) ← (recordsField record "attributes").foldlM
    (addMember .attribute fun item name => .attribute <$> readAttribute item name)
      (body, [])
  let (body, pending) ← (recordsField record "commands").foldlM
    (addMember .command fun item name => .command <$> readCommand item name)
      (body, pending)
  let (body, _) ← (recordsField record "class_properties").foldlM
    (addMember .classProperty fun item name =>
      .classProperty <$> readProperty .classProperty item name) (body, [])
  let (body, _) ← (recordsField record "device_properties").foldlM
    (addMember .deviceProperty fun item name =>
      .deviceProperty <$> readProperty .deviceProperty item name) (body, [])
  pending.foldlM addConstraint body

/-! ## Bodies -/

/-- The member that a zone belongs to, if the class does not have it. -/
def missingOwner? (body : ClassBody) (id : ZoneId) : Option MemberKey :=
  id.slot?.bind fun slot =>
    let key : MemberKey := ⟨slot.kind, slot.name⟩
    if body.hasMember key then none else some key

def addMethod (body : ClassBody) (file : String) (fragments : Fragments)
    (found : FoundMethod) : Noted Fragments :=
  match missingOwner? body found.id, found.body with
  | some key, _ => ⟨fragments, [.unknownOwner file key]⟩
  | none, none => ⟨fragments, [.noBody file found.id]⟩
  | none, some text => pure (fragments.store found.id text)

/-- The zones of attributes and commands that are written by hand. -/
def expectedZones (body : ClassBody) : List ZoneId :=
  (body.attributes.flatMap fun a =>
    (if a.access.isReadable then [ZoneId.ofMember .attribute a.name .read] else []) ++
      if a.access.isWritable then [ZoneId.ofMember .attribute a.name .write] else []) ++
    body.commands.map fun cmd => ZoneId.ofMember .command cmd.name .execute

/-- The bodies of all sources. If there are sources, every zone without a body is an
issue. -/
def recoverBodies (sources : OrderedMap String String) (body : ClassBody) :
    Noted Fragments := do
  let fragments ← sources.entries.foldlM
    (fun fragments source =>
      (extractMethods source.2).foldlM (addMethod body source.1) fragments)
    (OrderedMap.empty : Fragments)
  let missing := (expectedZones body).filter (!fragments.contains ·)
  if sources.isEmpty then pure fragments
  else ⟨fragments, missing.map .notRecovered⟩

/-! ## The upgrade -/

/-- Everything after the name and the language. -/
def convert (desc : LegacyDescription) (settings : Settings) (name : String)
    (language : Language) : Noted (DeviceClass × Fragments) := do
  noteUnknownFields desc.record
  let metadata ← readMetadata desc.record
  let isAbstract := flag desc.record "abstract"
  let body ← readContents desc.record { name, language, metadata, isAbstract }
  let fragments ←
    if body.isAbstract || !settings.recoverLegacyCode then pure OrderedMap.empty
    else recoverBodies desc.sources body
  return ({ toClassBody := body }, fragments)

/-- Makes a class of a legacy description. -/
def upgrade (desc : LegacyDescription) (settings : Settings) :
    Except LegacyError Conversion := do
  if !isLegacy desc.record then
    throw (.notLegacy (((desc.record.get? revisionKey).bind RawValue.asText?).getD ""))
  let some text := textField? desc.record "class_name" | throw .missingClassName
  let name ← (Name.ofText text).mapError fun _ => .missingClassName
  let result : Noted (DeviceClass × Fragments) := do
    let language ← readLanguage desc.record
    convert desc settings name language
  return ⟨result.value.1, result.value.2, result.issues⟩

end Legacy

end DeviceForge
