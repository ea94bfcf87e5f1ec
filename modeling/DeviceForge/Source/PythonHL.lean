import DeviceForge.Source.Script
import DeviceForge.Source.Summary
import DeviceForge.Text.Case

/-!
# Python sources with the declarative device interface

A class becomes a module in which properties, attributes and pipes are class fields and
commands are decorated methods. A member gets a method that decides about states only if
there are states in which it must not be used.
-/

namespace DeviceForge.PythonHL

open Layout
open Script (docstring function)

def quoted (text : String) : Layout :=
  line s!"\"\"\"{text}\"\"\""

/-- The type of an attribute, in one tuple for each dimension. -/
def typeText (t : DataType) : Nat → String
  | 0 => s!"'{t.label}'"
  | n + 1 => s!"({typeText t n},)"

/-- The field that holds the value of an attribute: `Position` is held in `_position`.
-/
def fieldName (name : String) : String :=
  if name.isEmpty then "" else "_" ++ Text.mapFirst Char.toLower name

def superclass (c : SourceContext) : String :=
  c.iface.parent.getD "Device"

def heading (ruler title : String) : Layout :=
  lines [ruler, title, ruler] ++ blank

def propertyArguments (p : Property) : List String :=
  [s!"dtype='{p.dataType.label}'"] ++
    (if p.description.isEmpty then [] else [s!"doc={Text.literal p.description}"]) ++
    (match p.defaultValues with
    | [] => []
    | [value] =>
      if p.dataType.isArray then [s!"default_value=[{Text.literal value}]"]
      else [s!"default_value={Text.literal value}"]
    | values => [s!"default_value=[{Text.literals values}]"]) ++
    if p.mandatory then ["mandatory=True"] else []

def propertyField (kind : MemberKind) (p : Property) : Layout :=
  let factory := if kind = .classProperty then "class_property" else "device_property"
  line s!"{p.name} = {factory}(" ++
    indented (line (Text.commaList (propertyArguments p))) ++
    line ")" ++
    blank

def attributeArguments (a : Attribute) : List String :=
  [s!"dtype={typeText a.dataType a.format.dimensions}"] ++
    (if a.access = .read then [] else [s!"access=AttrWriteType.{a.access.label}"]) ++
    (if a.format.dimensions > 0 then [s!"max_dim_x={a.maxX.toNat}"] else []) ++
    (if a.format.dimensions > 1 then [s!"max_dim_y={a.maxY.toNat}"] else []) ++
    (if a.enumLabels.isEmpty then []
      else [s!"enum_labels=[{Text.literals a.enumLabels}]"]) ++
    (if a.memorized then ["memorized=True"] else []) ++
    (a.pollingPeriod.toList.map fun period => s!"polling_period={period.toNat}") ++
    if a.description.isEmpty then [] else [s!"doc={Text.literal a.description}"]

def commaLines : List String → List String
  | [] => []
  | [item] => [item]
  | item :: rest => (item ++ ",") :: commaLines rest

def attributeField (a : Attribute) : Layout :=
  line s!"{a.name} = attribute(" ++
    indented (lines (commaLines (attributeArguments a))) ++
    line ")" ++
    blank

def pipeField (p : Pipe) : Layout :=
  let access := if p.writable then ", access=PipeWriteType.PIPE_READ_WRITE" else ""
  line s!"{p.name} = pipe(doc={Text.literal p.description}{access})" ++ blank

def declarations (c : SourceContext) : Layout :=
  let properties := c.iface.properties.filter (·.2.isLocal)
  unlessEmpty properties
      (heading "# -----------------" "# Device Properties" ++
        forEach properties fun (kind, r) => propertyField kind r.member) ++
    unlessEmpty c.iface.attributes.locals
      (heading "# ----------" "# Attributes" ++
        forEach c.iface.attributes.locals attributeField) ++
    unlessEmpty c.iface.pipes.locals
      (heading "# -----" "# Pipes" ++ forEach c.iface.pipes.locals pipeField)

def lifecycle (c : SourceContext) : Layout :=
  heading "# ---------------" "# General methods" ++
    function "def init_device(self):"
      (quoted s!"Initializes the attributes and properties of the {c.name}." ++
        line s!"{superclass c}.init_device(self)" ++
        lines (c.iface.attributes.locals.map fun a =>
          s!"self.{fieldName a.name} = {a.dataType.pythonValue a.format.dimensions}") ++
        zone (.ofClass .initDevice) "") ++
    function "def always_executed_hook(self):"
      (quoted "Method always executed before any TANGO command is executed." ++
        zone (.ofClass .alwaysExecutedHook) "") ++
    function "def delete_device(self):"
      (quoted "Hook to delete resources allocated in init_device." ++
        zone (.ofClass .deleteDevice) "")

def isAllowed (c : SourceContext) (key : MemberKey) (parameters : String) : Layout :=
  Script.isAllowed c key parameters fun denied =>
    let states := Text.commaList (denied.map ("DevState." ++ ·))
    [s!"state_ok = self.get_state() not in [{states}]"]

def attributeMethods (c : SourceContext) (a : Attribute) : Layout :=
  (if a.access.isReadable then
    function s!"def read_{a.name}(self):"
      (quoted s!"Return the {a.name} attribute." ++
        zone (.ofMember .attribute a.name .read) s!"return self.{fieldName a.name}")
  else []) ++
  (if a.access.isWritable then
    function s!"def write_{a.name}(self, value):"
      (quoted s!"Set the {a.name} attribute." ++
        zone (.ofMember .attribute a.name .write) s!"self.{fieldName a.name} = value")
  else []) ++
  isAllowed c ⟨.attribute, a.name⟩ ", attr"

def pipeMethods (c : SourceContext) (p : Pipe) : Layout :=
  function s!"def read_{p.name}(self):"
    (quoted s!"Return the {p.name} pipe blob." ++
      zone (.ofMember .pipe p.name .read) s!"return ('{p.name}', dict())") ++
  (if p.writable then
    function s!"def write_{p.name}(self, value):"
      (quoted s!"Set the {p.name} pipe blob." ++
        zone (.ofMember .pipe p.name .write) "")
  else []) ++
  isAllowed c ⟨.pipe, p.name⟩ ", req_type"

def commandArguments (cmd : Command) : List String :=
  (if cmd.argin.dataType = .void then []
    else [s!"dtype_in='{cmd.argin.dataType.label}'",
      s!"doc_in={Text.literal cmd.argin.description}"]) ++
    (if cmd.argout.dataType = .void then []
      else [s!"dtype_out='{cmd.argout.dataType.label}'",
        s!"doc_out={Text.literal cmd.argout.description}"]) ++
    cmd.pollingPeriod.toList.map fun period => s!"polling_period={period.toNat}"

def commandMethod (c : SourceContext) (cmd : Command) : Layout :=
  let result := cmd.argout.dataType
  let parameters := if cmd.argin.dataType = .void then "" else ", argin"
  let doc :=
    if cmd.description.isEmpty then s!"Execute the {cmd.name} command."
    else Text.docstringText cmd.description
  lines [s!"@command({Text.commaList (commandArguments cmd)})", "@DebugIt()"] ++
    function s!"def {cmd.name}(self{parameters}):"
      (quoted doc ++
        zone (.ofMember .command cmd.name .execute)
          (if result = .void then "" else s!"return {result.pythonValue 0}")) ++
    isAllowed c ⟨.command, cmd.name⟩ ""

def classMembers (c : SourceContext) : Layout :=
  stacked [
    line "\"\"\"",
    lines c.iface.summary,
    line "\"\"\"",
    zone (.ofClass .members) "",
    blank,
    declarations c,
    lifecycle c,
    forEach c.iface.attributes.locals (attributeMethods c),
    forEach c.iface.pipes.locals (pipeMethods c),
    forEach c.iface.commands.locals (commandMethod c),
    zone (.ofClass .additionalMethods) ""]

def layout (c : SourceContext) (file : String) : Layout :=
  stacked [
    Script.head,
    Banner.ofClass c "#" file,
    docstring c,
    lines [
      "import tango",
      "from tango import DebugIt, DevState, AttrWriteType, PipeWriteType",
      "from tango.server import run, Device, attribute, command, pipe",
      "from tango.server import device_property, class_property"],
    forEach c.iface.parent.toList
      (fun parent => line s!"from {parent} import {parent}"),
    zone (.ofClass .includes) "# Add your own imports",
    blank,
    line s!"__all__ = [\"{c.name}\", \"main\"]",
    blank,
    blank,
    line s!"class {c.name}({superclass c}):",
    indented (classMembers c),
    blank,
    blank,
    line "def main(args=None, **kwargs):",
    indented
      (quoted s!"Main function of the {c.name} module." ++
        line s!"return run(({c.name},), args=args, **kwargs)"),
    Script.tail]

def skeletons (c : SourceContext) : List Skeleton :=
  let file := c.name ++ ".py"
  [c.file file .hash (layout c file)]

end DeviceForge.PythonHL
