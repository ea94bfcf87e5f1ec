import DeviceForge.Source.Script
import DeviceForge.Source.Summary

/-!
# Python sources with the classic device interface

A class becomes a module with the device, its descriptor and a main function. A member
gets a method that decides about states only if there are states in which it must not be
used.
-/

namespace DeviceForge.Python

open Layout
open Script (docstring function)

def superclass (c : SourceContext) : String :=
  c.iface.parent.getD "PyTango.Device_4Impl"

def traceText (name : String) : String :=
  s!"self.debug_stream(\"In {name}()\")"

def trace (name : String) : Layout :=
  line (traceText name)

def isAllowed (c : SourceContext) (key : MemberKey) (parameters : String) : Layout :=
  Script.isAllowed c key parameters fun denied =>
    let states := Text.commaList (denied.map ("PyTango.DevState." ++ ·))
    [traceText s!"is_{key.name}_allowed",
      s!"state_ok = not(self.get_state() in [{states}])"]

def attributeMethods (c : SourceContext) (a : Attribute) : Layout :=
  (if a.access.isReadable then
    function s!"def read_{a.name}(self, attr):"
      (trace s!"read_{a.name}" ++
        zone (.ofMember .attribute a.name .read)
          s!"attr.set_value(self.attr_{a.name}_read)")
  else []) ++
  (if a.access.isWritable then
    function s!"def write_{a.name}(self, attr):"
      (trace s!"write_{a.name}" ++
        lines ["data = attr.get_write_value()",
          "self.info_stream(\"Attribute value = \" + str(data))"] ++
        zone (.ofMember .attribute a.name .write) "")
  else []) ++
  isAllowed c ⟨.attribute, a.name⟩ ", attr"

def pipeMethods (c : SourceContext) (p : Pipe) : Layout :=
  function s!"def read_{p.name}(self, pipe):"
    (trace s!"read_{p.name}" ++
      zone (.ofMember .pipe p.name .read) s!"pipe.set_value(('{p.name}', dict()))") ++
  (if p.writable then
    function s!"def write_{p.name}(self, pipe):"
      (trace s!"write_{p.name}" ++
        line "data = pipe.get_value()" ++
        zone (.ofMember .pipe p.name .write) "")
  else []) ++
  isAllowed c ⟨.pipe, p.name⟩ ", req_type"

def inputParameter (cmd : Command) : String :=
  if cmd.argin.dataType = .void then "" else ", argin"

def commandMethod (c : SourceContext) (cmd : Command) : Layout :=
  let result := cmd.argout.dataType
  function s!"def {cmd.name}(self{inputParameter cmd}):"
    ((if cmd.description.isEmpty then []
      else line s!"\"\"\" {Text.docstringText cmd.description} \"\"\"") ++
      trace cmd.name ++
      (if result = .void then [] else line s!"argout = {result.pythonValue 0}") ++
      zone (.ofMember .command cmd.name .execute) "" ++
      if result = .void then [] else line "return argout") ++
  isAllowed c ⟨.command, cmd.name⟩ ""

def sectionHeading (title : String) : Layout :=
  lines ["# -------------------------------------------------------------------------",
    "#    " ++ title,
    "# -------------------------------------------------------------------------"] ++
      blank

/-- The fields that hold the attributes read by hand. -/
def attributeFields (c : SourceContext) : Layout :=
  lines ((c.iface.attributes.locals.filter (·.access.isReadable)).map fun a =>
    s!"self.attr_{a.name}_read = {a.dataType.pythonValue a.format.dimensions}")

def deviceMembers (c : SourceContext) : Layout :=
  stacked [
    line "\"\"\"",
    lines c.iface.summary,
    line "\"\"\"",
    zone (.ofClass .members) "",
    blank,
    function "def __init__(self, cl, name):"
      (line s!"{superclass c}.__init__(self, cl, name)" ++
        trace "__init__" ++
        line s!"{c.name}.init_device(self)"),
    function "def delete_device(self):"
      (trace "delete_device" ++ zone (.ofClass .deleteDevice) ""),
    function "def init_device(self):"
      (trace "init_device" ++
        forEach c.iface.parent.toList
          (fun parent => line s!"{parent}.init_device(self)") ++
        line "self.get_device_properties(self.get_device_class())" ++
        attributeFields c ++
        zone (.ofClass .initDevice) ""),
    function "def always_executed_hook(self):"
      (trace "always_executed_hook" ++ zone (.ofClass .alwaysExecutedHook) ""),
    sectionHeading s!"{c.name} read/write attribute methods",
    forEach c.iface.attributes.locals (attributeMethods c),
    forEach c.iface.pipes.locals (pipeMethods c),
    sectionHeading s!"{c.name} command methods",
    forEach c.iface.commands.locals (commandMethod c),
    zone (.ofClass .additionalMethods) ""]

def dictionary (name : String) (entries : List String) : Layout :=
  line (name ++ " = \x7b") ++ indented (lines entries) ++ line "\x7d"

def propertyEntry (p : Property) : String :=
  s!"'{p.name}': [PyTango.{p.dataType.label}, {Text.literal p.description}, " ++
    s!"[{Text.literals p.defaultValues}]],"

def commandEntry (cmd : Command) : String :=
  s!"'{cmd.name}': [[PyTango.{cmd.argin.dataType.label}, " ++
    s!"{Text.literal cmd.argin.description}], " ++
    s!"[PyTango.{cmd.argout.dataType.label}, {Text.literal cmd.argout.description}]],"

def attributeShape (a : Attribute) : String :=
  s!"PyTango.{a.dataType.label}, PyTango.{a.format.label}, PyTango.{a.access.label}" ++
    match a.format with
    | .scalar => ""
    | .spectrum => s!", {a.maxX.toNat}"
    | .image => s!", {a.maxX.toNat}, {a.maxY.toNat}"

def attributeOptions (a : Attribute) : List String :=
  (if a.description.isEmpty then []
    else [s!"'description': {Text.literal a.description}"]) ++
    (if a.enumLabels.isEmpty then []
      else [s!"'enum_labels': [{Text.literals a.enumLabels}]"]) ++
    if a.memorized then ["'Memorized': \"true\""] else []

def attributeEntry (a : Attribute) : String :=
  let options := match attributeOptions a with
    | [] => ""
    | entries => ", \x7b" ++ Text.commaList entries ++ "\x7d"
  s!"'{a.name}': [[{attributeShape a}]{options}],"

/-- The descriptor lists everything in effect, inherited members included. -/
def descriptor (c : SourceContext) : Layout :=
  let superclass := match c.iface.parent with
    | some parent => parent ++ "Class"
    | none => "PyTango.DeviceClass"
  line s!"class {c.name}Class({superclass}):" ++
    indented
      (dictionary "class_property_list"
          (c.iface.classProperties.values.map fun r => propertyEntry r.member) ++
        blank ++
        dictionary "device_property_list"
          (c.iface.deviceProperties.values.map fun r => propertyEntry r.member) ++
        blank ++
        dictionary "cmd_list"
          (c.iface.commands.values.map fun r => commandEntry r.member) ++
        blank ++
        dictionary "attr_list"
          (c.iface.attributes.values.map fun r => attributeEntry r.member))

def mainFunction (c : SourceContext) : Layout :=
  line "def main():" ++
    indented
      (line "try:" ++
        indented (lines [
          "py = PyTango.Util(sys.argv)",
          s!"py.add_class({c.name}Class, {c.name}, '{c.name}')",
          "U = PyTango.Util.instance()",
          "U.server_init()",
          "U.server_run()"]) ++
        line "except PyTango.DevFailed as e:" ++
        indented (line "print('-------> Received a DevFailed exception:', e)") ++
        line "except Exception as e:" ++
        indented (line "print('-------> An unforeseen exception occurred....', e)")) ++
    blank ++
    line "if __name__ == '__main__':" ++
    indented (line "main()")

def layout (c : SourceContext) (file : String) : Layout :=
  stacked [
    Script.head,
    Banner.ofClass c "#" file,
    docstring c,
    line s!"__all__ = [\"{c.name}\", \"{c.name}Class\", \"main\"]",
    blank,
    line "__docformat__ = 'restructuredtext'",
    blank,
    lines ["import PyTango", "import sys"],
    forEach c.iface.parent.toList (fun parent =>
      line s!"from {parent} import {parent}, {parent}Class"),
    zone (.ofClass .includes) "# Add your own imports",
    blank,
    blank,
    line s!"class {c.name}({superclass c}):",
    indented (deviceMembers c),
    blank,
    descriptor c,
    blank,
    mainFunction c]

def skeletons (c : SourceContext) : List Skeleton :=
  let file := c.name ++ ".py"
  [c.file file .hash (layout c file)]

end DeviceForge.Python
