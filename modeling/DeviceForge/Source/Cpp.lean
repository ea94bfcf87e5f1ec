import DeviceForge.Name
import DeviceForge.Source.Banner
import DeviceForge.Source.Summary

/-!
# C++ sources

A class becomes a header, an implementation, and a file that says in which states each
member may be used. Members that the class declares itself get methods and zones;
inherited ones are listed in the documentation of the header only.
-/

namespace DeviceForge.Cpp

open Layout

def typeName : DataType → String
  | .void => "void"
  | t => "Tango::" ++ t.label

def inputParameters (t : DataType) : String :=
  if t = .void then ""
  else if t.isArray then s!"const {typeName t} *argin"
  else s!"{typeName t} argin"

def outputType (t : DataType) : String :=
  if t.isArray then typeName t ++ " *" else typeName t

/-- The type of the field that holds a property. -/
def propertyType : DataType → String
  | .string => "std::string"
  | .stringArray => "std::vector<std::string>"
  | .shortArray => "std::vector<Tango::DevShort>"
  | .longArray => "std::vector<Tango::DevLong>"
  | .doubleArray => "std::vector<Tango::DevDouble>"
  | .booleanArray => "std::vector<Tango::DevBoolean>"
  | t => typeName t

/-- The field that holds a property: `Timeout` is held in `timeout`. -/
def fieldName (name : String) : String :=
  Text.mapFirst Char.toLower name

def baseClass (c : SourceContext) : String :=
  match c.iface.parent with
  | some parent => s!"{parent}_ns::{parent}"
  | none => "TANGO_BASE_CLASS"

def separator : String :=
  "//--------------------------------------------------------"

/-- The comment before a method. The description is already safe in a comment. -/
def methodComment (method description : String) : Layout :=
  lines [separator, "/**", " *\tMethod      : " ++ method,
    " *\tDescription : " ++ description, " */", separator]

/-- The comment before a method whose description is free text. -/
def methodHeading (method description : String) : Layout :=
  methodComment method (Text.escapeComment description)

def traceEntry (what : String) : Layout :=
  line s!"DEBUG_STREAM << \"{what} entering... \" << std::endl;"

def method (signature : String) (body : Layout) : Layout :=
  line signature ++ braced body ++ blank

/-- The device properties that the class declares itself. -/
def localProperties (c : SourceContext) : List Property :=
  c.iface.deviceProperties.locals

def readable (c : SourceContext) : List Attribute :=
  c.iface.attributes.locals.filter (·.access.isReadable)

def propertyFields (c : SourceContext) : Layout :=
  unlessEmpty (localProperties c) <|
    blank ++ line "//\tDevice property data members" ++
      lines ((localProperties c).map fun p =>
        s!"{propertyType p.dataType}\t{fieldName p.name};")

def attributeFields (c : SourceContext) : Layout :=
  unlessEmpty (readable c) <|
    blank ++ line "//\tAttribute data members" ++
      lines ((readable c).map fun a => s!"{typeName a.dataType}\t*attr_{a.name}_read;")

def attributePrototypes (a : Attribute) : Layout :=
  (if a.access.isReadable then
    line s!"virtual void read_{a.name}(Tango::Attribute &attr);"
  else []) ++
  (if a.access.isWritable then
    line s!"virtual void write_{a.name}(Tango::WAttribute &attr);"
  else []) ++
  line s!"virtual bool is_{a.name}_allowed(Tango::AttReqType type);"

def pipePrototypes (p : Pipe) : Layout :=
  line s!"virtual void read_{p.name}(Tango::Pipe &pipe);" ++
  (if p.writable then line s!"virtual void write_{p.name}(Tango::WPipe &pipe);"
  else []) ++
  line s!"virtual bool is_{p.name}_allowed(Tango::PipeReqType type);"

def methodName (cmd : Command) : String :=
  Name.snakeCase cmd.name

def commandPrototypes (cmd : Command) : Layout :=
  lines [
    s!"virtual {outputType cmd.argout.dataType} " ++
      s!"{methodName cmd}({inputParameters cmd.argin.dataType});",
    s!"virtual bool is_{cmd.name}_allowed(const CORBA::Any &any);"]

/-- What stands in the class, one level deeper than its braces. -/
def classMembers (c : SourceContext) : Layout :=
  stacked [
    zone (.ofClass .members) "//\tAdd your own data members",
    propertyFields c,
    attributeFields c,
    blank,
    lines [
      s!"{c.name}(Tango::DeviceClass *cl, std::string &s);",
      "~" ++ c.name ++ "() \x7b delete_device(); \x7d"],
    blank,
    lines [
      "void delete_device();",
      "virtual void init_device();",
      "void get_device_property();",
      "virtual void always_executed_hook();",
      "virtual void read_attr_hardware(std::vector<long> &attr_list);"],
    unlessEmpty c.iface.attributes.locals
      (blank ++ line "//\tAttribute methods" ++
        forEach c.iface.attributes.locals attributePrototypes),
    unlessEmpty c.iface.pipes.locals
      (blank ++ line "//\tPipe methods" ++ forEach c.iface.pipes.locals pipePrototypes),
    unlessEmpty c.iface.commands.locals
      (blank ++ line "//\tCommand related methods" ++
        forEach c.iface.commands.locals commandPrototypes),
    blank,
    zone (.ofClass .additionalMethods) ""]

def headerLayout (c : SourceContext) (file : String) : Layout :=
  stacked [
    Banner.ofClass c "//" file,
    lines [s!"#ifndef {c.name}_H", s!"#define {c.name}_H"],
    blank,
    line "#include <tango/tango.h>",
    forEach c.iface.parent.toList (fun parent => line s!"#include <{parent}.h>"),
    blank,
    zone (.ofClass .includes) "",
    blank,
    c.classComment,
    blank,
    lines [s!"namespace {c.name}_ns", "\x7b"],
    blank,
    lines [s!"class {c.name} : public {baseClass c}", "\x7b"],
    blank,
    line "public:",
    indented (classMembers c),
    line "\x7d;",
    blank,
    line "\x7d\t//\tEnd of namespace",
    blank,
    line s!"#endif   //\t{c.name}_H"]

/-! ## The implementation -/

def constructor (c : SourceContext) : Layout :=
  methodHeading s!"{c.name}::{c.name}()" "Constructor" ++
    lines [s!"{c.name}::{c.name}(Tango::DeviceClass *cl, std::string &s)",
      s!" : {baseClass c}(cl, s.c_str())"] ++
    braced (line "init_device();") ++
    blank

def deleteDevice (c : SourceContext) : Layout :=
  let name := s!"{c.name}::delete_device()"
  methodHeading name "will be called at device destruction or at init command" ++
    method ("void " ++ name)
      (traceEntry name ++
        zone (.ofClass .deleteDevice) "//\tDelete device allocated objects" ++
        lines ((readable c).map fun a => s!"delete[] attr_{a.name}_read;") ++
        if c.iface.parent.isSome then line (baseClass c ++ "::delete_device();")
        else [])

/-- The number of values that an attribute has memory for. A dimension that is given as
zero gets one place. -/
def bufferLength (a : Attribute) : UInt64 :=
  let x := (max a.maxX 1).toUInt64
  let y := (max a.maxY 1).toUInt64
  match a.format with
  | .scalar => 1
  | .spectrum => x
  | .image => x * y

def initDevice (c : SourceContext) : Layout :=
  let name := s!"{c.name}::init_device()"
  methodHeading name "will be called at device initialization" ++
    method ("void " ++ name)
      (traceEntry name ++
        (if c.iface.parent.isSome then line (baseClass c ++ "::init_device();")
        else []) ++
        zone (.ofClass .initDevice)
          "//\tInitialization before get_device_property() call" ++
        line "get_device_property();" ++
        lines ((readable c).map fun a =>
          s!"attr_{a.name}_read = new {typeName a.dataType}[{(bufferLength a).toNat}];"))

/-- Reads one property, which is at the given position of the data base answer. -/
def readProperty (c : SourceContext) (p : Property) (i : Nat) : Layout :=
  line s!"if (!dev_prop[{i}].is_empty()) dev_prop[{i}] >> {fieldName p.name};" ++
    if p.mandatory then
      line ("else Tango::Except::throw_exception(\"PROPERTY_NOT_SET\", " ++
        s!"\"{p.name} is mandatory\", \"{c.name}::get_device_property()\");")
    else []

def propertyReader (c : SourceContext) : Layout :=
  let name := s!"{c.name}::get_device_property()"
  methodHeading name "Read database to initialize property data members." ++
    method ("void " ++ name)
      (unlessEmpty (localProperties c) <|
        line "Tango::DbData\tdev_prop;" ++
          lines ((localProperties c).map fun p =>
            s!"dev_prop.push_back(Tango::DbDatum(\"{p.name}\"));") ++
          line "if (Tango::Util::instance()->_UseDb)" ++
          indented (line "get_db_device()->get_property(dev_prop);") ++
          forEach (localProperties c).zipIdx fun (p, i) => readProperty c p i)

def alwaysExecutedHook (c : SourceContext) : Layout :=
  let name := s!"{c.name}::always_executed_hook()"
  methodHeading name "method always executed before any command is executed" ++
    method ("void " ++ name)
      (traceEntry name ++
        zone (.ofClass .alwaysExecutedHook)
          "//\tcode always executed before all requests")

def readHardware (c : SourceContext) : Layout :=
  let name := s!"{c.name}::read_attr_hardware"
  methodHeading (name ++ "()") "Hardware acquisition for attributes" ++
    method s!"void {name}(TANGO_UNUSED(std::vector<long> &attr_list))"
      (traceEntry (name ++ "()"))

def setValue (a : Attribute) : String :=
  match a.format with
  | .scalar => s!"attr.set_value(attr_{a.name}_read);"
  | .spectrum => s!"attr.set_value(attr_{a.name}_read, {a.maxX.toNat});"
  | .image => s!"attr.set_value(attr_{a.name}_read, {a.maxX.toNat}, {a.maxY.toNat});"

def readAttribute (c : SourceContext) (a : Attribute) : Layout :=
  let name := s!"{c.name}::read_{a.name}"
  methodHeading name
    s!"Extract real attribute values for {a.name} acquisition result." ++
    method s!"void {name}(Tango::Attribute &attr)"
      (traceEntry (name ++ "(Tango::Attribute &attr)") ++
        zone (.ofMember .attribute a.name .read)
          ("//\tSet the attribute value\n" ++ setValue a))

def writeAttribute (c : SourceContext) (a : Attribute) : Layout :=
  let name := s!"{c.name}::write_{a.name}"
  methodHeading name s!"Set new value for {a.name} attribute." ++
    method s!"void {name}(Tango::WAttribute &attr)"
      (traceEntry (name ++ "(Tango::WAttribute &attr)") ++
        line "//\tRetrieve write value" ++
        line (if a.format = .scalar then s!"{typeName a.dataType}\tw_val;"
          else s!"const {typeName a.dataType}\t*w_val;") ++
        line "attr.get_write_value(w_val);" ++
        zone (.ofMember .attribute a.name .write) "")

def attributeMethods (c : SourceContext) (a : Attribute) : Layout :=
  (if a.access.isReadable then readAttribute c a else []) ++
    if a.access.isWritable then writeAttribute c a else []

/-- A method that reads or writes a pipe. -/
def pipeMethod (c : SourceContext) (p : Pipe) (action parameter : String)
    (role : MemberRole) (body : String) : Layout :=
  let name := s!"{c.name}::{action}_{p.name}"
  methodHeading name p.description ++
    method s!"void {name}({parameter})"
      (traceEntry s!"{name}({parameter})" ++ zone (.ofMember .pipe p.name role) body)

def readPipe (c : SourceContext) (p : Pipe) : Layout :=
  pipeMethod c p "read" "Tango::Pipe &pipe" .read "//\tSet the pipe blob"

def writePipe (c : SourceContext) (p : Pipe) : Layout :=
  pipeMethod c p "write" "Tango::WPipe &pipe" .write ""

def pipeMethods (c : SourceContext) (p : Pipe) : Layout :=
  readPipe c p ++ if p.writable then writePipe c p else []

/-- The declaration of the value that a command returns. -/
def outputVariable (t : DataType) : Layout :=
  if t.isArray then line s!"{typeName t} *argout = new {typeName t};"
  else if t = .void then []
  else line s!"{typeName t}\targout;"

def commandMethod (c : SourceContext) (cmd : Command) : Layout :=
  let name := s!"{c.name}::{methodName cmd}"
  let result := cmd.argout.dataType
  methodHeading (name ++ "()") cmd.description ++
    method s!"{outputType result} {name}({inputParameters cmd.argin.dataType})"
      (outputVariable result ++
        line (s!"DEBUG_STREAM << \"{c.name}::{cmd.name}()  - \" " ++
          "<< device_name << std::endl;") ++
        zone (.ofMember .command cmd.name .execute) "//\tAdd your own code" ++
        if result = .void then [] else line "return argout;")

def implementationLayout (c : SourceContext) (file : String) : Layout :=
  stacked [
    Banner.ofClass c "//" file,
    line s!"#include <{c.name}.h>",
    blank,
    lines [s!"namespace {c.name}_ns", "\x7b"],
    constructor c,
    deleteDevice c,
    initDevice c,
    propertyReader c,
    alwaysExecutedHook c,
    readHardware c,
    forEach c.iface.attributes.locals (attributeMethods c),
    forEach c.iface.pipes.locals (pipeMethods c),
    forEach c.iface.commands.locals (commandMethod c),
    methodHeading s!"{c.name}::additional_methods()" "Additional methods",
    zone (.ofClass .additionalMethods) "//\tAdditional Methods",
    line ("\x7d //\tnamespace " ++ c.name ++ "_ns")]

/-! ## The state machine -/

/-- A condition on the state, one line for each state, after `opening` on the first one.
-/
def stateCondition (opening : String) : List String → List String
  | [] => []
  | [state] => [s!"{opening}get_state()==Tango::{state})"]
  | state :: rest =>
    s!"{opening}get_state()==Tango::{state} ||" :: stateCondition "    " rest

/-- The method that says whether a member may be used in the current state. -/
def isAllowed (c : SourceContext) (key : MemberKey) (parameters : String) : Layout :=
  let name := s!"{c.name}::is_{key.name}_allowed"
  let slot := ZoneId.ofMember key.kind key.name .isAllowed
  methodComment (name ++ "()") s!"Execution allowed for {key.name} {key.kind.label}." ++
    method s!"bool {name}({parameters})"
      ((match c.iface.deniedStates key with
        | [] =>
          line s!"//\tNot any excluded states for {key.name} {key.kind.label}." ++
            zone slot ""
        | denied =>
          line "//\tCompare device state with not allowed states." ++
            lines (stateCondition "if (" denied) ++
            braced (zone slot "" ++ line "return false;")) ++
        line "return true;")

def sectionHeading (title : String) : Layout :=
  lines ["//=================================================", "//\t\t" ++ title,
    "//================================================="] ++ blank

def stateMachineLayout (c : SourceContext) (file : String) : Layout :=
  stacked [
    Banner.ofClass c "//" file,
    line s!"#include <{c.name}.h>",
    blank,
    lines [s!"namespace {c.name}_ns", "\x7b"],
    sectionHeading "Attributes Allowed Methods",
    forEach c.iface.attributes.locals (fun a =>
      isAllowed c ⟨.attribute, a.name⟩ "TANGO_UNUSED(Tango::AttReqType type)"),
    unlessEmpty c.iface.pipes.locals
      (sectionHeading "Pipe Allowed Methods" ++
        forEach c.iface.pipes.locals fun p =>
          isAllowed c ⟨.pipe, p.name⟩ "TANGO_UNUSED(Tango::PipeReqType type)"),
    sectionHeading "Commands Allowed Methods",
    forEach c.iface.commands.locals (fun cmd =>
      isAllowed c ⟨.command, cmd.name⟩ "TANGO_UNUSED(const CORBA::Any &any)"),
    line ("\x7d\t//\tEnd of namespace " ++ c.name ++ "_ns")]

def skeletons (c : SourceContext) : List Skeleton :=
  let header := c.name ++ ".h"
  let implementation := c.name ++ ".cpp"
  let stateMachine := c.name ++ "StateMachine.cpp"
  [c.file header .block (headerLayout c header),
    c.file implementation .block (implementationLayout c implementation),
    c.file stateMachine .block (stateMachineLayout c stateMachine)]

end DeviceForge.Cpp
