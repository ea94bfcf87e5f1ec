import DeviceForge.Source.Banner
import DeviceForge.Source.Summary
import DeviceForge.Text.Case

/-!
# Java sources

A class becomes one annotated file. The states in which a member must not be used are
named in the mark before it, so there are no zones to decide about states.
-/

namespace DeviceForge.Java

open Layout

def typeName : DataType → String
  | .boolean => "boolean"
  | .short | .ushort | .enum => "short"
  | .long | .ulong => "int"
  | .long64 | .ulong64 => "long"
  | .float => "float"
  | .double => "double"
  | .string => "String"
  | .uchar => "byte"
  | .state => "DevState"
  | .encoded => "DevEncoded"
  | .void => "void"
  | .shortArray => "short[]"
  | .longArray => "int[]"
  | .doubleArray => "double[]"
  | .stringArray => "String[]"
  | .booleanArray => "boolean[]"
  | .charArray => "byte[]"

def repeated (text : String) (count : Nat) : String :=
  String.join (List.replicate count text)

def valueType (t : DataType) (dimensions : Nat) : String :=
  typeName t ++ repeated "[]" dimensions

/-- The value that a single value starts with. -/
def startValue : DataType → String
  | .boolean => "false"
  | .float => "0.0f"
  | .double => "0.0"
  | .string => "\"\""
  | .state => "DevState.UNKNOWN"
  | .encoded => "new DevEncoded()"
  | .short | .ushort | .enum => "(short) 0"
  | .uchar => "(byte) 0"
  | .long64 | .ulong64 => "0L"
  | .shortArray => "new short[0]"
  | .longArray => "new int[0]"
  | .doubleArray => "new double[0]"
  | .stringArray => "new String[0]"
  | .booleanArray => "new boolean[0]"
  | .charArray => "new byte[0]"
  | .long | .ulong | .void => "0"

def initialValue (t : DataType) (dimensions : Nat) : String :=
  if dimensions = 0 then startValue t
  else "new " ++ typeName t ++ repeated "[0]" dimensions

/-- The field of a member: `Position` is held in `position`. -/
def fieldName (name : String) : String :=
  Text.mapFirst Char.toLower name

/-- The name of a member after `get` and `set`. -/
def accessorName (name : String) : String :=
  Text.mapFirst Char.toUpper name

def inBraces (items : List String) : String :=
  "\x7b" ++ Text.commaList items ++ "\x7d"

def method (head : String) (body : Layout) : Layout :=
  line (head ++ " \x7b") ++ indented body ++ line "\x7d" ++ blank

/-- The line that names the states in which a member must not be used, if there are any.
-/
def deniedStates (c : SourceContext) (key : MemberKey) : Layout :=
  match c.iface.deniedStates key with
  | [] => []
  | denied =>
    line ("@StateMachine(deniedStates = " ++
      inBraces (denied.map ("DeviceState." ++ ·)) ++ ")")

def propertyAccess (kind : MemberKind) (p : Property) : Layout :=
  let field := fieldName p.name
  let type := typeName p.dataType
  let arguments :=
    [s!"name = {Text.literal p.name}",
      s!"description = {Text.literal p.description}"] ++
      (if p.defaultValues.isEmpty then []
        else ["defaultValue = " ++ inBraces (p.defaultValues.map Text.literal)]) ++
      if p.mandatory then ["isMandatory = true"] else []
  let mark := if kind = .classProperty then "@ClassProperty" else "@DeviceProperty"
  line s!"{mark}({Text.commaList arguments})" ++
    line s!"private {type} {field};" ++
    method s!"public void set{accessorName p.name}(final {type} {field})"
      (line s!"this.{field} = {field};")

def attributeArguments (a : Attribute) : List String :=
  [s!"name = {Text.literal a.name}"] ++
    (if a.memorized then ["isMemorized = true"] else []) ++
    (a.pollingPeriod.toList.map fun period => s!"pollingPeriod = {period.toNat}") ++
    (if a.format.dimensions > 0 then [s!"maxDimX = {a.maxX.toNat}"] else []) ++
    if a.format.dimensions > 1 then [s!"maxDimY = {a.maxY.toNat}"] else []

def attributeProperties (a : Attribute) : Layout :=
  if a.description.isEmpty ∧ a.dataType ≠ .enum then []
  else
    let arguments := [s!"description = {Text.literal a.description}"] ++
      if a.dataType = .enum then
        ["enumLabels = " ++ inBraces (a.enumLabels.map Text.literal)]
      else []
    line s!"@AttributeProperties({Text.commaList arguments})"

def attributeAccess (c : SourceContext) (a : Attribute) : Layout :=
  let type := valueType a.dataType a.format.dimensions
  let field := fieldName a.name
  let accessor := accessorName a.name
  line s!"@Attribute({Text.commaList (attributeArguments a)})" ++
    attributeProperties a ++
    deniedStates c ⟨.attribute, a.name⟩ ++
    line s!"private {type} {field} = {initialValue a.dataType a.format.dimensions};" ++
    blank ++
    (if a.access.isReadable then
      method s!"public {type} get{accessor}() throws DevFailed"
        (zone (.ofMember .attribute a.name .read) "" ++ line s!"return {field};")
    else []) ++
    if a.access.isWritable then
      method s!"public void set{accessor}(final {type} {field}) throws DevFailed"
        (zone (.ofMember .attribute a.name .write) s!"this.{field} = {field};")
    else []

def pipeAccess (c : SourceContext) (p : Pipe) : Layout :=
  let field := fieldName p.name
  let accessor := accessorName p.name
  line s!"@Pipe(name = {Text.literal p.name})" ++
    deniedStates c ⟨.pipe, p.name⟩ ++
    line s!"private PipeValue {field};" ++
    blank ++
    method s!"public PipeValue get{accessor}() throws DevFailed"
      (zone (.ofMember .pipe p.name .read) "" ++ line s!"return {field};") ++
    if p.writable then
      method s!"public void set{accessor}(final PipeValue {field}) throws DevFailed"
        (zone (.ofMember .pipe p.name .write) s!"this.{field} = {field};")
    else []

def methodName (cmd : Command) : String :=
  fieldName cmd.name

def commandMethod (c : SourceContext) (cmd : Command) : Layout :=
  let result := cmd.argout.dataType
  let parameters :=
    if cmd.argin.dataType = .void then ""
    else s!"final {typeName cmd.argin.dataType} argin"
  line (s!"@Command(name = {Text.literal cmd.name}, " ++
      s!"inTypeDesc = {Text.literal cmd.argin.description}, " ++
      s!"outTypeDesc = {Text.literal cmd.argout.description})") ++
    lines (cmd.pollingPeriod.toList.map fun period =>
      s!"@Polled(period = {period.toNat})") ++
    deniedStates c ⟨.command, cmd.name⟩ ++
    method s!"public {typeName result} {methodName cmd}({parameters}) throws DevFailed"
      ((if result = .void then []
        else line s!"{typeName result} argout = {initialValue result 0};") ++
        zone (.ofMember .command cmd.name .execute) "" ++
        if result = .void then [] else line "return argout;")

/-- A method of every device, with the mark that makes it one. -/
def lifecycle (role : ClassRole) (mark head body : String) : Layout :=
  line mark ++ method head (zone (.ofClass role) body)

def classMembers (c : SourceContext) : Layout :=
  stacked [
    blank,
    zone (.ofClass .members) "//\tAdd your own data members",
    blank,
    (if c.iface.parent.isNone then
      lines ["@State", "private DevState state = DevState.UNKNOWN;"] ++ blank
    else []),
    forEach (c.iface.properties.filter (·.2.isLocal)) (fun (kind, r) =>
      propertyAccess kind r.member),
    forEach c.iface.attributes.locals (attributeAccess c),
    forEach c.iface.pipes.locals (pipeAccess c),
    forEach c.iface.commands.locals (commandMethod c),
    lifecycle .initDevice "@Init" "public void initDevice() throws DevFailed"
      "//\tInitialize device",
    lifecycle .deleteDevice "@Delete" "public void deleteDevice() throws DevFailed"
      "//\tRelease resources",
    lifecycle .alwaysExecutedHook "@AroundInvoke"
      "public void aroundInvoke(final InvocationContext ctx) throws DevFailed"
      "//\tcode always executed before all requests",
    zone (.ofClass .additionalMethods) "",
    blank,
    line "public static void main(final String[] args) \x7b",
    indented (line s!"ServerManager.getInstance().start(args, {c.name}.class);"),
    line "\x7d"]

def layout (c : SourceContext) (file : String) : Layout :=
  stacked [
    Banner.ofClass c "//" file,
    line s!"package org.tango.{Text.toLowerAscii c.name};",
    blank,
    lines [
      "import fr.esrf.Tango.DevFailed;",
      "import fr.esrf.Tango.DevState;",
      "import org.tango.DeviceState;",
      "import org.tango.server.InvocationContext;",
      "import org.tango.server.ServerManager;",
      "import org.tango.server.annotation.*;",
      "import org.tango.server.pipe.PipeValue;"],
    zone (.ofClass .includes) "",
    blank,
    c.classComment,
    line "@Device",
    line (match c.iface.parent with
      | some parent => s!"public class {c.name} extends {parent} \x7b"
      | none => s!"public class {c.name} \x7b"),
    indented (classMembers c),
    line "\x7d"]

def skeletons (c : SourceContext) : List Skeleton :=
  let file := c.name ++ ".java"
  [c.file file .block (layout c file)]

end DeviceForge.Java
