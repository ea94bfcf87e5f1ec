import DeviceForge.Source.Context

/-!
# The summary of an interface

Generated documentation lists all members in effect, kind by kind, with their shape and
with the ancestor that an inherited one comes from.
-/

namespace DeviceForge

/-- `DevDouble SPECTRUM READ_WRITE (max 16)`. -/
def Attribute.shape (a : Attribute) : String :=
  s!"{a.dataType.label} {a.format.label} {a.access.label}" ++
    match a.format with
    | .scalar => ""
    | .spectrum => s!" (max {a.maxX.toNat})"
    | .image => s!" (max {a.maxX.toNat}x{a.maxY.toNat})"

/-- `DevDouble -> DevVoid`. -/
def Command.shape (c : Command) : String :=
  s!"{c.argin.dataType.label} -> {c.argout.dataType.label}"

namespace Interface

def heading : MemberKind → String
  | .attribute => "Attribute list:"
  | .command => "Command list:"
  | .classProperty => "Class property list:"
  | .deviceProperty => "Device property list:"
  | .pipe => "Pipe list:"

/-- The shape of a member, empty for the kinds that have none. -/
def shapeOf (i : Interface) (key : MemberKey) : String :=
  match key.kind with
  | .attribute => ((i.attributes.get? key.name).map (·.member.shape)).getD ""
  | .command => ((i.commands.get? key.name).map (·.member.shape)).getD ""
  | _ => ""

def summaryLine (i : Interface) (key : MemberKey) : String :=
  let shape := i.shapeOf key
  let detail := if shape.isEmpty then "" else "  " ++ shape
  let origin := match i.inheritedFrom? key with
    | none => ""
    | some ancestor => s!"  (inherited from {ancestor})"
  "  " ++ key.name ++ detail ++ origin

/-- One line for every member, under a heading for each kind that has members. -/
def summary (i : Interface) : List String :=
  MemberKind.all.flatMap fun kind =>
    match i.names kind with
    | [] => []
    | names => heading kind :: names.map fun name => i.summaryLine ⟨kind, name⟩

end Interface

/-- The documentation of the class in a block comment, with the summary of its
interface. -/
def SourceContext.classComment (c : SourceContext) : Layout :=
  .lines ["/**", s!" *  {c.name} class description:"] ++
    .lines (c.description.map fun text =>
      Text.trimEnd (" *    " ++ Text.escapeComment text)) ++
    .line " *" ++
    .lines (c.iface.summary.map (" *  " ++ ·)) ++
    .line " */"

end DeviceForge
