import DeviceForge.Device.Language
import DeviceForge.Device.Member
import DeviceForge.Name

/-!
# Errors in a device model

Each error is a cause with the names that it is about. The wording is in
`ModelError.message`.
-/

namespace DeviceForge

inductive ModelError where
  /-- An ancestor, or a class of a server, is generated in another language. -/
  | languageMismatch (owner other : String) (expected found : Language)
  /-- A class holds two members of one kind and name. -/
  | duplicateLocalMember (owner : String) (key : MemberKey)
  /-- An edit would make a second member of that kind and name. -/
  | duplicateMember (key : MemberKey)
  | duplicateState (name : String)
  | duplicateClass (server name : String)
  | unknownMember (key : MemberKey)
  | invalidName (name : String) (fault : NameFault)
  /-- An ancestor would put a name into the chain a second time. -/
  | inheritanceCycle (owner ancestor : String)
  deriving DecidableEq

def ModelError.message : ModelError → String
  | .languageMismatch owner other expected found =>
    s!"{owner} inherits from {other}: " ++
      s!"it must be generated in {expected.label}, not {found.label}"
  | .duplicateLocalMember owner key =>
    s!"{owner} declares {memberText key.kind key.name} more than once"
  | .duplicateMember key => s!"{memberText key.kind key.name} already exists"
  | .duplicateState name => s!"state '{name}' already exists"
  | .duplicateClass server name => s!"{server} already contains class {name}"
  | .unknownMember key => s!"no {key.kind.label} named '{key.name}'"
  | .invalidName name fault => s!"invalid name '{name}': {fault.message}"
  | .inheritanceCycle owner ancestor =>
    s!"{owner} cannot inherit from {ancestor}: inheritance cycle"

namespace Name

def check (name : String) : Except ModelError Unit :=
  match fault? name with
  | none => .ok ()
  | some fault => .error (.invalidName name fault)

def ofText (text : String) : Except ModelError String :=
  (check (join text)).map fun _ => join text

end Name

end DeviceForge
