import DeviceForge.Device.Member
import DeviceForge.Text.Cut

/-!
# Zone ids

A zone is a stretch of a generated file that belongs to its developer. Its id says what
the zone is for, by names and roles and never by position, so it stays the same when
other members come and go. An id read from a file may be any text; a member-level id has
the form `kind:name:role`.
-/

namespace DeviceForge

inductive ClassRole where
  | includes
  | members
  | initDevice
  | deleteDevice
  | alwaysExecutedHook
  | additionalMethods
  deriving DecidableEq, Repr

namespace ClassRole

def all : List ClassRole :=
  [.includes, .members, .initDevice, .deleteDevice, .alwaysExecutedHook,
    .additionalMethods]

def tag : ClassRole → String
  | .includes => "includes"
  | .members => "members"
  | .initDevice => "init-device"
  | .deleteDevice => "delete-device"
  | .alwaysExecutedHook => "always-executed-hook"
  | .additionalMethods => "additional-methods"

end ClassRole

inductive MemberRole where
  | read
  | write
  | execute
  | isAllowed
  deriving DecidableEq, Repr

namespace MemberRole

def all : List MemberRole :=
  [.read, .write, .execute, .isAllowed]

def tag : MemberRole → String
  | .read => "read-implementation"
  | .write => "write-implementation"
  | .execute => "execute-implementation"
  | .isAllowed => "is-allowed"

end MemberRole

/-- What a zone in the entry point of a server is for. -/
inductive ServerRole where
  | includes
  | additionalClasses
  deriving DecidableEq, Repr

namespace ServerRole

def all : List ServerRole :=
  [.includes, .additionalClasses]

def tag : ServerRole → String
  | .includes => "includes"
  | .additionalClasses => "additional-classes"

end ServerRole

/-- The name of a zone. Ids are compared character by character. -/
structure ZoneId where
  text : String
  deriving DecidableEq, Repr

/-- The parts of a member-level id. -/
structure MemberSlot where
  kind : MemberKind
  name : String
  role : String
  deriving DecidableEq, Repr

namespace ZoneId

def ofClass (role : ClassRole) : ZoneId :=
  ⟨"class:" ++ role.tag⟩

def ofServer (role : ServerRole) : ZoneId :=
  ⟨"server:" ++ role.tag⟩

def ofSlot (slot : MemberSlot) : ZoneId :=
  ⟨slot.kind.tag ++ ":" ++ slot.name ++ ":" ++ slot.role⟩

def ofMember (kind : MemberKind) (name : String) (role : MemberRole) : ZoneId :=
  ofSlot ⟨kind, name, role.tag⟩

/-- The parts of a member-level id: a kind, a name and a role, neither of the last two
empty. Only the role may hold a colon. -/
def slot? (id : ZoneId) : Option MemberSlot := do
  let (tag, rest) ← Text.cut? ':' id.text.toList
  let (name, role) ← Text.cut? ':' rest
  let kind ← MemberKind.ofTag? (String.ofList tag)
  if name.isEmpty || role.isEmpty then none
  else some ⟨kind, String.ofList name, String.ofList role⟩

/-- The same slot of a member that has another name now. -/
def withMemberName? (id : ZoneId) (name : String) : Option ZoneId :=
  id.slot?.map fun slot => ofSlot { slot with name }

end ZoneId

end DeviceForge
