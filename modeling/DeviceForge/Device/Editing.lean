import DeviceForge.Device.Class

/-!
# Checked editing

An edit checks first and changes afterwards, so a refused edit leaves no trace: it has
no new class to return. The checks keep names valid and unique for each kind,
constraints on members of the class itself, one language along the chain, and every name
at most once in the chain.
-/

namespace DeviceForge

def removeFirst {α : Type} [Declaration α] (name : String) (members : List α) :
    List α :=
  members.eraseP (Declaration.name · == name)

def renameFirst {α : Type} [Declaration α] (old new : String) : List α → List α
  | [] => []
  | m :: rest =>
    if Declaration.name m = old then Declaration.withName m new :: rest
    else m :: renameFirst old new rest

namespace ClassBody

/-- Adds a member under a valid name that is new for its kind. -/
def add (body : ClassBody) (member : Member) : Except ModelError ClassBody := do
  Name.check member.name
  if body.hasMember ⟨member.kind, member.name⟩ then
    throw (.duplicateMember ⟨member.kind, member.name⟩)
  return body.append member

def remove (body : ClassBody) (key : MemberKey) : Except ModelError ClassBody :=
  if body.hasMember key then
    .ok { body.mapMembers key.kind (removeFirst key.name) with
      machine := body.machine.clearAllowed key }
  else .error (.unknownMember key)

def rename (body : ClassBody) (kind : MemberKind) (old new : String) :
    Except ModelError ClassBody := do
  Name.check new
  if !body.hasMember ⟨kind, old⟩ then throw (.unknownMember ⟨kind, old⟩)
  if old = new then return body
  if body.hasMember ⟨kind, new⟩ then throw (.duplicateMember ⟨kind, new⟩)
  return { body.mapMembers kind (renameFirst old new) with
    machine := body.machine.renameMember kind old new }

def addState (body : ClassBody) (state : State) : Except ModelError ClassBody := do
  Name.check state.name
  match body.machine.addState? state with
  | some machine => return { body with machine }
  | none => throw (.duplicateState state.name)

def setAllowedStates (body : ClassBody) (key : MemberKey) (names : List String) :
    Except ModelError ClassBody :=
  if body.hasMember key then
    .ok { body with machine := body.machine.setAllowed key names }
  else .error (.unknownMember key)

end ClassBody

namespace DeviceClass

def editBody (cls : DeviceClass) (f : ClassBody → Except ModelError ClassBody) :
    Except ModelError DeviceClass :=
  (f cls.toClassBody).map fun body => { cls with toClassBody := body }

def add (cls : DeviceClass) (member : Member) : Except ModelError DeviceClass :=
  cls.editBody (·.add member)

def remove (cls : DeviceClass) (key : MemberKey) : Except ModelError DeviceClass :=
  cls.editBody (·.remove key)

def rename (cls : DeviceClass) (kind : MemberKind) (old new : String) :
    Except ModelError DeviceClass :=
  cls.editBody (·.rename kind old new)

def addState (cls : DeviceClass) (state : State) : Except ModelError DeviceClass :=
  cls.editBody (·.addState state)

def setAllowedStates (cls : DeviceClass) (key : MemberKey) (names : List String) :
    Except ModelError DeviceClass :=
  cls.editBody (·.setAllowedStates key names)

/-- Takes a state away from the state machine. A name that is not declared changes
nothing. -/
def removeState (cls : DeviceClass) (name : String) : DeviceClass :=
  { cls with machine := cls.machine.removeState name }

def setName (cls : DeviceClass) (text : String) : Except ModelError DeviceClass :=
  (Name.ofText text).map fun name => { cls with name }

/-- Changes the language. A derived class keeps the language of its parent. -/
def setLanguage (cls : DeviceClass) (language : Language) :
    Except ModelError DeviceClass :=
  match cls.parent? with
  | some parent =>
    if parent.language ≠ language then
      .error (.languageMismatch cls.name parent.name parent.language language)
    else .ok { cls with language }
  | none => .ok { cls with language }

/-- Whether ancestors may join a chain: each has the language of the class, and a name
that is neither the name of the class nor in the chain. -/
def checkChain (name : String) (language : Language) :
    List String → List DeviceClass → Except ModelError Unit
  | _, [] => .ok ()
  | seen, ancestor :: rest =>
    if ancestor.language ≠ language then
      .error (.languageMismatch name ancestor.name language ancestor.language)
    else if ancestor.name ∈ seen then .error (.inheritanceCycle name ancestor.name)
    else checkChain name language (ancestor.name :: seen) rest

/-- Puts a class and its ancestors at the root end of the chain. -/
def addAncestor (cls ancestor : DeviceClass) : Except ModelError DeviceClass :=
  (checkChain cls.name cls.language (cls.name :: cls.ancestors.map (·.name))
    ancestor.chain).map
    fun _ => { cls with ancestors := cls.ancestors ++ ancestor.chain }

/-- Replaces the chain by a parent and its ancestors. -/
def inheritFrom (cls parent : DeviceClass) : Except ModelError DeviceClass :=
  (checkChain cls.name cls.language [cls.name] parent.chain).map
    fun _ => { cls with ancestors := parent.chain }

end DeviceClass

end DeviceForge
