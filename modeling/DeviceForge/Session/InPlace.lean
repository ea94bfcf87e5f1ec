import DeviceForge.Session

/-!
# Sessions in place

The calls of a session change one class and one record where they stand, and one part
after another: the members of a kind, then the constraints on them, then the record.
Nothing takes a change back by itself. A call that stops with an error leaves whatever
it has changed up to there, and a generation that stops has read some of the earlier
files.
-/

namespace DeviceForge

/-- A session that is changed where it stands, and the earlier files that its
generations have asked for. -/
structure Workplace extends Session where
  filesRead : List String := []

/-- What is done to a workplace. Where it stops with an error, it leaves what it has
done. -/
abbrev InPlace (ε : Type) :=
  EStateM ε Workplace

namespace InPlace

variable {ε : Type}

def cls : InPlace ε DeviceClass :=
  return (← get).cls

def changeClass (f : DeviceClass → DeviceClass) : InPlace ε Unit :=
  modify fun w => { w with cls := f w.cls }

def changeBody (f : ClassBody → ClassBody) : InPlace ε Unit :=
  changeClass fun cls => { cls with toClassBody := f cls.toClassBody }

/-- Notes for the next generation what became of a member. -/
def note (f : Renames → Renames) : InPlace ε Unit :=
  modify fun w => { w with renames := f w.renames }

def addMember (member : Member) : InPlace ModelError Unit := do
  MonadExcept.ofExcept (Name.check member.name)
  if (← cls).hasMember ⟨member.kind, member.name⟩ then
    throw (.duplicateMember ⟨member.kind, member.name⟩)
  else changeBody (·.append member)

def add (member : Member) : InPlace ModelError Unit := do
  addMember member
  note (·.add ⟨member.kind, member.name⟩)

def removeMember (key : MemberKey) : InPlace ModelError Unit := do
  if (← cls).hasMember key then
    changeBody (·.mapMembers key.kind (removeFirst key.name))
    changeBody fun body => { body with machine := body.machine.clearAllowed key }
  else throw (.unknownMember key)

def remove (key : MemberKey) : InPlace ModelError Unit := do
  removeMember key
  note (·.delete key)

def renameMember (kind : MemberKind) (old new : String) : InPlace ModelError Unit := do
  MonadExcept.ofExcept (Name.check new)
  if !(← cls).hasMember ⟨kind, old⟩ then throw (.unknownMember ⟨kind, old⟩)
  else if old = new then return
  else if (← cls).hasMember ⟨kind, new⟩ then throw (.duplicateMember ⟨kind, new⟩)
  else
    changeBody (·.mapMembers kind (renameFirst old new))
    changeBody fun body =>
      { body with machine := body.machine.renameMember kind old new }

def rename (kind : MemberKind) (old new : String) : InPlace ModelError Unit := do
  renameMember kind old new
  note (·.rename kind old new)

def setLanguage (language : Language) : InPlace ModelError Unit := do
  let current ← cls
  match current.parent? with
  | some parent =>
    if parent.language ≠ language then
      throw (.languageMismatch current.name parent.name parent.language language)
  | none => pure ()
  changeClass ({ · with language })

/-- Whether the chain of the class as it stands can be continued. -/
def checkChain (incoming : List DeviceClass) : InPlace ModelError Unit := do
  let current ← cls
  MonadExcept.ofExcept <| DeviceClass.checkChain current.name current.language
    (current.name :: current.ancestors.map (·.name)) incoming

def addAncestor (ancestor : DeviceClass) : InPlace ModelError Unit := do
  checkChain ancestor.chain
  changeClass fun cls => { cls with ancestors := cls.ancestors ++ ancestor.chain }

/-- Takes the chain away, so that the new one is checked without it, and puts it back if
the new one is refused. -/
def inheritFrom (parent : DeviceClass) : InPlace ModelError Unit := do
  let saved := (← cls).ancestors
  changeClass ({ · with ancestors := [] })
  try checkChain parent.chain
  catch error =>
    changeClass ({ · with ancestors := saved })
    throw error
  changeClass ({ · with ancestors := parent.chain })

def readPrior (prior : PriorSource) (file : String) :
    InPlace GenerationError (Option String) := do
  modify fun w => { w with filesRead := w.filesRead ++ [file] }
  match prior file with
  | .absent => return none
  | .text content => return some content
  | .unreadable => throw (.unreadable file)

def readPriors (prior : PriorSource) :
    List Skeleton → InPlace GenerationError (List (Skeleton × Option String))
  | [] => return []
  | skeleton :: rest => do
    let content ← readPrior prior skeleton.file
    return (skeleton, content) :: (← readPriors prior rest)

/-- Generates the class, and forgets what was pending once all files are merged. -/
def generate (settings : Settings) (prior : PriorSource) :
    InPlace GenerationError Output := do
  let (files, warnings) ← MonadExcept.ofExcept (skeletons settings (← cls))
  let priors ← readPriors prior files
  let output := outputOf warnings (mergeAll (← get).renames priors)
  note fun _ => {}
  return output

end InPlace

/-- What a session can be called to do. -/
inductive Call where
  | add (member : Member)
  | rename (kind : MemberKind) (old new : String)
  | remove (key : MemberKey)
  | addAncestor (ancestor : DeviceClass)
  | inheritFrom (parent : DeviceClass)
  | setLanguage (language : Language)
  | generate (settings : Settings) (prior : PriorSource)

/-- What a call returns. Only generations return files. -/
abbrev Reply :=
  Except GenerationError (Option Output)

namespace Call

def edit (change : InPlace ModelError Unit) :
    InPlace GenerationError (Option Output) := do
  EStateM.adaptExcept .model change
  return none

def inPlace : Call → InPlace GenerationError (Option Output)
  | .add member => edit (InPlace.add member)
  | .rename kind old new => edit (InPlace.rename kind old new)
  | .remove key => edit (InPlace.remove key)
  | .addAncestor ancestor => edit (InPlace.addAncestor ancestor)
  | .inheritFrom parent => edit (InPlace.inheritFrom parent)
  | .setLanguage language => edit (InPlace.setLanguage language)
  | .generate settings prior => some <$> InPlace.generate settings prior

/-- What a call returns, and the workplace that it leaves. -/
def perform (call : Call) (w : Workplace) : Reply × Workplace :=
  match call.inPlace.run w with
  | .ok files w' => (.ok files, w')
  | .error error w' => (.error error, w')

end Call

namespace Workplace

/-- The workplace after some calls, whatever they returned. -/
def after (w : Workplace) : List Call → Workplace
  | [] => w
  | call :: rest => (call.perform w).2.after rest

/-- Some calls, each with what it returned. -/
def transcript (w : Workplace) : List Call → List (Call × Reply)
  | [] => []
  | call :: rest => (call, (call.perform w).1) :: (call.perform w).2.transcript rest

end Workplace

end DeviceForge
