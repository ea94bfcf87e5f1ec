import DeviceForge.Device.Error
import DeviceForge.Device.StateMachine

/-!
# Device classes

A device class has a body of its own, which declares members and states, and a chain of
ancestors, the direct parent first and the root last. Every ancestor is a complete
class.
-/

namespace DeviceForge

/-- Who makes and uses the devices of a class. -/
structure Identification where
  contact : String := ""
  author : String := ""
  emailDomain : String := ""
  classFamily : String := ""
  siteSpecific : String := ""
  platform : String := ""
  bus : String := ""
  manufacturer : String := ""
  reference : String := ""
  keyWords : List String := []
  deriving DecidableEq, Repr

structure Metadata where
  title : String := ""
  description : String := ""
  copyright : String := ""
  license : License := .gpl
  identification : Identification := {}
  /-- Where the generated sources are kept. -/
  sourcePath : String := ""
  deriving DecidableEq, Repr

/-- The schema revision of a class made by this library. -/
def currentRevision : String :=
  "9.7"

/-- What one class of a chain declares itself. -/
structure ClassBody where
  name : String
  language : Language
  metadata : Metadata := {}
  /-- Absent in a description from before revisions were recorded. -/
  revision : Option String := some currentRevision
  isAbstract : Bool := false
  attributes : List Attribute := []
  commands : List Command := []
  classProperties : List Property := []
  deviceProperties : List Property := []
  pipes : List Pipe := []
  machine : StateMachine := {}
  deriving DecidableEq

/-- A class body and the ancestors of the class, the direct parent first. -/
structure DeviceClass extends ClassBody where
  ancestors : List DeviceClass := []

namespace ClassBody

def names (body : ClassBody) : MemberKind → List String
  | .attribute => body.attributes.map Declaration.name
  | .command => body.commands.map Declaration.name
  | .classProperty => body.classProperties.map Declaration.name
  | .deviceProperty => body.deviceProperties.map Declaration.name
  | .pipe => body.pipes.map Declaration.name

def hasMember (body : ClassBody) (key : MemberKey) : Bool :=
  (body.names key.kind).contains key.name

def member? (body : ClassBody) (key : MemberKey) : Option Member :=
  match key.kind with
  | .attribute => (body.attributes.find? (·.name == key.name)).map .attribute
  | .command => (body.commands.find? (·.name == key.name)).map .command
  | _ => none

def mapMembers (kind : MemberKind) (f : {α : Type} → [Declaration α] → List α → List α)
    (body : ClassBody) : ClassBody :=
  match kind with
  | .attribute => { body with attributes := f body.attributes }
  | .command => { body with commands := f body.commands }
  | .classProperty => { body with classProperties := f body.classProperties }
  | .deviceProperty => { body with deviceProperties := f body.deviceProperties }
  | .pipe => { body with pipes := f body.pipes }

def append (body : ClassBody) : Member → ClassBody
  | .attribute a => { body with attributes := body.attributes ++ [a] }
  | .command c => { body with commands := body.commands ++ [c] }
  | .classProperty p => { body with classProperties := body.classProperties ++ [p] }
  | .deviceProperty p => { body with deviceProperties := body.deviceProperties ++ [p] }
  | .pipe p => { body with pipes := body.pipes ++ [p] }

def unconstrained (body : ClassBody) : ClassBody :=
  { body with machine := { body.machine with allowed := .empty } }

/-- Whether two bodies are equal. The order of constraints does not count. -/
def same (body other : ClassBody) : Bool :=
  body.unconstrained == other.unconstrained &&
    body.machine.allowed.sameEntries other.machine.allowed

end ClassBody

namespace DeviceClass

def ofText (text : String) (language : Language) : Except ModelError DeviceClass :=
  (Name.ofText text).map fun name => { name, language }

def parent? (cls : DeviceClass) : Option DeviceClass :=
  cls.ancestors.head?

/-- The class and its ancestors, the class first and the root last. -/
def chain (cls : DeviceClass) : List DeviceClass :=
  cls :: cls.ancestors

/-- The bodies along the chain, the root first and the class last. -/
def levels (cls : DeviceClass) : List ClassBody :=
  cls.ancestors.reverse.map toClassBody ++ [cls.toClassBody]

mutual

/-- Whether two classes are equal, with all that their ancestors hold. -/
def same : DeviceClass → DeviceClass → Bool
  | ⟨body, ancestors⟩, ⟨body', ancestors'⟩ =>
    body.same body' && sameAll ancestors ancestors'

def sameAll : List DeviceClass → List DeviceClass → Bool
  | [], [] => true
  | cls :: rest, cls' :: rest' => same cls cls' && sameAll rest rest'
  | _, _ => false

end

end DeviceClass

end DeviceForge
