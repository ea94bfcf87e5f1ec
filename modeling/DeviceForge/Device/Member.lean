import DeviceForge.Device.DataType

/-!
# Members of a device class

Attributes, commands, properties and pipes. A name is unique among the members of one
kind, so kind and name together identify a member.
-/

namespace DeviceForge

inductive MemberKind where
  | attribute
  | command
  | classProperty
  | deviceProperty
  | pipe
  deriving DecidableEq, Repr

namespace MemberKind

/-- The kinds in the order in which generated code lists them. -/
def all : List MemberKind :=
  [.classProperty, .deviceProperty, .command, .attribute, .pipe]

def tag : MemberKind → String
  | .attribute => "attribute"
  | .command => "command"
  | .classProperty => "class-property"
  | .deviceProperty => "device-property"
  | .pipe => "pipe"

def ofTag? (text : String) : Option MemberKind :=
  all.find? (·.tag == text)

def label : MemberKind → String
  | .attribute => "attribute"
  | .command => "command"
  | .classProperty => "class property"
  | .deviceProperty => "device property"
  | .pipe => "pipe"

end MemberKind

/-- A member named in a message: `attribute 'Position'`. -/
def memberText (kind : MemberKind) (name : String) : String :=
  s!"{kind.label} '{name}'"

structure MemberKey where
  kind : MemberKind
  name : String
  deriving DecidableEq, Repr

/-- The dimensions of an attribute value. -/
inductive Format where
  | scalar
  | spectrum
  | image
  deriving DecidableEq, Repr

namespace Format

def all : List Format :=
  [.scalar, .spectrum, .image]

def label : Format → String
  | .scalar => "SCALAR"
  | .spectrum => "SPECTRUM"
  | .image => "IMAGE"

def ofLabel? (text : String) : Option Format :=
  all.find? fun f => Text.sameIgnoringCase f.label (Text.trim text)

/-- How many times a value is indexed. -/
def dimensions : Format → Nat
  | .scalar => 0
  | .spectrum => 1
  | .image => 2

end Format

/-- How the value of an attribute can be accessed. -/
inductive Access where
  | read
  | write
  | readWrite
  | readWithWrite
  deriving DecidableEq, Repr

namespace Access

def all : List Access :=
  [.read, .write, .readWrite, .readWithWrite]

def label : Access → String
  | .read => "READ"
  | .write => "WRITE"
  | .readWrite => "READ_WRITE"
  | .readWithWrite => "READ_WITH_WRITE"

def ofLabel? (text : String) : Option Access :=
  all.find? fun a => Text.sameIgnoringCase a.label (Text.trim text)

def isReadable : Access → Bool
  | .write => false
  | _ => true

/-- Whether writing is implemented by hand. The companion of a read-with-write attribute
is another attribute, so this one is not written. -/
def isWritable : Access → Bool
  | .write | .readWrite => true
  | _ => false

end Access

structure Attribute where
  name : String
  dataType : DataType := .double
  format : Format := .scalar
  access : Access := .read
  maxX : UInt32 := 1
  maxY : UInt32 := 0
  description : String := ""
  /-- The names of the values of an enumerated attribute. -/
  enumLabels : List String := []
  memorized : Bool := false
  /-- In milliseconds. -/
  pollingPeriod : Option UInt32 := none
  isOverride : Bool := false
  deriving DecidableEq, Repr

/-- The number of places for the values of an attribute. A dimension that is given as
zero has one place. The product of two 32-bit numbers fits 64 bits. -/
def Attribute.elementCount (a : Attribute) : UInt64 :=
  let x := (max a.maxX 1).toUInt64
  match a.format with
  | .scalar => 1
  | .spectrum => x
  | .image => x * (max a.maxY 1).toUInt64

structure Argument where
  dataType : DataType := .void
  description : String := "none"
  deriving DecidableEq, Repr

structure Command where
  name : String
  argin : Argument := {}
  argout : Argument := {}
  description : String := ""
  /-- In milliseconds. -/
  pollingPeriod : Option UInt32 := none
  isOverride : Bool := false
  deriving DecidableEq, Repr

structure Property where
  name : String
  dataType : DataType
  description : String := ""
  defaultValues : List String := []
  mandatory : Bool := false
  isOverride : Bool := false
  deriving DecidableEq, Repr

structure Pipe where
  name : String
  description : String := ""
  writable : Bool := false
  isOverride : Bool := false
  deriving DecidableEq, Repr

/-- What all types of members share. -/
class Declaration (α : Type) where
  name : α → String
  withName : α → String → α
  /-- Whether the author marked the member as overriding an inherited one. -/
  isOverride : α → Bool

instance : Declaration Attribute :=
  ⟨(·.name), fun a n => { a with name := n }, (·.isOverride)⟩

instance : Declaration Command :=
  ⟨(·.name), fun c n => { c with name := n }, (·.isOverride)⟩

instance : Declaration Property :=
  ⟨(·.name), fun p n => { p with name := n }, (·.isOverride)⟩

instance : Declaration Pipe :=
  ⟨(·.name), fun p n => { p with name := n }, (·.isOverride)⟩

inductive Member where
  | attribute (a : Attribute)
  | command (c : Command)
  | classProperty (p : Property)
  | deviceProperty (p : Property)
  | pipe (p : Pipe)
  deriving DecidableEq, Repr

namespace Member

def kind : Member → MemberKind
  | .attribute _ => .attribute
  | .command _ => .command
  | .classProperty _ => .classProperty
  | .deviceProperty _ => .deviceProperty
  | .pipe _ => .pipe

def name : Member → String
  | .attribute a => a.name
  | .command c => c.name
  | .classProperty p | .deviceProperty p => p.name
  | .pipe p => p.name

end Member

end DeviceForge
