import DeviceForge.Interface.Basic

/-!
# What a language can express

An interface is checked before anything is emitted. Attributes come before properties,
each in effective order, and the first member that cannot be expressed is the error.
-/

namespace DeviceForge

inductive Obstacle where
  | attributeType (type : DataType)
  | propertyType (type : DataType)
  /-- An enumerated attribute names no values. -/
  | noLabels
  /-- Arrays of enumerated values exist in C++ only. -/
  | enumArray (format : Format)
  | encodedArray
  /-- The value buffer would be too large. -/
  | tooLarge (maxX maxY : UInt32)
  deriving DecidableEq

/-- The most values that the buffer of an attribute may hold. -/
def maxElements : UInt64 :=
  2147483647

def Obstacle.message : Obstacle → String
  | .attributeType type => s!"{type.label} cannot be an attribute type"
  | .propertyType type => s!"{type.label} cannot be a property type"
  | .noLabels => "enumerated attribute declares no labels"
  | .enumArray format => s!"{format.label} enumerations are only generated for Cpp"
  | .encodedArray => "encoded attributes must be scalar"
  | .tooLarge maxX maxY =>
    s!"{maxX.toNat}x{maxY.toNat} elements exceed the limit of {maxElements.toNat}"

structure Unsupported where
  language : Language
  key : MemberKey
  obstacle : Obstacle
  deriving DecidableEq

def Unsupported.message (u : Unsupported) : String :=
  s!"{u.language.label}: {memberText u.key.kind u.key.name} is not supported: " ++
    u.obstacle.message

/-- What keeps an attribute from being expressed. -/
def Attribute.obstacle? (a : Attribute) (language : Language) : Option Obstacle :=
  if !a.dataType.isAttributeType then some (.attributeType a.dataType)
  else if a.dataType = .enum ∧ a.enumLabels.isEmpty then some .noLabels
  else if a.dataType = .enum ∧ a.format ≠ .scalar ∧ language ≠ .cpp then
    some (.enumArray a.format)
  else if a.dataType = .encoded ∧ a.format ≠ .scalar then some .encodedArray
  else if a.elementCount > maxElements then some (.tooLarge a.maxX a.maxY)
  else none

def Property.obstacle? (p : Property) : Option Obstacle :=
  if p.dataType.isPropertyType then none else some (.propertyType p.dataType)

/-- The first member of an interface that a language cannot express. -/
def Interface.unsupported? (i : Interface) (language : Language) : Option Unsupported :=
  let attribute? := i.attributes.values.findSome? fun r =>
    (r.member.obstacle? language).map (⟨language, ⟨.attribute, r.member.name⟩, ·⟩)
  let property? := i.properties.findSome? fun (kind, r) =>
    r.member.obstacle?.map (⟨language, ⟨kind, r.member.name⟩, ·⟩)
  attribute?.or property?

end DeviceForge
