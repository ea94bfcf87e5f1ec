import DeviceForge.Device.Class
import DeviceForge.Warning

/-!
# The effective interface of a class

What the class offers together with all it inherits: members with the level that each
comes from, states, and constraints that speak of these members and states only.
-/

namespace DeviceForge

/-- A member in effect. -/
structure Resolved (α : Type) where
  member : α
  /-- The class whose declaration is in effect. -/
  origin : String
  /-- Whether that class is an ancestor. -/
  inherited : Bool
  /-- The ancestor whose declaration is hidden by this one. -/
  overrides : Option String
  deriving DecidableEq, Repr

def Resolved.isLocal {α : Type} (r : Resolved α) : Bool :=
  !r.inherited

abbrev MemberMap (α : Type) :=
  OrderedMap String (Resolved α)

/-- The members that the class itself declares. -/
def MemberMap.locals {α : Type} (m : MemberMap α) : List α :=
  (m.values.filter (·.isLocal)).map (·.member)

/-- The ancestor that a member comes from, if it is inherited. -/
def MemberMap.ancestorOf? {α : Type} (m : MemberMap α) (name : String) :
    Option String :=
  (m.get? name).bind fun r => if r.inherited then some r.origin else none

structure Interface where
  name : String
  language : Language
  parent : Option String
  /-- The names of the ancestors, the root first. -/
  lineage : List String
  attributes : MemberMap Attribute
  commands : MemberMap Command
  classProperties : MemberMap Property
  deviceProperties : MemberMap Property
  pipes : MemberMap Pipe
  states : OrderedMap String State
  allowed : OrderedMap MemberKey (List String)

/-- What a resolution has to report. -/
inductive InterfaceIssue where
  /-- A declaration that is marked as an override hides the one of `ancestor`. -/
  | overridden (key : MemberKey) (ancestor owner : String)
  /-- A declaration without that mark hides the one of `ancestor`. -/
  | redeclared (key : MemberKey) (ancestor owner : String)
  /-- The constrained member is not in the interface. -/
  | unknownMember (key : MemberKey)
  /-- A constraint names a state that is not in the interface. -/
  | unknownState (key : MemberKey) (state owner : String)
  deriving DecidableEq, Repr

namespace InterfaceIssue

def kind : InterfaceIssue → WarningKind
  | .overridden .. => .hiddenByOverride
  | .redeclared .. => .implicitOverride
  | .unknownMember .. | .unknownState .. => .staleStateConstraint

def message : InterfaceIssue → String
  | .overridden key ancestor owner =>
    s!"{memberText key.kind key.name} of {ancestor} is overridden by {owner}"
  | .redeclared key ancestor owner =>
    s!"{memberText key.kind key.name} of {ancestor} is redeclared " ++
      s!"without override marker by {owner}"
  | .unknownMember key =>
    s!"state constraint on unknown {memberText key.kind key.name} ignored"
  | .unknownState key state owner =>
    s!"{memberText key.kind key.name} refers to state {state} " ++
      s!"which is not declared in {owner}"

def toWarning (issue : InterfaceIssue) : Warning :=
  { kind := issue.kind, message := issue.message }

end InterfaceIssue

namespace Interface

def names (i : Interface) : MemberKind → List String
  | .attribute => i.attributes.keys
  | .command => i.commands.keys
  | .classProperty => i.classProperties.keys
  | .deviceProperty => i.deviceProperties.keys
  | .pipe => i.pipes.keys

def hasMember (i : Interface) (key : MemberKey) : Bool :=
  (i.names key.kind).contains key.name

/-- The states in which a member may be used, unless it is unconstrained. -/
def allowedStates? (i : Interface) (key : MemberKey) : Option (List String) :=
  i.allowed.get? key

/-- The states in which a member must not be used, in the order of the states. -/
def deniedStates (i : Interface) (key : MemberKey) : List String :=
  match i.allowedStates? key with
  | none => []
  | some names => i.states.keys.filter (· ∉ names)

/-- All properties with their kinds, those of the class first. -/
def properties (i : Interface) : List (MemberKind × Resolved Property) :=
  i.classProperties.values.map (.classProperty, ·) ++
    i.deviceProperties.values.map (.deviceProperty, ·)

/-- The ancestor that a member comes from, if it is inherited. -/
def inheritedFrom? (i : Interface) (key : MemberKey) : Option String :=
  match key.kind with
  | .attribute => i.attributes.ancestorOf? key.name
  | .command => i.commands.ancestorOf? key.name
  | .classProperty => i.classProperties.ancestorOf? key.name
  | .deviceProperty => i.deviceProperties.ancestorOf? key.name
  | .pipe => i.pipes.ancestorOf? key.name

end Interface

end DeviceForge
