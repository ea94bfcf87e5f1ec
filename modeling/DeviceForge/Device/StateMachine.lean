import DeviceForge.Device.Member
import DeviceForge.OrderedMap

/-!
# States and state constraints

A state machine declares states and gives, for some members, the states in which they
may be used. A member without a constraint may be used in every state.
-/

namespace DeviceForge

structure State where
  name : String
  description : String := ""
  deriving DecidableEq, Repr

structure StateMachine where
  states : List State := []
  /-- The states in which a member may be used. -/
  allowed : OrderedMap MemberKey (List String) := .empty
  deriving DecidableEq

namespace StateMachine

def hasState (m : StateMachine) (name : String) : Bool :=
  m.states.any (·.name == name)

def addState? (m : StateMachine) (state : State) : Option StateMachine :=
  if m.hasState state.name then none
  else some { m with states := m.states ++ [state] }

/-- Takes a declared state away, and its name out of every constraint. -/
def removeState (m : StateMachine) (name : String) : StateMachine :=
  if m.hasState name then
    { states := m.states.eraseP (·.name == name)
      allowed := m.allowed.mapValues fun names => names.filter (· ≠ name) }
  else m

def state? (m : StateMachine) (name : String) : Option State :=
  m.states.find? (·.name == name)

def allowedStates? (m : StateMachine) (key : MemberKey) : Option (List String) :=
  m.allowed.get? key

def setAllowed (m : StateMachine) (key : MemberKey) (names : List String) :
    StateMachine :=
  { m with allowed := m.allowed.insert key names }

def clearAllowed (m : StateMachine) (key : MemberKey) : StateMachine :=
  { m with allowed := m.allowed.erase key }

/-- Hands the constraint of a member on to its new name. -/
def renameMember (m : StateMachine) (kind : MemberKind) (old new : String) :
    StateMachine :=
  { m with allowed := m.allowed.renameKey ⟨kind, old⟩ ⟨kind, new⟩ }

end StateMachine

end DeviceForge
