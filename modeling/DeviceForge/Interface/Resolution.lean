import DeviceForge.Interface.Basic

/-!
# Resolving the interface of a class

The levels of the chain are folded from the root to the class. A declaration hides one
of the same kind and name from a level before it and takes its position. States of one
name are one state, which has the first description that is not empty. A constraint
takes the place of an earlier one on the same member; constraints on members or states
that are not in effect are left out in the end.

Resolution fails if an ancestor has another language, or if one level declares a member
twice.
-/

namespace DeviceForge

def DeviceClass.checkLanguages (cls : DeviceClass) : Except ModelError Unit :=
  match cls.ancestors.find? (·.language ≠ cls.language) with
  | some ancestor =>
    .error (.languageMismatch cls.name ancestor.name cls.language ancestor.language)
  | none => .ok ()

/-- The first name that was seen before, in the list or ahead of it. -/
def firstSeen? (seen : List String) : List String → Option String
  | [] => none
  | name :: rest => if name ∈ seen then some name else firstSeen? (name :: seen) rest

/-- The order in which the kinds of one level are checked for repeated names. -/
def repetitionOrder : List MemberKind :=
  [.attribute, .command, .classProperty, .deviceProperty, .pipe]

/-- The first member that a level declares a second time. -/
def ClassBody.repeated? (body : ClassBody) : Option MemberKey :=
  repetitionOrder.findSome? fun kind =>
    (firstSeen? [] (body.names kind)).map (⟨kind, ·⟩)

def checkRepetitions : List ClassBody → Except ModelError Unit
  | [] => .ok ()
  | body :: rest =>
    match body.repeated? with
    | some key => .error (.duplicateLocalMember body.name key)
    | none => checkRepetitions rest

section Members

variable {α : Type} [Declaration α]

/-- Puts a declaration into effect. -/
def declareMember (origin : String) (inherited : Bool) (m : MemberMap α) (member : α) :
    MemberMap α :=
  m.insert (Declaration.name member)
    { member, origin, inherited
      overrides := (m.get? (Declaration.name member)).map (·.origin) }

def declareAll (origin : String) (inherited : Bool) (m : MemberMap α)
    (members : List α) : MemberMap α :=
  members.foldl (declareMember origin inherited) m

def inheritedMembers (members : ClassBody → List α) (ancestors : List ClassBody) :
    MemberMap α :=
  ancestors.foldl (fun m body => declareAll body.name true m (members body)) .empty

def effectiveMembers (members : ClassBody → List α) (ancestors : List ClassBody)
    (body : ClassBody) : MemberMap α :=
  declareAll body.name false (inheritedMembers members ancestors) (members body)

/-- One issue for every member of the class that hides an inherited one. -/
def hidingIssues (kind : MemberKind) (members : ClassBody → List α)
    (ancestors : List ClassBody) (body : ClassBody) : List InterfaceIssue :=
  (members body).filterMap fun member =>
    ((inheritedMembers members ancestors).get?
        (Declaration.name member)).map fun hidden =>
      if Declaration.isOverride member then
        .overridden ⟨kind, Declaration.name member⟩ hidden.origin body.name
      else .redeclared ⟨kind, Declaration.name member⟩ hidden.origin body.name

end Members

/-- Adds a state. A state that is there already keeps its place, and its description
unless that is empty. -/
def mergeState (states : OrderedMap String State) (state : State) :
    OrderedMap String State :=
  match states.get? state.name with
  | none => states.insert state.name state
  | some known =>
    if known.description.isEmpty then
      states.insert state.name { known with description := state.description }
    else states

def effectiveStates (levels : List ClassBody) : OrderedMap String State :=
  (levels.flatMap (·.machine.states)).foldl mergeState .empty

/-- For every constrained member the constraint of the level nearest to the class. -/
def nearestConstraints (levels : List ClassBody) : OrderedMap MemberKey (List String) :=
  levels.foldl (fun m body => m.insertAll body.machine.allowed) .empty

/-- The states of a constraint that are in effect. A constraint that names states, none
of which is in effect, constrains nothing. -/
def effectiveConstraint? (states : OrderedMap String State) (names : List String) :
    Option (List String) :=
  let known := names.filter states.contains
  if known.isEmpty && !names.isEmpty then none else some known

/-- The constraints on members in effect, with the states in effect. -/
def pruneConstraints (hasMember : MemberKey → Bool) (states : OrderedMap String State)
    (constraints : OrderedMap MemberKey (List String)) :
    OrderedMap MemberKey (List String) :=
  (constraints.filter fun e =>
      hasMember e.1 && (effectiveConstraint? states e.2).isSome).mapValues
    fun names => names.filter states.contains

/-- One issue for a constraint on an unknown member, else one for every unknown state in
it. -/
def constraintIssues (owner : String) (hasMember : MemberKey → Bool)
    (states : OrderedMap String State)
    (constraints : OrderedMap MemberKey (List String)) : List InterfaceIssue :=
  constraints.entries.flatMap fun e =>
    if hasMember e.1 then
      (e.2.filter (!states.contains ·)).map fun state => .unknownState e.1 state owner
    else [.unknownMember e.1]

/-- The interface before constraints are looked at. -/
def DeviceClass.rawInterface (cls : DeviceClass) : Interface :=
  let ancestors := cls.ancestors.reverse.map (·.toClassBody)
  { name := cls.name
    language := cls.language
    parent := cls.parent?.map (·.name)
    lineage := ancestors.map (·.name)
    attributes := effectiveMembers (·.attributes) ancestors cls.toClassBody
    commands := effectiveMembers (·.commands) ancestors cls.toClassBody
    classProperties := effectiveMembers (·.classProperties) ancestors cls.toClassBody
    deviceProperties := effectiveMembers (·.deviceProperties) ancestors cls.toClassBody
    pipes := effectiveMembers (·.pipes) ancestors cls.toClassBody
    states := effectiveStates cls.levels
    allowed := nearestConstraints cls.levels }

/-- The issues of members that hide inherited ones, kind by kind. -/
def DeviceClass.hidingIssues (cls : DeviceClass) : List InterfaceIssue :=
  let ancestors := cls.ancestors.reverse.map (·.toClassBody)
  let body := cls.toClassBody
  DeviceForge.hidingIssues .classProperty (·.classProperties) ancestors body ++
    DeviceForge.hidingIssues .deviceProperty (·.deviceProperties) ancestors body ++
    DeviceForge.hidingIssues .command (·.commands) ancestors body ++
    DeviceForge.hidingIssues .attribute (·.attributes) ancestors body ++
    DeviceForge.hidingIssues .pipe (·.pipes) ancestors body

/-- The effective interface of a class, and what there is to report about it. -/
def DeviceClass.resolve (cls : DeviceClass) :
    Except ModelError (Interface × List InterfaceIssue) := do
  cls.checkLanguages
  checkRepetitions cls.levels
  let raw := cls.rawInterface
  return ({ raw with allowed := pruneConstraints raw.hasMember raw.states raw.allowed },
    cls.hidingIssues ++ constraintIssues cls.name raw.hasMember raw.states raw.allowed)

end DeviceForge
