import DeviceForge.Proofs.Interface.Constraints
import DeviceForge.Proofs.Legacy.Upgrade

/-!
# Legacy constraints

The constraint of a legacy record waits until all members are there, and is then
cut down to the declared states.  Resolving the class would cut it down as well,
and would lift it if no state of it were left.  The upgrade does not: a list of
unknown states only becomes an empty one, and its member can never be used.
-/

namespace DeviceForge

namespace ClassBody

/-- An appended member is found if no earlier one has its key. -/
theorem declaration?_append (body : ClassBody) (member : Member) (key : MemberKey) :
    (body.append member).declaration? key =
      (body.declaration? key).or (if member.key = key then some member else none) := by
  obtain ⟨kind, name⟩ := key
  rw [declaration?, declared_append, declaration?, Member.key]
  by_cases hkind : kind = member.kind
  · subst hkind
    rw [if_pos rfl, List.find?_append, List.find?_singleton]
    simp
  · rw [if_neg hkind, if_neg (fun heq => hkind (MemberKey.mk.inj heq).1.symm),
      Option.or_none]

theorem declaration?_with_machine (body : ClassBody) (machine : StateMachine)
    (key : MemberKey) :
    ({ body with machine } : ClassBody).declaration? key = body.declaration? key := by
  rw [declaration?, declared_with_machine, declaration?]

theorem declaration?_of_addState {body after : ClassBody} {state : State}
    (h : body.addState state = .ok after) (key : MemberKey) :
    after.declaration? key = body.declaration? key := by
  obtain ⟨-, -, rfl⟩ := addState_eq_ok_iff.mp h
  exact declaration?_with_machine ..

theorem declaration?_eq_none_iff {body : ClassBody} {key : MemberKey} :
    body.declaration? key = none ↔ key.name ∉ body.names key.kind := by
  rw [← Option.not_isSome_iff_eq_none, isSome_declaration?_iff, hasMember_iff]

end ClassBody

namespace Legacy

/-- The records of the members that can be constrained. -/
def recordsOf (record : RawRecord) : MemberKind → List RawRecord
  | .attribute => recordsField record "attributes"
  | .command => recordsField record "commands"
  | .classProperty | .deviceProperty | .pipe => []

/-- What the record of such a member reads as. -/
def memberOf? (item : RawRecord) (key : MemberKey) : Option Member :=
  match key.kind with
  | .attribute => some (attributeOf item key.name).value
  | .command => some (commandOf item key.name).value
  | .classProperty | .deviceProperty | .pipe => none

def hasName (name : String) (item : RawRecord) : Bool :=
  textField? item "name" = some name

/-- The record of a member.  Later ones of its name are refused. -/
def recordOf? (record : RawRecord) (key : MemberKey) : Option RawRecord :=
  (recordsOf record key.kind).find? (hasName key.name)

def statesOn (pending : Pending) (key : MemberKey) : List (List String) :=
  (pending.filter (·.1 = key)).map (·.2)

theorem statesOn_append (front back : Pending) (key : MemberKey) :
    statesOn (front ++ back) key = statesOn front key ++ statesOn back key := by
  rw [statesOn, List.filter_append, List.map_append, statesOn, statesOn]

theorem statesOn_map (states? : Option (List String)) (named key : MemberKey) :
    statesOn (states?.toList.map fun states => (named, states)) key =
      if named = key then states?.toList else [] := by
  cases states? with
  | none => simp [statesOn]
  | some states => by_cases h : named = key <;> simp [statesOn, h]

/-- A member goes by the name that is given to it. -/
def Reads (kind : MemberKind) (read : RawRecord → String → Noted Member) : Prop :=
  ∀ item name, (read item name).value.key = ⟨kind, name⟩

theorem reads_attributeOf : Reads .attribute attributeOf :=
  fun _ _ => rfl

theorem reads_commandOf : Reads .command commandOf :=
  fun _ _ => rfl

theorem reads_classPropertyOf : Reads .classProperty classPropertyOf :=
  fun _ _ => rfl

theorem reads_devicePropertyOf : Reads .deviceProperty devicePropertyOf :=
  fun _ _ => rfl

/-- Neither the declaration of a member changes, nor what waits to constrain it. -/
structure Unchanged (key : MemberKey) (so after : ClassBody × Pending) : Prop where
  declaration : after.1.declaration? key = so.1.declaration? key
  states : statesOn after.2 key = statesOn so.2 key

section Members

variable {kind : MemberKind} {read : RawRecord → String → Noted Member}
  {key : MemberKey} {so : ClassBody × Pending} {item : RawRecord}

/-- A record adds its member unless the name is bad or taken. -/
theorem value_addMember (hread : Reads kind read)
    (so : ClassBody × Pending) (item : RawRecord) :
    (addMember kind read so item).value =
      match textField? item "name" with
      | none => so
      | some name =>
        if Name.isIdentifier name = true ∧ so.1.declaration? ⟨kind, name⟩ = none then
          (so.1.append (read item name).value,
            so.2 ++ (allowedField? item).toList.map fun states =>
              (⟨kind, name⟩, states))
        else so := by
  rw [addMember]
  cases textField? item "name" with
  | none => rfl
  | some name =>
      obtain ⟨hkind, hname⟩ := MemberKey.mk.inj (hread item name)
      have hadd : ∀ {after}, so.1.add (read item name).value = .ok after ↔
          Name.isIdentifier name = true ∧ so.1.declaration? ⟨kind, name⟩ = none ∧
            after = so.1.append (read item name).value := by
        intro after
        rw [ClassBody.add_eq_ok_iff, hkind, hname, ClassBody.declaration?_eq_none_iff]
      dsimp only
      rw [Noted.value_bind]
      cases hresult : so.1.add (read item name).value with
      | ok body =>
          obtain ⟨hidentifier, hnew, rfl⟩ := hadd.mp hresult
          rw [if_pos ⟨hidentifier, hnew⟩]
          rfl
      | error error =>
          have hrefused : ¬ (Name.isIdentifier name = true ∧
              so.1.declaration? ⟨kind, name⟩ = none) := by
            rintro ⟨hidentifier, hnew⟩
            rw [hadd.mpr ⟨hidentifier, hnew, rfl⟩] at hresult
            cases hresult
          rw [if_neg hrefused]

theorem Unchanged.rfl : Unchanged key so so :=
  ⟨Eq.refl _, Eq.refl _⟩

theorem Unchanged.trans {next after : ClassBody × Pending} (h : Unchanged key so next)
    (hnext : Unchanged key next after) : Unchanged key so after :=
  ⟨hnext.declaration.trans h.declaration, hnext.states.trans h.states⟩

/-- A record changes the member that it names, if that is not there yet. -/
theorem unchanged_addMember (hread : Reads kind read)
    (h : key.kind = kind → hasName key.name item = true →
      so.1.declaration? key ≠ none) :
    Unchanged key so (addMember kind read so item).value := by
  rw [value_addMember hread]
  split
  · exact .rfl
  · next name hname =>
      split
      · next hadded =>
          have hne : (⟨kind, name⟩ : MemberKey) ≠ key := by
            rintro rfl
            exact h (Eq.refl _) (decide_eq_true hname) hadded.2
          constructor
          · rw [ClassBody.declaration?_append, hread, if_neg hne, Option.or_none]
          · rw [statesOn_append, statesOn_map, if_neg hne, List.append_nil]
      · exact .rfl

theorem unchanged_addMembers (hread : Reads kind read) (key : MemberKey)
    (items : List RawRecord) (so : ClassBody × Pending)
    (h : ∀ item ∈ items, key.kind = kind → hasName key.name item = true →
      so.1.declaration? key ≠ none) :
    Unchanged key so (items.foldlM (addMember kind read) so).value := by
  refine Noted.value_foldlM (p := Unchanged key so)
    (fun next hnext item hitem => ?_) .rfl
  refine hnext.trans (unchanged_addMember hread fun hkind hname => ?_)
  rw [hnext.declaration]
  exact h item hitem hkind hname

/-- The first record of a good name makes the member, and it alone says how it is
constrained. -/
theorem declaration?_addMembers (hread : Reads kind read) {name : String}
    (hname : Name.isIdentifier name = true) (items : List RawRecord)
    (so : ClassBody × Pending) (hnew : so.1.declaration? ⟨kind, name⟩ = none) :
    let after := (items.foldlM (addMember kind read) so).value
    after.1.declaration? ⟨kind, name⟩ =
        (items.find? (hasName name)).map (fun item => (read item name).value) ∧
      statesOn after.2 ⟨kind, name⟩ = statesOn so.2 ⟨kind, name⟩ ++
        ((items.find? (hasName name)).bind allowedField?).toList := by
  cases hitem : items.find? (hasName name) with
  | none =>
      have hall :=
        unchanged_addMembers hread ⟨kind, name⟩ items so fun item hmem _ hnamed =>
        absurd hnamed (List.find?_eq_none.mp hitem item hmem)
      exact ⟨hall.declaration.trans hnew, hall.states.trans (List.append_nil _).symm⟩
  | some item =>
      obtain ⟨hnamed, before, rest, rfl, hbefore⟩ :=
        List.find?_eq_some_iff_append.mp hitem
      rw [Noted.value_foldlM_append, List.foldlM_cons, Noted.value_bind]
      let next := (before.foldlM (addMember kind read) so).value
      have hstart := unchanged_addMembers hread ⟨kind, name⟩ before so
        fun other hother _ hother' =>
          absurd hother' (by simpa using hbefore other hother)
      have hadd : (addMember kind read next item).value =
          (next.1.append (read item name).value,
            next.2 ++ (allowedField? item).toList.map fun states =>
              (⟨kind, name⟩, states)) := by
        rw [value_addMember hread, of_decide_eq_true hnamed]
        exact if_pos ⟨hname, hstart.declaration.trans hnew⟩
      have hdeclared :
          (addMember kind read next item).value.1.declaration? ⟨kind, name⟩ =
          some (read item name).value := by
        rw [hadd, ClassBody.declaration?_append, hstart.declaration, hnew, hread,
          if_pos (Eq.refl _)]
        rfl
      -- the rest cannot replace what is declared now
      have hrest := unchanged_addMembers hread ⟨kind, name⟩ rest
        (addMember kind read next item).value fun _ _ _ _ =>
          hdeclared ▸ Option.some_ne_none _
      refine ⟨hrest.declaration.trans hdeclared, hrest.states.trans ?_⟩
      rw [hadd, statesOn_append, hstart.states, statesOn_map, if_pos (Eq.refl _)]
      rfl

end Members

def knownStates (machine : StateMachine) (states : List String) : List String :=
  (states.map Text.trim).filter machine.hasState

theorem knownStates_congr {machine other : StateMachine}
    (h : machine.states = other.states) :
    knownStates machine = knownStates other := by
  funext states
  have hstate : machine.hasState = other.hasState := by
    funext name
    rw [StateMachine.hasState, StateMachine.hasState, h]
  rw [knownStates, knownStates, hstate]

/-- A constraint on a member that is there takes effect with its declared states, even
if these are none. -/
theorem value_addConstraint (body : ClassBody) (constraint : MemberKey × List String) :
    (addConstraint body constraint).value =
      if body.hasMember constraint.1 = true then
        { body with
          machine :=
            body.machine.setAllowed constraint.1
              (knownStates body.machine constraint.2) }
      else body := by
  rw [addConstraint, ClassBody.setAllowedStates]
  by_cases h : body.hasMember constraint.1 = true
  · rw [if_pos h, if_pos h]
    rfl
  · rw [if_neg h, if_neg h]

section Constraints

variable {body : ClassBody} {key : MemberKey}

theorem declaration?_addConstraints (pending : Pending) :
    (pending.foldlM addConstraint body).value.declaration? key =
      body.declaration? key := by
  refine Noted.value_foldlM (p := fun after : ClassBody =>
    after.declaration? key = body.declaration? key)
      (fun after hafter constraint _ => ?_) rfl
  rw [value_addConstraint]
  split
  · rw [ClassBody.declaration?_with_machine, hafter]
  · exact hafter

theorem states_addConstraints (pending : Pending) :
    (pending.foldlM addConstraint body).value.machine.states = body.machine.states := by
  refine Noted.value_foldlM (p := fun after : ClassBody =>
    after.machine.states = body.machine.states)
      (fun after hafter constraint _ => ?_) rfl
  rw [value_addConstraint]
  split <;> exact hafter

/-- Only the constrained member is looked up differently. -/
theorem allowedStates?_addConstraint {constraint : MemberKey × List String}
    (hmember : body.hasMember key = true) :
    (addConstraint body constraint).value.machine.allowedStates? key =
      if constraint.1 = key then some (knownStates body.machine constraint.2)
      else body.machine.allowedStates? key := by
  rw [value_addConstraint]
  by_cases hkey : constraint.1 = key
  · rw [hkey, if_pos hmember, if_pos rfl]
    exact (OrderedMap.get?_insert ..).trans (if_pos rfl)
  · rw [if_neg hkey]
    split
    · exact (OrderedMap.get?_insert ..).trans (if_neg hkey)
    · rfl

/-- The last list on a member counts. -/
theorem allowedStates?_addConstraints (pending : Pending)
    (hmember : body.hasMember key = true) :
    (pending.foldlM addConstraint body).value.machine.allowedStates? key =
      ((statesOn pending key).getLast?.map (knownStates body.machine)).or
        (body.machine.allowedStates? key) := by
  induction pending generalizing body with
  | nil => rfl
  | cons constraint rest ih =>
      have hdeclaration : (addConstraint body constraint).value.declaration? key =
          body.declaration? key := declaration?_addConstraints [constraint]
      have hstates : (addConstraint body constraint).value.machine.states =
          body.machine.states :=
        states_addConstraints [constraint]
      have hmember' : (addConstraint body constraint).value.hasMember key = true := by
        rwa [← ClassBody.isSome_declaration?_iff, hdeclaration,
          ClassBody.isSome_declaration?_iff]
      rw [List.foldlM_cons, Noted.value_bind, ih hmember', knownStates_congr hstates,
        allowedStates?_addConstraint hmember]
      by_cases hkey : constraint.1 = key
      · have hon : statesOn (constraint :: rest) key =
            constraint.2 :: statesOn rest key := by
          simp [statesOn, hkey]
        rw [if_pos hkey, hon, List.getLast?_cons]
        cases (statesOn rest key).getLast? <;> rfl
      · have hon : statesOn (constraint :: rest) key = statesOn rest key := by
          simp [statesOn, hkey]
        rw [if_neg hkey, hon]

end Constraints

/-! ## The constraints of an upgraded class -/

section Contents

variable (record : RawRecord) {body : ClassBody} {key : MemberKey}

theorem declaration?_addStates (entries : List RawValue) :
    (entries.foldlM addState body).value.declaration? key = body.declaration? key := by
  refine Noted.value_foldlM (p := fun after : ClassBody =>
    after.declaration? key = body.declaration? key) (fun after hafter entry _ => ?_) rfl
  rw [addState]
  split
  · exact hafter
  · split
    · next hadd => exact (ClassBody.declaration?_of_addState hadd key).trans hafter
    · exact hafter

/-- A member that can be constrained is made of its record, and waits for the list of
its record. -/
theorem declaration?_readConstrainable (hname : Name.isIdentifier key.name = true)
    (hkind : key.kind = .attribute ∨ key.kind = .command)
    (hnew : body.declaration? key = none) :
    (readConstrainable record body).1.declaration? key =
        (recordOf? record key).bind (memberOf? · key) ∧
      statesOn (readConstrainable record body).2 key =
        ((recordOf? record key).bind allowedField?).toList := by
  let declared := ((listField record "states").foldlM addState body).value
  have hdeclared : declared.declaration? key = none :=
    (declaration?_addStates _).trans hnew
  let attributes := ((recordsField record "attributes").foldlM
    (addMember .attribute attributeOf) (declared, [])).value
  obtain ⟨kind, name⟩ := key
  rcases hkind with rfl | rfl
  · obtain ⟨hattribute, hstates⟩ := declaration?_addMembers reads_attributeOf hname
      (recordsField record "attributes") (declared, []) hdeclared
    have hcommands := unchanged_addMembers reads_commandOf ⟨.attribute, name⟩
      (recordsField record "commands") attributes fun _ _ => (nomatch ·)
    refine ⟨(hcommands.declaration.trans hattribute).trans ?_,
      hcommands.states.trans hstates⟩
    exact Option.map_eq_bind
  · have hattributes := unchanged_addMembers reads_attributeOf ⟨.command, name⟩
      (recordsField record "attributes") (declared, []) fun _ _ => (nomatch ·)
    obtain ⟨hcommand, hstates⟩ := declaration?_addMembers reads_commandOf hname
      (recordsField record "commands") attributes
        (hattributes.declaration.trans hdeclared)
    refine ⟨hcommand.trans ?_, hstates.trans (congrArg (· ++ _) hattributes.states)⟩
    exact Option.map_eq_bind

theorem declaration?_readProperties
    (hkind : key.kind = .attribute ∨ key.kind = .command) :
    (readProperties record body).declaration? key = body.declaration? key := by
  let shared := ((recordsField record "class_properties").foldlM
    (addMember .classProperty classPropertyOf) (body, [])).value
  have hshared := unchanged_addMembers reads_classPropertyOf key
    (recordsField record "class_properties") (body, []) fun _ _ hclass => by
    simp [hclass] at hkind
  have hall := unchanged_addMembers reads_devicePropertyOf key
    (recordsField record "device_properties") (shared.1, [])
    fun _ _ hdevice => by simp [hdevice] at hkind
  exact hall.declaration.trans hshared.declaration

/-- Once all is read, the list of the record constrains the member to its declared
states. -/
theorem declaration?_readContents (hname : Name.isIdentifier key.name = true)
    (hkind : key.kind = .attribute ∨ key.kind = .command)
    (hnew : body.declaration? key = none) :
    let after := (readContents record body).value
    after.declaration? key = (recordOf? record key).bind (memberOf? · key) ∧
      (after.hasMember key = true → ∀ states,
        (recordOf? record key).bind allowedField? = some states →
          after.machine.allowedStates? key =
            some (knownStates after.machine states)) := by
  obtain ⟨hdeclaration, hwaiting⟩ :=
    declaration?_readConstrainable record hname hkind hnew
  let complete := readProperties record (readConstrainable record body).1
  rw [value_readContents]
  refine ⟨?_, fun hmember states hstates => ?_⟩
  · rw [declaration?_addConstraints, declaration?_readProperties record hkind,
      hdeclaration]
  · rw [← ClassBody.isSome_declaration?_iff, declaration?_addConstraints,
      ClassBody.isSome_declaration?_iff] at hmember
    rw [allowedStates?_addConstraints _ hmember, hwaiting, hstates,
      knownStates_congr (states_addConstraints _)]
    rfl

end Contents

section Upgrade

variable {desc : LegacyDescription} {settings : Settings} {conv : Conversion}
  {key : MemberKey}

/-- The class is read into a body without members. -/
theorem exists_readContents_of_upgrade (h : upgrade desc settings = .ok conv) :
    ∃ start : ClassBody, (∀ key, start.declaration? key = none) ∧
      conv.cls.toClassBody = (readContents desc.record start).value := by
  obtain ⟨name, -, hconv, -⟩ := exists_convert_of_upgrade h
  rw [value_convert] at hconv
  rw [(Prod.mk.inj hconv).1]
  refine ⟨_, fun key => ?_, rfl⟩
  obtain ⟨kind, name⟩ := key
  cases kind <;> rfl

/-- An attribute or command of an upgraded class is made of its record, and may be used
in the declared states that its record lists. -/
theorem exists_recordOf?_of_upgrade (h : upgrade desc settings = .ok conv)
    (hkind : key.kind = .attribute ∨ key.kind = .command)
    (hmember : conv.cls.hasMember key = true) :
    ∃ item, recordOf? desc.record key = some item ∧
      conv.cls.declaration? key = memberOf? item key ∧
      ∀ states, allowedField? item = some states →
        conv.cls.machine.allowedStates? key =
          some (knownStates conv.cls.machine states) := by
  have hname : Name.isIdentifier key.name = true :=
    (wellFormed_of_upgrade h).1.named.members key.kind key.name
      (ClassBody.hasMember_iff.mp hmember)
  obtain ⟨start, hstart, hbody⟩ := exists_readContents_of_upgrade h
  obtain ⟨hdeclaration, hallowed⟩ :=
    declaration?_readContents desc.record hname hkind (hstart key)
  rw [← hbody] at hdeclaration hallowed
  have hdeclared := ClassBody.isSome_declaration?_iff.mpr hmember
  cases hitem : recordOf? desc.record key with
  | none =>
      rw [hdeclaration, hitem] at hdeclared
      cases hdeclared
  | some item =>
      rw [hitem, Option.bind_some] at hdeclaration hallowed
      exact ⟨item, rfl, hdeclaration, hallowed hmember⟩

/-- Resolving an upgraded class with the list of a record in place of the constraint
that was made of it changes nothing about a member, unless all states of the list are
unknown: then the upgraded class denies the member every state that it has. -/
theorem deniedStates_upgrade_iff (h : upgrade desc settings = .ok conv)
    (hkind : key.kind = .attribute ∨ key.kind = .command)
    (hmember : conv.cls.hasMember key = true) :
    ∃ item, recordOf? desc.record key = some item ∧
      conv.cls.declaration? key = memberOf? item key ∧
      ∀ states, allowedField? item = some states →
        ∃ i j issues, conv.cls.resolve = .ok (i, []) ∧
          ({ conv.cls with
            machine := conv.cls.machine.setAllowed key (states.map Text.trim) } :
              DeviceClass).resolve = .ok (j, issues) ∧
          (i.deniedStates key = j.deniedStates key ↔
            states = [] ∨
              (∃ state ∈ states, conv.cls.machine.hasState (Text.trim state) = true) ∨
              conv.cls.machine.states = []) := by
  obtain ⟨hbody, hroot, -⟩ := wellFormed_of_upgrade h
  obtain ⟨item, hitem, hdeclaration, hallowed⟩ :=
    exists_recordOf?_of_upgrade h hkind hmember
  refine ⟨item, hitem, hdeclaration, fun states hstates => ?_⟩
  obtain ⟨i, hresolve⟩ := conv.cls.exists_resolve_of_wellFormed hroot hbody
  obtain ⟨j, issues, hresolve', hdenied⟩ :=
    DeviceClass.deniedStates_setAllowed_iff hroot hresolve hmember
      (hallowed states hstates)
  refine ⟨i, j, issues, hresolve, hresolve', ?_⟩
  rw [hdenied, List.map_eq_nil_iff]
  simp only [List.mem_map, exists_exists_and_eq_and]

/-- One of the two states that are listed for the speed is declared. -/
theorem deniedStates_upgrade_clutteredMotor :
    ∃ conv item, upgrade clutteredMotor {} = .ok conv ∧
      conv.cls.hasMember ⟨.attribute, "Speed"⟩ = true ∧
      recordOf? clutteredMotor.record ⟨.attribute, "Speed"⟩ = some item ∧
      conv.cls.declaration? ⟨.attribute, "Speed"⟩ =
        memberOf? item ⟨.attribute, "Speed"⟩ ∧
      allowedField? item = some ["ON", "GONE"] ∧
      ∃ i j issues, conv.cls.resolve = .ok (i, []) ∧
        ({ conv.cls with
          machine :=
            conv.cls.machine.setAllowed ⟨.attribute, "Speed"⟩ ["ON", "GONE"] } :
            DeviceClass).resolve = .ok (j, issues) ∧
        i.deniedStates ⟨.attribute, "Speed"⟩ =
          j.deniedStates ⟨.attribute, "Speed"⟩ := by
  obtain ⟨conv, h⟩ : ∃ conv, upgrade clutteredMotor {} = .ok conv := ⟨_, rfl⟩
  have hmember : conv.cls.hasMember ⟨.attribute, "Speed"⟩ = true := by
    obtain rfl := Except.ok.inj h
    rfl
  have hstate : conv.cls.machine.hasState "ON" = true := by
    obtain rfl := Except.ok.inj h
    rfl
  obtain ⟨item, hitem, hdeclaration, hall⟩ :=
    deniedStates_upgrade_iff h (Or.inl rfl) hmember
  obtain rfl := Option.some.inj hitem
  obtain ⟨i, j, issues, hupgraded, hlisted, hdenied⟩ := hall ["ON", "GONE"] rfl
  exact ⟨conv, _, h, hmember, rfl, hdeclaration, rfl, i, j, issues, hupgraded, hlisted,
    hdenied.mpr (Or.inr (Or.inl ⟨"ON", List.mem_cons_self, hstate⟩))⟩

/-- A valve whose command is for a state that is not declared any more. -/
def staleValve : LegacyDescription where
  record := [
    ("class_name", .text "Valve"),
    ("states", .list [.text "OPEN"]),
    ("commands", .list [
      .record [("name", .text "Close"), ("allowed_states", .list [.text "SHUT"])]])]

/-- A list of unknown states is emptied, and denies the member in every state where its
absence would allow it. -/
theorem not_forall_deniedStates_upgrade :
    ¬ ∀ (desc : LegacyDescription) (settings : Settings) (conv : Conversion)
        (key : MemberKey) (item : RawRecord) (states : List String),
      upgrade desc settings = .ok conv → key.kind = .attribute ∨ key.kind = .command →
      conv.cls.hasMember key = true → recordOf? desc.record key = some item →
      allowedField? item = some states →
      ∃ i j issues issues', conv.cls.resolve = .ok (i, issues) ∧
        ({ conv.cls with
          machine := conv.cls.machine.setAllowed key (states.map Text.trim) } :
            DeviceClass).resolve = .ok (j, issues') ∧
        i.deniedStates key = j.deniedStates key := by
  intro hall
  obtain ⟨i, j, issues, issues', hupgraded, hlisted, hdenied⟩ :=
    hall staleValve {} _ ⟨.command, "Close"⟩ _ _ rfl (Or.inr rfl) rfl rfl rfl
  have hclose : i.deniedStates ⟨.command, "Close"⟩ = ["OPEN"] := by
    obtain ⟨rfl, -⟩ := Prod.mk.inj (Except.ok.inj hupgraded)
    rfl
  have hclose' : j.deniedStates ⟨.command, "Close"⟩ = [] := by
    obtain ⟨rfl, -⟩ := Prod.mk.inj (Except.ok.inj hlisted)
    rfl
  rw [hclose, hclose'] at hdenied
  simp at hdenied

end Upgrade

end Legacy

end DeviceForge
