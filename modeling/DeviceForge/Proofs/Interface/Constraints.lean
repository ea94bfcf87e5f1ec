import DeviceForge.Proofs.Inheritance
import DeviceForge.Proofs.Interface

/-!
# Constraints in effect

A member is constrained by the most derived level that speaks of it.  Members and
states that are not in effect are left out of the constraints, and reported.  A
constraint that loses all its states is lifted; one that has none to lose stays,
and denies its member every state.
-/

namespace DeviceForge

theorem filter_contains (states : OrderedMap String State) (names : List String) :
    names.filter states.contains = names.filter (· ∈ states.keys) := by
  refine List.filter_congr fun name _ => ?_
  rw [Bool.eq_iff_iff, decide_eq_true_eq, OrderedMap.mem_keys_iff_contains]

/-- A constraint holds if it is empty from the start, or names a state in effect. -/
theorem effectiveConstraint?_eq_some_iff {states : OrderedMap String State}
    {names known : List String} :
    effectiveConstraint? states names = some known ↔
      (names = [] ∨ ∃ state ∈ names, state ∈ states.keys) ∧
        known = names.filter (· ∈ states.keys) := by
  have hlifted : (names.filter (· ∈ states.keys)).isEmpty && !names.isEmpty ↔
      ¬ (names = [] ∨ ∃ state ∈ names, state ∈ states.keys) := by
    simp [and_comm]
  rw [effectiveConstraint?, filter_contains]
  by_cases h : names = [] ∨ ∃ state ∈ names, state ∈ states.keys
  · rw [if_neg (fun hempty => hlifted.mp hempty h), Option.some.injEq]
    exact ⟨fun heq => ⟨h, heq.symm⟩, fun heq => heq.2.symm⟩
  · rw [if_pos (hlifted.mpr h)]
    simp only [reduceCtorEq, h, false_and]

/-- Two constraints come to the same if they have the same states in effect and, where
there is none, are both empty or both not. -/
theorem effectiveConstraint?_eq_iff {states : OrderedMap String State}
    {names others : List String} :
    effectiveConstraint? states names = effectiveConstraint? states others ↔
      names.filter (· ∈ states.keys) = others.filter (· ∈ states.keys) ∧
        ((∃ state ∈ names, state ∈ states.keys) ∨ (names = [] ↔ others = [])) := by
  have hknown : (∃ state ∈ names, state ∈ states.keys) ↔
      names.filter (· ∈ states.keys) ≠ [] := by
    simp
  rw [hknown, effectiveConstraint?, effectiveConstraint?, filter_contains,
    filter_contains]
  by_cases hnames : names.filter (· ∈ states.keys) = []
  · by_cases hothers : others.filter (· ∈ states.keys) = []
    · -- both have lost their states, so only what they had lost tells them apart
      rw [hnames, hothers]
      cases names <;> cases others <;> simp
    · rw [hnames]
      cases names <;> simp [hothers, Ne.symm hothers]
  · have hfull : (names.filter (· ∈ states.keys)).isEmpty = false := by
      simpa using hnames
    rw [hfull, Bool.false_and]
    by_cases hothers : others.filter (· ∈ states.keys) = []
    · rw [hothers]
      cases others <;> simp [hnames]
    · have hfull' : (others.filter (· ∈ states.keys)).isEmpty = false := by
        simpa using hothers
      simp [hfull', hnames]

/-- A constraint without unknown states is never lifted. -/
theorem effectiveConstraint?_filter_mem (states : OrderedMap String State)
    (names : List String) :
    effectiveConstraint? states (names.filter (· ∈ states.keys)) =
      some (names.filter (· ∈ states.keys)) := by
  rw [effectiveConstraint?_eq_some_iff]
  constructor
  · rw [or_iff_not_imp_left]
    intro hne
    obtain ⟨state, hstate⟩ := List.exists_mem_of_ne_nil _ hne
    exact ⟨state, hstate, of_decide_eq_true (List.mem_filter.mp hstate).2⟩
  · simp

/-- A constraint survives, with the states in effect, exactly if its member is in effect
and it is not emptied. -/
theorem get?_pruneConstraints (hasMember : MemberKey → Bool)
    (states : OrderedMap String State)
    (constraints : OrderedMap MemberKey (List String)) (key : MemberKey) :
    (pruneConstraints hasMember states constraints).get? key =
      (constraints.get? key).bind fun names =>
        if hasMember key then effectiveConstraint? states names else none := by
  rw [pruneConstraints, OrderedMap.get?_mapValues, OrderedMap.get?_filter]
  cases constraints.get? key with
  | none => rfl
  | some names =>
      cases hmember : hasMember key with
      | false => simp [hmember]
      | true =>
          cases hknown : effectiveConstraint? states names with
          | none => simp [hmember, hknown]
          | some known =>
              obtain ⟨-, rfl⟩ := effectiveConstraint?_eq_some_iff.mp hknown
              simp [hmember, hknown, filter_contains]

section Issues

variable {owner : String} {hasMember : MemberKey → Bool}
  {states : OrderedMap String State} {constraints : OrderedMap MemberKey (List String)}

/-- A constraint on an unknown member is one issue, however many states it names. -/
theorem count_unknownMember (key : MemberKey) :
    (constraintIssues owner hasMember states constraints).count (.unknownMember key) =
      if (constraints.get? key).isSome = true ∧ hasMember key = false then 1
        else 0 := by
  rw [constraintIssues, OrderedMap.count_flatMap_entries constraints key]
  · cases constraints.get? key with
    | none => rfl
    | some names =>
        cases hmember : hasMember key with
        | false => simp [hmember]
        | true => simp [hmember, List.count_eq_zero]
  · rintro e - hne
    split
    · simp
    · simpa using Ne.symm hne

/-- An unknown state is reported as often as the constraint names it. -/
theorem count_map_unknownState (names : List String) (key : MemberKey)
    (state reporter : String) :
    ((names.filter (!states.contains ·)).map
      (InterfaceIssue.unknownState key · owner)).count
        (.unknownState key state reporter) =
      if state ∉ states.keys ∧ reporter = owner then names.count state else 0 := by
  have hunknown : ∀ {name : String}, (!states.contains name) = true ↔
      name ∉ states.keys := by
    intro name
    rw [Bool.not_eq_true', ← Bool.not_eq_true, OrderedMap.mem_keys_iff_contains]
  by_cases h : state ∉ states.keys ∧ reporter = owner
  · obtain ⟨hstate, rfl⟩ := h
    have hinjective : Function.Injective (InterfaceIssue.unknownState key · reporter) :=
      fun name other heq => (InterfaceIssue.unknownState.inj heq).2.1
    rw [if_pos ⟨hstate, rfl⟩, List.count_map_of_injective _ _ hinjective]
    exact List.count_filter (p := (!states.contains ·)) (hunknown.mpr hstate)
  · rw [if_neg h, List.count_eq_zero, List.mem_map]
    rintro ⟨name, hname, heq⟩
    obtain ⟨-, rfl, rfl⟩ := InterfaceIssue.unknownState.inj heq
    exact h ⟨hunknown.mp (List.mem_filter.mp hname).2, rfl⟩

/-- A state that is not in effect is one issue wherever a constraint names it. -/
theorem count_unknownState (key : MemberKey) (state reporter : String) :
    (constraintIssues owner hasMember states constraints).count
        (.unknownState key state reporter) =
      if hasMember key = true ∧ state ∉ states.keys ∧ reporter = owner then
        ((constraints.get? key).getD []).count state
      else 0 := by
  rw [constraintIssues, OrderedMap.count_flatMap_entries constraints key]
  · cases constraints.get? key with
    | none => simp
    | some names =>
        cases hmember : hasMember key with
        | false => simp [hmember]
        | true => simpa [hmember] using count_map_unknownState names key state reporter
  · rintro e - hne
    split
    · simp only [List.mem_map, not_exists, not_and]
      rintro name - heq
      exact hne (InterfaceIssue.unknownState.inj heq).1
    · simp

end Issues

/-! ## Constraints along the chain -/

/-- A member has the constraint of the most derived level that constrains it. -/
theorem get?_nearestConstraints (levels : List ClassBody) (key : MemberKey) :
    (nearestConstraints levels).get? key =
      levels.reverse.findSome? (·.machine.allowedStates? key) := by
  induction levels using List.reverseRecOn with
  | nil => rfl
  | append_singleton rest level ih =>
      rw [nearestConstraints, List.foldl_append, List.foldl_cons, List.foldl_nil,
        OrderedMap.get?_insertAll, ← nearestConstraints, ih, List.reverse_append,
        List.reverse_singleton, List.singleton_append, List.findSome?_cons]
      rw [StateMachine.allowedStates?]
      cases level.machine.allowed.get? key <;> rfl

theorem keys_nearestConstraints (levels : List ClassBody) :
    (nearestConstraints levels).keys =
      (levels.flatMap (·.machine.allowed.keys)).eraseDups := by
  induction levels using List.reverseRecOn with
  | nil => rfl
  | append_singleton rest level ih =>
      rw [nearestConstraints, List.foldl_append, List.foldl_cons, List.foldl_nil,
        OrderedMap.keys_insertAll, ← nearestConstraints, ih,
        OrderedMap.eraseDups_eraseDups_append, List.flatMap_append,
        List.flatMap_singleton]

theorem mem_keys_nearestConstraints_iff {levels : List ClassBody} {key : MemberKey} :
    key ∈ (nearestConstraints levels).keys ↔
      ∃ level ∈ levels, key ∈ level.machine.allowed.keys := by
  rw [keys_nearestConstraints, List.mem_eraseDups, List.mem_flatMap]

namespace DeviceClass

/-- The constraint of the most derived level that constrains a member. -/
def constraintOn? (cls : DeviceClass) (key : MemberKey) : Option (List String) :=
  cls.bodies.findSome? (·.machine.allowedStates? key)

theorem reverse_levels (cls : DeviceClass) : cls.levels.reverse = cls.bodies := by
  rw [levels, List.reverse_append, ← List.map_reverse, List.reverse_reverse]
  rfl

theorem get?_allowed_rawInterface (cls : DeviceClass) (key : MemberKey) :
    cls.rawInterface.allowed.get? key = cls.constraintOn? key := by
  rw [rawInterface, get?_nearestConstraints, reverse_levels, constraintOn?]

end DeviceClass

/-- The interface has the constraints of the class, as far as they are about members
and states in effect, and the issues tell what is left out of them. -/
structure Interface.KeepsConstraints (i : Interface) (issues : List InterfaceIssue)
    (cls : DeviceClass) : Prop where
  members : ∀ key, i.hasMember key = true ↔
    ∃ level ∈ cls.levels, level.hasMember key = true
  states : ∀ state, state ∈ i.states.keys ↔
    ∃ level ∈ cls.levels, level.machine.hasState state = true
  allowed_iff : ∀ key states, i.allowedStates? key = some states ↔
    ∃ names, cls.constraintOn? key = some names ∧ i.hasMember key = true ∧
      (names = [] ∨ ∃ state ∈ names, state ∈ i.states.keys) ∧
      states = names.filter (· ∈ i.states.keys)
  /-- One issue for every constrained member that is not in effect. -/
  unknownMembers : ∀ key, issues.count (.unknownMember key) =
    if (cls.constraintOn? key).isSome = true ∧ i.hasMember key = false then 1 else 0
  /-- One issue for every occurrence of a state that is not in effect. -/
  unknownStates : ∀ key state owner, issues.count (.unknownState key state owner) =
    if i.hasMember key = true ∧ state ∉ i.states.keys ∧ owner = cls.name then
      ((cls.constraintOn? key).getD []).count state
    else 0
  /-- There are no other warnings about constraints. -/
  stale_iff : ∀ issue ∈ issues, issue.toWarning.kind = .staleStateConstraint ↔
    (∃ key, issue = .unknownMember key) ∨
    ∃ key state, issue = .unknownState key state cls.name
  inEffect : ∀ key states, i.allowedStates? key = some states →
    i.hasMember key = true ∧ ∀ state ∈ states, state ∈ i.states.keys
  denied_of_unconstrained : ∀ key, i.allowedStates? key = none → i.deniedStates key = []
  denied_of_constrained : ∀ key states, i.allowedStates? key = some states →
    i.deniedStates key = i.states.keys.filter (· ∉ states)

/-- A constraint that is cut down to the states in effect denies what the whole one
denies, unless the whole one is lifted, and there is a state to deny. -/
theorem Interface.deniedStates_eq_iff {i j : Interface} {key : MemberKey}
    {names : List String}
    (hi : i.allowedStates? key = some (names.filter (· ∈ i.states.keys)))
    (hj : j.allowedStates? key = effectiveConstraint? i.states names)
    (hstates : j.states = i.states) :
    i.deniedStates key = j.deniedStates key ↔
      names = [] ∨ (∃ state ∈ names, state ∈ i.states.keys) ∨ i.states.keys = [] := by
  rw [deniedStates, deniedStates, hi, hj, hstates]
  by_cases hkept : names = [] ∨ ∃ state ∈ names, state ∈ i.states.keys
  · rw [effectiveConstraint?_eq_some_iff.mpr ⟨hkept, rfl⟩]
    exact iff_of_true rfl (hkept.imp_right Or.inl)
  · have hlifted : effectiveConstraint? i.states names = none := by
      rw [Option.eq_none_iff_forall_ne_some]
      exact fun known hknown => hkept (effectiveConstraint?_eq_some_iff.mp hknown).1
    rw [not_or] at hkept
    have hcut : names.filter (· ∈ i.states.keys) = [] := by
      rw [List.filter_eq_nil_iff]
      exact fun state hstate hkey => hkept.2 ⟨state, hstate, of_decide_eq_true hkey⟩
    rw [hlifted, hcut, or_iff_right hkept.1, or_iff_right hkept.2]
    simp

namespace DeviceClass

variable {cls : DeviceClass} {i : Interface} {issues : List InterfaceIssue}

theorem names_of_resolve (h : cls.resolve = .ok (i, issues)) (kind : MemberKind) :
    i.names kind = (cls.levels.flatMap (·.names kind)).eraseDups := by
  obtain ⟨-, -, rfl, -⟩ := resolve_eq_ok_iff.mp h
  exact names_rawInterface cls kind

theorem hasMember_iff_of_resolve (h : cls.resolve = .ok (i, issues)) {key : MemberKey} :
    i.hasMember key = true ↔ ∃ level ∈ cls.levels, level.hasMember key = true := by
  obtain ⟨-, -, rfl, -⟩ := resolve_eq_ok_iff.mp h
  exact hasMember_rawInterface

theorem states_of_resolve (h : cls.resolve = .ok (i, issues)) :
    i.states = effectiveStates cls.levels := by
  obtain ⟨-, -, rfl, -⟩ := resolve_eq_ok_iff.mp h
  rfl

theorem mem_keys_states_iff_of_resolve (h : cls.resolve = .ok (i, issues))
    {state : String} :
    state ∈ i.states.keys ↔
      ∃ level ∈ cls.levels, level.machine.hasState state = true := by
  rw [states_of_resolve h, mem_keys_effectiveStates_iff]
  simp only [StateMachine.hasState_iff]

theorem allowedStates?_of_resolve (h : cls.resolve = .ok (i, issues))
    (key : MemberKey) :
    i.allowedStates? key = (cls.constraintOn? key).bind fun names =>
      if i.hasMember key then effectiveConstraint? i.states names else none := by
  obtain ⟨-, -, rfl, -⟩ := resolve_eq_ok_iff.mp h
  rw [Interface.allowedStates?, get?_pruneConstraints, get?_allowed_rawInterface]
  rfl

/-- What hides a member is no issue about a constraint. -/
theorem count_of_resolve (h : cls.resolve = .ok (i, issues)) {issue : InterfaceIssue}
    (hissue : issue.isHiding = false) :
    issues.count issue =
      (constraintIssues cls.name i.hasMember i.states cls.rawInterface.allowed).count
        issue := by
  obtain ⟨-, -, rfl, rfl⟩ := resolve_eq_ok_iff.mp h
  have hhidings : cls.hidings.count issue = 0 := by
    rw [List.count_eq_zero]
    intro hmem
    simp [isHiding_of_mem_hidings hmem] at hissue
  rw [List.count_append, hhidings, Nat.zero_add]
  rfl

/-- A resolved class keeps its constraints on what is in effect, and reports the rest.
-/
theorem keepsConstraints_of_resolve (h : cls.resolve = .ok (i, issues)) :
    i.KeepsConstraints issues cls := by
  have hallowed : ∀ key states, i.allowedStates? key = some states ↔
      ∃ names, cls.constraintOn? key = some names ∧ i.hasMember key = true ∧
        (names = [] ∨ ∃ state ∈ names, state ∈ i.states.keys) ∧
        states = names.filter (· ∈ i.states.keys) := by
    intro key states
    rw [allowedStates?_of_resolve h, Option.bind_eq_some_iff]
    refine exists_congr fun names => and_congr_right fun _ => ?_
    cases i.hasMember key with
    | false => simp
    | true => simp [effectiveConstraint?_eq_some_iff]
  have hstates : ∀ key state owner, issues.count (.unknownState key state owner) =
      if i.hasMember key = true ∧ state ∉ i.states.keys ∧ owner = cls.name then
        ((cls.constraintOn? key).getD []).count state
      else 0 := by
    intro key state owner
    rw [count_of_resolve h rfl, count_unknownState, get?_allowed_rawInterface]
  constructor
  · exact fun key => hasMember_iff_of_resolve h
  · exact fun state => mem_keys_states_iff_of_resolve h
  · exact hallowed
  · intro key
    rw [count_of_resolve h rfl, count_unknownMember, get?_allowed_rawInterface]
  · exact hstates
  · intro issue hissue
    cases issue with
    | overridden | redeclared => simp [InterfaceIssue.toWarning, InterfaceIssue.kind]
    | unknownMember key => exact iff_of_true rfl (Or.inl ⟨key, rfl⟩)
    | unknownState key state owner =>
        have hcount := List.count_pos_iff.mpr hissue
        rw [hstates] at hcount
        split at hcount
        · next howner => exact iff_of_true rfl (Or.inr ⟨key, state, by rw [howner.2.2]⟩)
        · exact absurd hcount (Nat.lt_irrefl 0)
  · intro key states hstates
    obtain ⟨names, -, hmember, -, rfl⟩ := (hallowed key states).mp hstates
    exact ⟨hmember, fun state hstate => of_decide_eq_true (List.mem_filter.mp hstate).2⟩
  · intro key hnone
    rw [Interface.deniedStates, hnone]
  · intro key states hstates
    rw [Interface.deniedStates, hstates]

def agedMotor : DeviceClass where
  name := "Motor"
  language := .java
  commands := [{ name := "Brake" }]
  machine :=
    { states := [{ name := "ON" }, { name := "OFF" }]
      allowed := .ofList [(⟨.command, "Halt"⟩, ["OFF", "IDLE", "MOVING", "IDLE"]),
        (⟨.command, "Brake"⟩, ["IDLE"]), (⟨.command, "Park"⟩, ["ON", "IDLE"])] }
  ancestors :=
    [{ name := "Axis"
       language := .java
       attributes := [{ name := "Speed" }]
       commands := [{ name := "Halt" }]
       machine :=
         { states := [{ name := "MOVING" }]
           allowed := .ofList [(⟨.command, "Halt"⟩, ["MOVING"]),
             (⟨.attribute, "Speed"⟩, [])] } }]

/-- A halt has lost a state, a brake its whole constraint, and the speed can never be
used. -/
theorem keepsConstraints_agedMotor :
    ∃ i issues, agedMotor.resolve = .ok (i, issues) ∧
      i.KeepsConstraints issues agedMotor ∧
      i.deniedStates ⟨.command, "Halt"⟩ = ["ON"] ∧
      i.deniedStates ⟨.command, "Brake"⟩ = [] ∧
      i.deniedStates ⟨.attribute, "Speed"⟩ = ["MOVING", "ON", "OFF"] ∧
      issues.count (.unknownState ⟨.command, "Halt"⟩ "IDLE" "Motor") = 2 ∧
      issues.count (.unknownMember ⟨.command, "Park"⟩) = 1 :=
  ⟨_, _, rfl, keepsConstraints_of_resolve rfl, rfl, rfl, rfl, rfl, rfl⟩

/-- A state that no ancestor declares is in effect if the class itself declares it. -/
theorem mem_keys_states_iff {name : String} (h : cls.resolve = .ok (i, issues))
    (hancestors : ∀ ancestor ∈ cls.ancestors, ancestor.machine.hasState name = false) :
    name ∈ i.states.keys ↔ name ∈ cls.machine.states.map State.name := by
  rw [mem_keys_states_iff_of_resolve h, ← StateMachine.hasState_iff]
  constructor
  · rintro ⟨level, hlevel, hstate⟩
    revert level
    rw [forall_mem_levels]
    refine ⟨id, fun ancestor hancestor hstate => ?_⟩
    simp [hancestors ancestor hancestor] at hstate
  · intro hstate
    exact ⟨_, by simp [levels], hstate⟩

/-- Two classes with one chain and the same states have the same states in effect. -/
theorem states_eq {other : DeviceClass} {j : Interface} {issues' : List InterfaceIssue}
    (h : cls.resolve = .ok (i, issues)) (hother : other.resolve = .ok (j, issues'))
    (hancestors : cls.ancestors = other.ancestors)
    (hstates : cls.machine.states = other.machine.states) : i.states = j.states := by
  rw [states_of_resolve h, states_of_resolve hother, effectiveStates,
    effectiveStates, levels, levels, List.flatMap_append, List.flatMap_append,
    List.flatMap_singleton, List.flatMap_singleton, hancestors, hstates]

/-- Members do not depend on the state machine, and neither does the resolution's
success. -/
theorem exists_resolve_with_machine (h : cls.resolve = .ok (i, issues))
    (machine : StateMachine) :
    ∃ j issues', ({ cls with machine } : DeviceClass).resolve = .ok (j, issues') ∧
      ∀ key, j.hasMember key = i.hasMember key := by
  obtain ⟨hlanguages, hlevels, -, -⟩ := resolve_eq_ok_iff.mp h
  rw [forall_mem_levels] at hlevels
  have hbody : ClassBody.UniqueNames { cls.toClassBody with machine } := by
    intro kind
    rw [ClassBody.names_with_machine]
    exact hlevels.1 kind
  obtain ⟨j, issues', hresolve⟩ : ∃ j issues',
      ({ cls with machine } : DeviceClass).resolve = .ok (j, issues') :=
    ⟨_, _, resolve_eq_of_levels hlanguages (forall_mem_levels.mpr ⟨hbody, hlevels.2⟩)⟩
  refine ⟨j, issues', hresolve, fun key => ?_⟩
  rw [Interface.hasMember, Interface.hasMember, names_of_resolve hresolve,
    names_of_resolve h, levels, levels, List.flatMap_append, List.flatMap_append,
    List.flatMap_singleton, List.flatMap_singleton, ClassBody.names_with_machine]

theorem constraintOn?_eq_or (cls : DeviceClass) (key : MemberKey) :
    cls.constraintOn? key =
      (cls.machine.allowedStates? key).or
        (cls.ancestors.findSome? (·.machine.allowedStates? key)) := by
  rw [constraintOn?, bodies, chain, List.map_cons, List.findSome?_cons,
    List.findSome?_map]
  cases cls.machine.allowedStates? key <;> rfl

/-- A constraint of the class itself is in effect as far as its states are. -/
theorem allowedStates?_of_own (h : cls.resolve = .ok (i, issues)) {key : MemberKey}
    (hmember : i.hasMember key = true) {names : List String}
    (hnames : cls.machine.allowedStates? key = some names) :
    i.allowedStates? key = effectiveConstraint? i.states names := by
  rw [allowedStates?_of_resolve h, constraintOn?_eq_or, hnames, Option.some_or,
    Option.bind_some, if_pos hmember]

/-- A class without ancestors denies a member the same states, whether the constraint of
the member is a whole list or what is left of the list when unknown states are taken
out, unless nothing is left of it: then the one is lifted, and the other denies every
state. -/
theorem deniedStates_setAllowed_iff (hroot : cls.ancestors = [])
    (h : cls.resolve = .ok (i, issues)) {key : MemberKey}
    (hmember : cls.hasMember key = true) {names : List String}
    (hnames : cls.machine.allowedStates? key =
      some (names.filter cls.machine.hasState)) :
    ∃ j issues', ({ cls with machine := cls.machine.setAllowed key names } :
        DeviceClass).resolve = .ok (j, issues') ∧
      (i.deniedStates key = j.deniedStates key ↔
        names = [] ∨ (∃ name ∈ names, cls.machine.hasState name = true) ∨
          cls.machine.states = []) := by
  obtain ⟨j, issues', hother, hmembers⟩ :=
    exists_resolve_with_machine h (cls.machine.setAllowed key names)
  refine ⟨j, issues', hother, ?_⟩
  have hkey : i.hasMember key = true := by
    rw [hasMember_iff_of_resolve h]
    exact ⟨cls.toClassBody, by simp [levels], hmember⟩
  have hstate : ∀ name, name ∈ i.states.keys ↔ cls.machine.hasState name = true := by
    intro name
    rw [StateMachine.hasState_iff]
    exact mem_keys_states_iff h (by simp [hroot])
  have hsame : j.states = i.states := states_eq hother h rfl rfl
  have hcut : i.allowedStates? key = some (names.filter (· ∈ i.states.keys)) := by
    have hfilter : names.filter cls.machine.hasState =
        names.filter (· ∈ i.states.keys) := by
      refine List.filter_congr fun name _ => ?_
      rw [Bool.eq_iff_iff, decide_eq_true_eq, hstate]
    rw [allowedStates?_of_own h hkey hnames, hfilter]
    exact effectiveConstraint?_filter_mem ..
  have hwhole : j.allowedStates? key = effectiveConstraint? i.states names := by
    rw [← hsame]
    refine allowedStates?_of_own hother ((hmembers key).trans hkey) ?_
    exact (OrderedMap.get?_insert ..).trans (if_pos rfl)
  have hempty : i.states.keys = [] ↔ cls.machine.states = [] := by
    rw [← List.map_eq_nil_iff (f := State.name), List.eq_nil_iff_forall_not_mem,
      List.eq_nil_iff_forall_not_mem]
    simp only [hstate, StateMachine.hasState_iff]
  rw [Interface.deniedStates_eq_iff hcut hwhole hsame, hempty]
  simp only [hstate]

/-- Constraints are listed in the order in which their members first come up. -/
theorem keys_allowed_of_resolve (h : cls.resolve = .ok (i, issues)) :
    i.allowed.keys =
      (cls.levels.flatMap (·.machine.allowed.keys)).eraseDups.filter fun key =>
        (i.allowedStates? key).isSome := by
  obtain ⟨-, -, rfl, -⟩ := resolve_eq_ok_iff.mp h
  have hkeys : ∀ key,
      (pruneConstraints cls.rawInterface.hasMember cls.rawInterface.states
        cls.rawInterface.allowed).get? key = _ := fun _ => OrderedMap.get?_mapValues ..
  simp only [Interface.allowedStates?, hkeys, Option.isSome_map]
  rw [pruneConstraints, OrderedMap.keys_mapValues, OrderedMap.keys_filter,
    ← keys_nearestConstraints]
  rfl

/-- Constraints on the same members, in the same order, differ where a lookup tells them
apart. -/
theorem allowed_eq_iff {other : DeviceClass} {j : Interface}
    {issues' : List InterfaceIssue} (h : cls.resolve = .ok (i, issues))
    (hother : other.resolve = .ok (j, issues'))
    (hkeys : cls.levels.flatMap (·.machine.allowed.keys) =
      other.levels.flatMap (·.machine.allowed.keys)) :
    i.allowed = j.allowed ↔ ∀ key, i.allowedStates? key = j.allowedStates? key := by
  constructor
  · intro heq key
    rw [Interface.allowedStates?, heq, ← Interface.allowedStates?]
  · intro hall
    refine OrderedMap.eq_of_keys_of_get? ?_ hall
    rw [keys_allowed_of_resolve h, keys_allowed_of_resolve hother, hkeys]
    simp only [hall]

end DeviceClass

end DeviceForge
