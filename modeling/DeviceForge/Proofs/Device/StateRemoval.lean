import DeviceForge.Proofs.Interface.Constraints

/-!
# Taking a state away

A removed state is taken out of the constraints of its class at once; a state
that is only no longer declared is left out of them by the resolution.  The two
come to the same unless a constraint names this state and no other one: emptied
by the removal, it looks like one that was empty from the start, and is not
lifted.
-/

namespace DeviceForge

namespace StateMachine

/-- Takes the declaration of a state away, and leaves the constraints as they are. -/
def undeclare (m : StateMachine) (name : String) : StateMachine :=
  { m with states := m.states.eraseP (·.name == name) }

/-- The state is declared once, and it is not all that the constraint is about. -/
def Spares (m : StateMachine) (name : String) (names : List String) : Prop :=
  name ∈ names → (m.states.map State.name).count name = 1 ∧
  ∃ other ∈ names, other ≠ name

variable {m : StateMachine} {name : String}

theorem removeState_of_hasState (h : m.hasState name = true) :
    m.removeState name =
      { m.undeclare name with
        allowed := m.allowed.mapValues fun names => names.filter (· ≠ name) } := by
  rw [removeState, if_pos h, undeclare]

theorem states_removeState (h : m.hasState name = true) :
    (m.removeState name).states = (m.undeclare name).states := by
  rw [removeState_of_hasState h]

theorem allowedStates?_removeState (h : m.hasState name = true) (key : MemberKey) :
    (m.removeState name).allowedStates? key =
      (m.allowedStates? key).map fun names => names.filter (· ≠ name) := by
  rw [removeState_of_hasState h]
  exact OrderedMap.get?_mapValues ..

@[simp]
theorem allowedStates?_undeclare (m : StateMachine) (name : String) (key : MemberKey) :
    (m.undeclare name).allowedStates? key = m.allowedStates? key := rfl

theorem map_name_undeclare (m : StateMachine) (name : String) :
    (m.undeclare name).states.map State.name =
      (m.states.map State.name).erase name := by
  rw [undeclare, List.erase_eq_eraseP', List.eraseP_map]
  rfl

theorem notMem_undeclare_iff (h : m.hasState name = true) :
    name ∉ (m.undeclare name).states.map State.name ↔
      (m.states.map State.name).count name = 1 := by
  have hpos := List.count_pos_iff.mpr (hasState_iff.mp h)
  rw [map_name_undeclare, ← List.count_eq_zero, List.count_erase_self]
  omega

end StateMachine

/-- It makes no difference whether a name is taken out of a constraint first, unless the
name is in effect, or all that the constraint has. -/
theorem effectiveConstraint?_filter_ne_eq_iff {states : OrderedMap String State}
    {names : List String} {name : String} :
    effectiveConstraint? states (names.filter (· ≠ name)) =
      effectiveConstraint? states names ↔
      (name ∈ names → name ∉ states.keys ∧ ∃ other ∈ names, other ≠ name) := by
  by_cases hname : name ∈ names
  · have hnames : names ≠ [] := List.ne_nil_of_mem hname
    have hknown : (names.filter (· ≠ name)).filter (· ∈ states.keys) =
        names.filter (· ∈ states.keys) ↔ name ∉ states.keys := by
      rw [List.filter_filter]
      constructor
      · intro heq hkey
        have hmem : name ∈ names.filter (· ∈ states.keys) := by simp [hname, hkey]
        rw [← heq] at hmem
        simp at hmem
      · intro hkey
        refine List.filter_congr fun other _ => ?_
        by_cases hother : other = name <;> simp [hother, hkey]
    have hempty : (names.filter (· ≠ name) = [] ↔ names = []) ↔
        ∃ other ∈ names, other ≠ name := by
      simp [hnames]
    rw [effectiveConstraint?_eq_iff, hknown, hempty]
    simp only [hname, true_imp_iff]
    refine and_congr_right fun _ => or_iff_right_of_imp ?_
    rintro ⟨other, hother, -⟩
    obtain ⟨hother, hne⟩ := List.mem_filter.mp hother
    exact ⟨other, hother, of_decide_eq_true hne⟩
  · have hfilter : names.filter (· ≠ name) = names := by
      refine List.filter_eq_self.mpr fun other hother => ?_
      rw [decide_eq_true_eq]
      rintro rfl
      exact hname hother
    rw [hfilter]
    simp [hname]

namespace DeviceClass

def undeclareState (cls : DeviceClass) (name : String) : DeviceClass :=
  { cls with machine := cls.machine.undeclare name }

variable {cls : DeviceClass} {name : String}

section Interfaces

variable {removed undeclared : Interface}
    {removedIssues undeclaredIssues : List InterfaceIssue}

/-- Both machines have constraints on the same members, in the same order. -/
theorem keys_levels_removeState (hstate : cls.machine.hasState name = true) :
    (cls.removeState name).levels.flatMap (·.machine.allowed.keys) =
      (cls.undeclareState name).levels.flatMap (·.machine.allowed.keys) := by
  rw [levels, levels, List.flatMap_append, List.flatMap_append, List.flatMap_singleton,
    List.flatMap_singleton, removeState, StateMachine.removeState_of_hasState hstate,
    OrderedMap.keys_mapValues, undeclareState, StateMachine.undeclare]

/-- A constraint of an ancestor is the same for both, and one of the class itself is if
it spares the state. -/
theorem allowedStates?_eq_iff_of_removeState (hstate : cls.machine.hasState name = true)
    (hancestors : ∀ ancestor ∈ cls.ancestors, ancestor.machine.hasState name = false)
    (hremoved : (cls.removeState name).resolve = .ok (removed, removedIssues))
    (hundeclared : (cls.undeclareState name).resolve =
      .ok (undeclared, undeclaredIssues))
    {key : MemberKey} (hmember : removed.hasMember key = undeclared.hasMember key) :
    removed.allowedStates? key = undeclared.allowedStates? key ↔
      ∀ names, cls.machine.allowedStates? key = some names →
        undeclared.hasMember key = true →
        cls.machine.Spares name names := by
  have hstates :=
    states_eq hremoved hundeclared rfl (StateMachine.states_removeState hstate)
  have hspared : name ∉ undeclared.states.keys ↔
      (cls.machine.states.map State.name).count name = 1 := by
    rw [mem_keys_states_iff hundeclared hancestors]
    exact StateMachine.notMem_undeclare_iff hstate
  rw [allowedStates?_of_resolve hremoved, allowedStates?_of_resolve hundeclared,
    constraintOn?_eq_or, constraintOn?_eq_or, hmember, hstates, removeState,
    undeclareState, StateMachine.allowedStates?_removeState hstate,
    StateMachine.allowedStates?_undeclare]
  cases cls.machine.allowedStates? key with
  | none => simp
  | some names =>
      cases undeclared.hasMember key with
      | false => simp
      | true =>
          simp only [Option.map_some, Option.some_or, Option.bind_some, if_true,
            effectiveConstraint?_filter_ne_eq_iff, hspared, StateMachine.Spares,
            Option.some.injEq, forall_eq', true_imp_iff]

end Interfaces

/-- A class can be resolved without a state of its own, whether the state is taken out
of the constraints or not, and the interfaces agree on constraints exactly if the state
is declared once and no constraint on a member in effect is about this state only. -/
theorem removeState_undeclareState_agree_iff {i : Interface}
    {issues : List InterfaceIssue} (h : cls.resolve = .ok (i, issues))
    (hstate : cls.machine.hasState name = true)
    (hancestors : ∀ ancestor ∈ cls.ancestors, ancestor.machine.hasState name = false) :
    ∃ removed undeclared removedIssues undeclaredIssues,
      (cls.removeState name).resolve = .ok (removed, removedIssues) ∧
      (cls.undeclareState name).resolve = .ok (undeclared, undeclaredIssues) ∧
      (removed.allowed = undeclared.allowed ∧
        removed.deniedStates = undeclared.deniedStates ↔
        ∀ key names, cls.machine.allowedStates? key = some names →
          i.hasMember key = true →
          cls.machine.Spares name names) := by
  obtain ⟨removed, removedIssues, hremoved, hmember⟩ :=
    exists_resolve_with_machine h (cls.machine.removeState name)
  obtain ⟨undeclared, undeclaredIssues, hundeclared, hmember'⟩ :=
    exists_resolve_with_machine h (cls.machine.undeclare name)
  refine ⟨removed, undeclared, removedIssues, undeclaredIssues, hremoved,
    hundeclared, ?_⟩
  have hstates : removed.states = undeclared.states :=
    states_eq hremoved hundeclared rfl (StateMachine.states_removeState hstate)
  have hdenied : removed.allowed = undeclared.allowed →
      removed.deniedStates = undeclared.deniedStates := by
    intro hallowed
    funext key
    rw [Interface.deniedStates, Interface.deniedStates, Interface.allowedStates?,
      Interface.allowedStates?, hallowed, hstates]
  rw [and_iff_left_of_imp hdenied,
    allowed_eq_iff hremoved hundeclared (keys_levels_removeState hstate)]
  refine forall_congr' fun key => ?_
  rw [allowedStates?_eq_iff_of_removeState hstate hancestors hremoved hundeclared
    ((hmember key).trans (hmember' key).symm), hmember' key]

def valve (names : List String) : DeviceClass where
  name := "Valve"
  language := .java
  commands := [{ name := "Close" }]
  machine :=
    { states := [{ name := "OPEN" }, { name := "CLOSED" }]
      allowed := .ofList [(⟨.command, "Close"⟩, names)] }

/-- The constraint has another state than the one that is taken away. -/
theorem removeState_undeclareState_agree_valve :
    ∃ i issues, (valve ["OPEN", "CLOSED"]).resolve = .ok (i, issues) ∧
      (valve ["OPEN", "CLOSED"]).machine.hasState "CLOSED" = true ∧
      (∀ ancestor ∈ (valve ["OPEN", "CLOSED"]).ancestors,
        ancestor.machine.hasState "CLOSED" = false) ∧
      ∃ removed undeclared removedIssues undeclaredIssues,
        ((valve ["OPEN", "CLOSED"]).removeState "CLOSED").resolve =
          .ok (removed, removedIssues) ∧
        ((valve ["OPEN", "CLOSED"]).undeclareState "CLOSED").resolve =
          .ok (undeclared, undeclaredIssues) ∧
        removed.allowed = undeclared.allowed ∧
        removed.deniedStates = undeclared.deniedStates := by
  obtain ⟨i, issues, h⟩ :
    ∃ i issues, (valve ["OPEN", "CLOSED"]).resolve = .ok (i, issues) :=
    ⟨_, _, rfl⟩
  have hstate : (valve ["OPEN", "CLOSED"]).machine.hasState "CLOSED" = true := rfl
  have hancestors : ∀ ancestor ∈ (valve ["OPEN", "CLOSED"]).ancestors,
      ancestor.machine.hasState "CLOSED" = false := List.forall_mem_nil _
  obtain ⟨removed, undeclared, removedIssues, undeclaredIssues, hremoved, hundeclared,
      hagree⟩ :=
    removeState_undeclareState_agree_iff h hstate hancestors
  refine ⟨i, issues, h, hstate, hancestors, removed, undeclared, removedIssues,
    undeclaredIssues, hremoved, hundeclared, hagree.mpr fun key names hnames _ _ => ?_⟩
  rw [StateMachine.allowedStates?, OrderedMap.get?_eq_some_iff] at hnames
  obtain ⟨-, rfl⟩ := Prod.mk.inj (List.mem_singleton.mp hnames)
  exact ⟨rfl, "OPEN", List.mem_cons_self, by decide⟩

/-- Without the state that its command is for, a valve can never be closed, or always.
-/
theorem not_forall_removeState_undeclareState_agree :
    ¬ ∀ (cls : DeviceClass) (name : String) (i : Interface)
        (issues : List InterfaceIssue),
      cls.resolve = .ok (i, issues) → cls.machine.hasState name = true →
      (∀ ancestor ∈ cls.ancestors, ancestor.machine.hasState name = false) →
      ∃ removed undeclared removedIssues undeclaredIssues,
        (cls.removeState name).resolve = .ok (removed, removedIssues) ∧
        (cls.undeclareState name).resolve = .ok (undeclared, undeclaredIssues) ∧
        removed.allowed = undeclared.allowed ∧
        removed.deniedStates = undeclared.deniedStates := by
  intro hall
  obtain ⟨removed, undeclared, removedIssues, undeclaredIssues, hremoved, hundeclared,
      -, hdenied⟩ :=
    hall (valve ["CLOSED"]) "CLOSED" _ _ rfl rfl (List.forall_mem_nil _)
  have hclose : removed.deniedStates ⟨.command, "Close"⟩ = ["OPEN"] := by
    obtain ⟨rfl, -⟩ := Prod.mk.inj (Except.ok.inj hremoved)
    rfl
  have hclose' : undeclared.deniedStates ⟨.command, "Close"⟩ = [] := by
    obtain ⟨rfl, -⟩ := Prod.mk.inj (Except.ok.inj hundeclared)
    rfl
  rw [hdenied, hclose'] at hclose
  simp at hclose

end DeviceClass

end DeviceForge
