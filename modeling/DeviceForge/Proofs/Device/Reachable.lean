import DeviceForge.Proofs.Device.Checked
import DeviceForge.Proofs.Interface.Constraints

/-!
# Classes in reach of the edits

Edits check the class and its parent, or the classes that join the chain, and
nothing else.  That is enough for what they keep: names are good and unique,
constraints are about members that are there, and the whole chain speaks one
language.  Such a class can always be resolved.
-/

namespace DeviceForge

inductive ClassEdit where
  | members (edit : MemberEdit)
  | addState (state : State)
  | removeState (name : String)
  | setAllowedStates (key : MemberKey) (names : List String)
  | setName (text : String)
  | setLanguage (language : Language)
  | addAncestor (ancestor : DeviceClass)
  | inheritFrom (parent : DeviceClass)

/-- The class that joins the chain, with its own ancestors. -/
def ClassEdit.attached? : ClassEdit → Option DeviceClass
  | .addAncestor ancestor => some ancestor
  | .inheritFrom parent => some parent
  | _ => none

namespace DeviceClass

def apply (cls : DeviceClass) : ClassEdit → Except ModelError DeviceClass
  | .members edit => cls.edit edit
  | .addState state => cls.addState state
  | .removeState name => .ok (cls.removeState name)
  | .setAllowedStates key names => cls.setAllowedStates key names
  | .setName text => cls.setName text
  | .setLanguage language => cls.setLanguage language
  | .addAncestor ancestor => cls.addAncestor ancestor
  | .inheritFrom parent => cls.inheritFrom parent

/-- What edits make of a new class, where all that joins a chain is made so as well. -/
inductive Reachable : DeviceClass → Prop
  | ofText {text : String} {language : Language} {cls : DeviceClass}
      (h : DeviceClass.ofText text language = .ok cls) : Reachable cls
  | apply {cls after : DeviceClass} (hcls : Reachable cls) {edit : ClassEdit}
      (hattached : ∀ ancestor, edit.attached? = some ancestor → Reachable ancestor)
      (h : cls.apply edit = .ok after) : Reachable after

/-- What edits make is made by checked operations. -/
theorem Reachable.checked {cls : DeviceClass} (h : cls.Reachable) : cls.Checked := by
  induction h with
  | ofText h => exact .ofText h
  | @apply cls after _ edit _ h ih ihAttached =>
      cases edit with
      | members edit => exact .edit ih h
      | addState state => exact .addState ih h
      | removeState name =>
          obtain rfl := Except.ok.inj h
          exact .removeState ih name
      | setAllowedStates key names => exact .setAllowedStates ih h
      | setName text => exact .setName ih h
      | setLanguage language => exact .setLanguage ih h
      | addAncestor ancestor => exact .addAncestor ih (ihAttached ancestor rfl) h
      | inheritFrom parent => exact .inheritFrom ih (ihAttached parent rfl) h

def applyAll (cls : DeviceClass) : List ClassEdit → Except ModelError DeviceClass
  | [] => .ok cls
  | edit :: rest => do (← cls.apply edit).applyAll rest

/-- What joins the chain on the way has to be made by edits as well. -/
theorem Reachable.applyAll {cls after : DeviceClass} (h : cls.Reachable)
    {edits : List ClassEdit}
    (hattached : ∀ edit ∈ edits, ∀ ancestor, edit.attached? = some ancestor →
      ancestor.Reachable)
    (hedits : cls.applyAll edits = .ok after) : after.Reachable := by
  induction edits generalizing cls with
  | nil =>
      obtain rfl := Except.ok.inj hedits
      exact h
  | cons edit rest ih =>
      rw [List.forall_mem_cons] at hattached
      obtain ⟨next, hnext, hrest⟩ := Outcome.bind_eq_ok_iff.mp hedits
      exact ih (h.apply hattached.1 hnext) hattached.2 hrest

end DeviceClass

namespace ClassBody

/-- States have different names, and constraints are about members of the body. -/
structure Consistent (body : ClassBody) : Prop where
  states : (body.machine.states.map State.name).Nodup
  constraints : ∀ key ∈ body.machine.allowed.keys, body.hasMember key = true

variable {body after : ClassBody}

/-- The members and the machine are all that it is about. -/
theorem Consistent.congr (h : body.Consistent) (hnames : after.names = body.names)
    (hmachine : after.machine = body.machine) : after.Consistent := by
  constructor
  · rw [hmachine]
    exact h.states
  · intro key hkey
    rw [hmachine] at hkey
    rw [hasMember_iff, hnames, ← hasMember_iff]
    exact h.constraints key hkey

theorem hasMember_with_machine (body : ClassBody) (machine : StateMachine)
    (key : MemberKey) :
    ({ body with machine } : ClassBody).hasMember key = body.hasMember key := by
  rw [hasMember, names_with_machine, hasMember]

theorem Consistent.add {member : Member} (h : body.Consistent)
    (hadd : body.add member = .ok after) : after.Consistent := by
  have hmachine : after.machine = body.machine := by
    obtain ⟨-, -, rfl⟩ := add_eq_ok_iff.mp hadd
    exact (states_append body member).1
  constructor
  · rw [hmachine]
    exact h.states
  · intro key hkey
    rw [hmachine] at hkey
    exact (hasMember_of_add hadd key).mpr (Or.inr (h.constraints key hkey))

/-- The constraint of a removed member goes with it. -/
theorem Consistent.remove {removed : MemberKey} (h : body.Consistent)
    (hunique : body.UniqueNames) (hremove : body.remove removed = .ok after) :
    after.Consistent := by
  have hmachine : after.machine = body.machine.clearAllowed removed := by
    obtain ⟨-, rfl⟩ := remove_eq_ok_iff.mp hremove
    rfl
  constructor
  · rw [hmachine]
    exact h.states
  · intro key hkey
    rw [hmachine] at hkey
    obtain ⟨hkey, hne⟩ := OrderedMap.mem_keys_erase_iff.mp hkey
    exact (hasMember_of_remove hunique hremove key).mpr ⟨h.constraints key hkey, hne⟩

/-- The constraint of a renamed member goes by the new name. -/
theorem Consistent.rename {kind : MemberKind} {old new : String} (h : body.Consistent)
    (hunique : body.UniqueNames) (hrename : body.rename kind old new = .ok after) :
    after.Consistent := by
  obtain ⟨-, -, ⟨-, rfl⟩ | ⟨hnew, hafter⟩⟩ := rename_eq_ok_iff.mp hrename
  · exact h
  have hne : old ≠ new := by
    rintro rfl
    obtain ⟨-, hold, -⟩ := rename_eq_ok_iff.mp hrename
    exact hnew hold
  have hmachine : after.machine = body.machine.renameMember kind old new := by
    rw [hafter]
  constructor
  · rw [hmachine]
    exact h.states
  · intro key hkey
    rw [hmachine] at hkey
    rw [hasMember_of_rename hunique hne hrename]
    exact (OrderedMap.eq_or_mem_keys_of_renameKey hkey).imp_right
      (And.imp_left (h.constraints key))

theorem Consistent.edit {edit : MemberEdit} (h : body.Consistent)
    (hunique : body.UniqueNames) (hedit : body.edit edit = .ok after) :
    after.Consistent := by
  cases edit with
  | add member => exact h.add hedit
  | rename kind old new => exact h.rename hunique hedit
  | remove key => exact h.remove hunique hedit

theorem Consistent.with_machine {machine : StateMachine}
    (hstates : (machine.states.map State.name).Nodup)
    (hconstraints : ∀ key ∈ machine.allowed.keys, body.hasMember key = true) :
    ({ body with machine } : ClassBody).Consistent where
  states := hstates
  constraints := fun key hkey => by
    rw [hasMember_with_machine]
    exact hconstraints key hkey

theorem Consistent.addState {state : State} (h : body.Consistent)
    (hadd : body.addState state = .ok after) : after.Consistent := by
  obtain ⟨-, hnew, rfl⟩ := addState_eq_ok_iff.mp hadd
  refine .with_machine ?_ h.constraints
  rw [List.map_append, List.map_singleton, List.nodup_append_comm,
    List.singleton_append, List.nodup_cons]
  exact ⟨hnew, h.states⟩

theorem Consistent.removeState (h : body.Consistent) (name : String) :
    ({ body with machine := body.machine.removeState name } :
      ClassBody).Consistent := by
  rw [StateMachine.removeState]
  split
  · refine .with_machine (h.states.sublist (List.eraseP_sublist.map State.name)) ?_
    rw [OrderedMap.keys_mapValues]
    exact h.constraints
  · exact h

theorem Consistent.setAllowedStates {key : MemberKey} {names : List String}
    (h : body.Consistent) (hset : body.setAllowedStates key names = .ok after) :
    after.Consistent := by
  obtain ⟨hkey, rfl⟩ := setAllowedStates_eq_ok_iff.mp hset
  refine .with_machine h.states fun other hother => ?_
  rcases OrderedMap.mem_keys_insert_iff.mp hother with rfl | hother
  · exact hkey
  · exact h.constraints other hother

end ClassBody

/-! ## The chain -/

namespace DeviceClass

/-- Ancestors may join if they have the language, and names that are different and not
taken. -/
theorem checkChain_eq_ok_iff {name : String} {language : Language} {seen : List String}
    {incoming : List DeviceClass} :
    checkChain name language seen incoming = .ok () ↔
      (∀ ancestor ∈ incoming, ancestor.language = language ∧ ancestor.name ∉ seen) ∧
        (incoming.map (·.name)).Nodup := by
  induction incoming generalizing seen with
  | nil => simp [checkChain]
  | cons ancestor rest ih =>
      rw [checkChain, List.forall_mem_cons, List.map_cons, List.nodup_cons]
      by_cases hlanguage : ancestor.language = language
      · by_cases hseen : ancestor.name ∈ seen
        · simp [hlanguage, hseen]
        · rw [if_neg (not_not_intro hlanguage), if_neg hseen, ih]
          simp only [List.mem_cons, not_or, List.mem_map, not_exists, not_and]
          constructor
          · rintro ⟨hrest, hnodup⟩
            exact ⟨⟨⟨hlanguage, hseen⟩, fun other hother => ⟨(hrest other hother).1,
              (hrest other hother).2.2⟩⟩, fun other hother =>
                (hrest other hother).2.1, hnodup⟩
          · rintro ⟨⟨-, hrest⟩, hname, hnodup⟩
            exact ⟨fun other hother => ⟨(hrest other hother).1, hname other hother,
              (hrest other hother).2⟩, hnodup⟩
      · simp [hlanguage]

/-- All levels of the chain are consistent, and in the language of the class. -/
structure Consistent (cls : DeviceClass) : Prop where
  body : cls.toClassBody.Consistent
  ancestors : ∀ ancestor ∈ cls.ancestors, ancestor.toClassBody.Consistent
  languages : ∀ ancestor ∈ cls.ancestors, ancestor.language = cls.language

variable {cls after : DeviceClass}

theorem Consistent.chain (h : cls.Consistent) :
    ∀ level ∈ cls.chain, level.toClassBody.Consistent :=
  forall_mem_chain.mpr ⟨h.body, h.ancestors⟩

theorem Consistent.levels (h : cls.Consistent) :
    ∀ level ∈ cls.levels, level.Consistent :=
  forall_mem_levels.mpr ⟨h.body, h.ancestors⟩

theorem Consistent.ofText {text : String} {language : Language}
    (h : DeviceClass.ofText text language = .ok cls) : cls.Consistent := by
  obtain ⟨name, -, rfl⟩ := Outcome.map_eq_ok_iff.mp h
  exact ⟨⟨List.nodup_nil, by simp [OrderedMap.keys]⟩, by simp, by simp⟩

theorem Consistent.editBody {f : ClassBody → Except ModelError ClassBody}
    (h : cls.Consistent)
    (hf : ∀ body, f cls.toClassBody = .ok body →
      body.Consistent ∧ body.language = cls.language)
    (hedit : cls.editBody f = .ok after) : after.Consistent := by
  obtain ⟨body, hbody, rfl⟩ := editBody_eq_ok_iff.mp hedit
  obtain ⟨hconsistent, hlanguage⟩ := hf body hbody
  exact ⟨hconsistent, h.ancestors, fun ancestor hancestor =>
    (h.languages ancestor hancestor).trans hlanguage.symm⟩

theorem Consistent.setName {text : String} (h : cls.Consistent)
    (hset : cls.setName text = .ok after) : after.Consistent := by
  obtain ⟨name, -, rfl⟩ := Outcome.map_eq_ok_iff.mp hset
  exact ⟨h.body.congr (funext fun kind => by cases kind <;> rfl) rfl, h.ancestors,
    h.languages⟩

/-- A class with a parent is in its language already. -/
theorem Consistent.setLanguage {language : Language} (h : cls.Consistent)
    (hset : cls.setLanguage language = .ok after) : after.Consistent := by
  have hancestors : ∀ ancestor ∈ cls.ancestors, ancestor.language = language := by
    intro ancestor hancestor
    rw [DeviceClass.setLanguage, parent?] at hset
    obtain ⟨parent, rest, hchain⟩ :=
      List.exists_cons_of_ne_nil (List.ne_nil_of_mem hancestor)
    have hparent := h.languages parent (by simp [hchain])
    by_cases hlanguage : parent.language = language
    · rw [h.languages ancestor hancestor, ← hparent, hlanguage]
    · simp [hchain, hlanguage] at hset
  obtain rfl := eq_of_setLanguage hset
  exact ⟨h.body.congr (funext fun kind => by cases kind <;> rfl) rfl, h.ancestors,
    hancestors⟩

theorem Consistent.addAncestor {ancestor : DeviceClass} (h : cls.Consistent)
    (hancestor : ancestor.Consistent) (hadd : cls.addAncestor ancestor = .ok after) :
    after.Consistent := by
  obtain ⟨⟨⟩, hcheck, rfl⟩ := Outcome.map_eq_ok_iff.mp hadd
  refine ⟨h.body, ?_, ?_⟩
  · exact List.forall_mem_append.mpr ⟨h.ancestors, hancestor.chain⟩
  · exact List.forall_mem_append.mpr
      ⟨h.languages, fun level hlevel =>
        ((checkChain_eq_ok_iff.mp hcheck).1 level hlevel).1⟩

theorem Consistent.inheritFrom {parent : DeviceClass} (h : cls.Consistent)
    (hparent : parent.Consistent) (hinherit : cls.inheritFrom parent = .ok after) :
    after.Consistent := by
  obtain ⟨⟨⟩, hcheck, rfl⟩ := Outcome.map_eq_ok_iff.mp hinherit
  exact ⟨h.body, hparent.chain,
    fun level hlevel => ((checkChain_eq_ok_iff.mp hcheck).1 level hlevel).1⟩

/-- An edit keeps a class consistent. -/
theorem Consistent.apply {edit : ClassEdit} (h : cls.Consistent)
    (hunique : cls.UniqueNames)
    (hattached : ∀ ancestor, edit.attached? = some ancestor → ancestor.Consistent)
    (happly : cls.apply edit = .ok after) : after.Consistent := by
  cases edit with
  | members edit =>
      refine h.editBody (f := (·.edit edit)) (fun body hbody => ?_) happly
      exact ⟨h.body.edit hunique hbody, (ClassBody.language_revision_of_edit hbody).1⟩
  | addState state =>
      refine h.editBody (f := (·.addState state)) (fun body hbody => ?_) happly
      refine ⟨h.body.addState hbody, ?_⟩
      obtain ⟨-, -, rfl⟩ := ClassBody.addState_eq_ok_iff.mp hbody
      rfl
  | removeState name =>
      obtain rfl := Except.ok.inj happly
      exact ⟨h.body.removeState name, h.ancestors, h.languages⟩
  | setAllowedStates key names =>
      refine h.editBody (f := (·.setAllowedStates key names))
        (fun body hbody => ?_) happly
      refine ⟨h.body.setAllowedStates hbody, ?_⟩
      obtain ⟨-, rfl⟩ := ClassBody.setAllowedStates_eq_ok_iff.mp hbody
      rfl
  | setName text => exact h.setName happly
  | setLanguage language => exact h.setLanguage happly
  | addAncestor ancestor => exact h.addAncestor (hattached ancestor rfl) happly
  | inheritFrom parent => exact h.inheritFrom (hattached parent rfl) happly

theorem Reachable.consistent (h : cls.Reachable) : cls.Consistent := by
  induction h with
  | ofText h => exact .ofText h
  | apply hcls _ h ih ihAttached =>
      exact ih.apply hcls.checked.named.1.unique ihAttached h

theorem Consistent.hasMember_of_constraint (h : cls.Consistent) {key : MemberKey}
    (hkey : key ∈ cls.rawInterface.allowed.keys) :
    cls.rawInterface.hasMember key = true := by
  obtain ⟨level, hlevel, hkey⟩ := mem_keys_nearestConstraints_iff.mp hkey
  exact hasMember_rawInterface.mpr ⟨level, hlevel,
    (h.levels level hlevel).constraints key hkey⟩

/-- Constraints on members that are there are never reported for the member. -/
theorem unknownMember_not_mem_constraintIssues {owner : String}
    {hasMember : MemberKey → Bool} {states : OrderedMap String State}
    {constraints : OrderedMap MemberKey (List String)}
    (hconstraints : ∀ key ∈ constraints.keys, hasMember key = true) (key : MemberKey) :
    .unknownMember key ∉ constraintIssues owner hasMember states constraints := by
  intro h
  obtain ⟨e, he, h⟩ := List.mem_flatMap.mp h
  rw [if_pos (hconstraints e.1 (List.mem_map_of_mem he))] at h
  obtain ⟨state, -, hstate⟩ := List.mem_map.mp h
  cases hstate

/-- A class in reach of the edits has good names, constraints on its own members and one
language along its chain, so it can be resolved, with no constraint on an unknown
member. -/
theorem Reachable.resolves (h : cls.Reachable) :
    cls.toClassBody.Named ∧ cls.toClassBody.Consistent ∧
      (∀ ancestor ∈ cls.ancestors, ancestor.language = cls.language) ∧
      ∃ i issues, cls.resolve = .ok (i, issues) ∧
        ∀ key, .unknownMember key ∉ issues := by
  have hnamed := h.checked.named
  have hconsistent := h.consistent
  have hresolve := resolve_eq_of_levels hconsistent.languages
    fun level hlevel => (hnamed.levels level hlevel).unique
  refine ⟨hnamed.1, hconsistent.body, hconsistent.languages, _, _, hresolve,
    fun key hkey => ?_⟩
  rcases List.mem_append.mp hkey with hkey | hkey
  · have hhiding := isHiding_of_mem_hidings hkey
    simp [InterfaceIssue.isHiding, InterfaceIssue.kind] at hhiding
  · exact unknownMember_not_mem_constraintIssues
      (fun _ => hconsistent.hasMember_of_constraint) key hkey

def haltingAxis : DeviceClass where
  name := "Axis"
  language := .java
  commands := [{ name := "Halt" }]
  machine :=
    { states := [{ name := "MOVING" }]
      allowed := .ofList [(⟨.command, "Halt"⟩, ["MOVING"])] }

theorem reachable_haltingAxis : haltingAxis.Reachable := by
  have hstart : DeviceClass.ofText "axis" .java =
      .ok { name := "Axis", language := .java } := rfl
  have hedits : DeviceClass.applyAll { name := "Axis", language := .java }
      [.addState { name := "MOVING" }, .members (.add (.command { name := "Stop" })),
        .setAllowedStates ⟨.command, "Stop"⟩ ["MOVING"],
        .members (.rename .command "Stop" "Halt")] = .ok haltingAxis := rfl
  exact (Reachable.ofText hstart).applyAll (by simp [ClassEdit.attached?]) hedits

/-- An axis with a brake that is for use while it moves. -/
def brakedMotor : DeviceClass where
  name := "Motor"
  language := .java
  commands := [{ name := "Brake" }]
  machine := { allowed := .ofList [(⟨.command, "Brake"⟩, ["MOVING"])] }
  ancestors := [haltingAxis]

theorem reachable_brakedMotor : brakedMotor.Reachable := by
  have hstart : DeviceClass.ofText "motor" .python =
      .ok { name := "Motor", language := .python } :=
    rfl
  have hedits : DeviceClass.applyAll { name := "Motor", language := .python }
      [.setLanguage .java, .inheritFrom haltingAxis, .addState { name := "OFF" },
        .members (.add (.command { name := "Brake" })),
        .setAllowedStates ⟨.command, "Brake"⟩ ["MOVING", "OFF"], .removeState "OFF"] =
      .ok brakedMotor := rfl
  exact (Reachable.ofText hstart).applyAll
    (by simpa [ClassEdit.attached?] using reachable_haltingAxis) hedits

theorem Reachable.resolves_brakedMotor :
    brakedMotor.Reachable ∧ brakedMotor.toClassBody.Named ∧
      brakedMotor.toClassBody.Consistent ∧
      (∀ ancestor ∈ brakedMotor.ancestors, ancestor.language = brakedMotor.language) ∧
      ∃ i issues, brakedMotor.resolve = .ok (i, issues) ∧
        ∀ key, .unknownMember key ∉ issues :=
  ⟨reachable_brakedMotor, Reachable.resolves reachable_brakedMotor⟩

end DeviceClass

end DeviceForge
