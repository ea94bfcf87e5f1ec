import DeviceForge.Proofs.Device.Editing

/-!
# Classes made by checked edits

Whatever is edited through the checks, the names of a class and of all its
ancestors are identifiers, and the names of one kind are all different.  Texts
and settings of the members are free.
-/

namespace DeviceForge

namespace ClassBody

/-- The names of the body are identifiers, and unique for each kind of member. -/
structure Named (body : ClassBody) : Prop where
  name : Name.isIdentifier body.name = true
  members : ∀ kind, ∀ name ∈ body.names kind, Name.isIdentifier name = true
  states : ∀ state ∈ body.machine.states, Name.isIdentifier state.name = true
  unique : body.UniqueNames

/-- The bodies differ at most in what is no name. -/
structure SameNames (body other : ClassBody) : Prop where
  name : body.name = other.name
  language : body.language = other.language
  members : body.names = other.names
  states : body.machine.states.map State.name = other.machine.states.map State.name

variable {body after : ClassBody}

/-- Only names count, so a change of anything else keeps them good. -/
theorem Named.congr (h : body.Named) (hname : Name.isIdentifier after.name = true)
    (hmembers : after.names = body.names)
    (hstates : after.machine.states.map State.name =
      body.machine.states.map State.name) :
    after.Named := by
  constructor
  · exact hname
  · rw [hmembers]
    exact h.members
  · intro state hstate
    have hmem := List.mem_map_of_mem (f := State.name) hstate
    rw [hstates] at hmem
    obtain ⟨old, hold, hsame⟩ := List.mem_map.mp hmem
    rw [← hsame]
    exact h.states old hold
  · rw [UniqueNames, hmembers]
    exact h.unique

theorem states_append (body : ClassBody) (member : Member) :
    (body.append member).machine = body.machine ∧
    (body.append member).name = body.name := by
  cases member <;> exact ⟨rfl, rfl⟩

theorem name_mapMembers (body : ClassBody) (kind : MemberKind)
    (f : {α : Type} → [Declaration α] → List α → List α) :
    (body.mapMembers kind f).name = body.name := by
  cases kind <;> rfl

/-- The new name has been checked, and was compared with those of its kind. -/
theorem Named.add {member : Member} (h : body.Named)
    (hadd : body.add member = .ok after) :
    after.Named := by
  obtain ⟨hname, -, rfl⟩ := add_eq_ok_iff.mp hadd
  obtain ⟨hmachine, hbodyName⟩ := states_append body member
  constructor
  · rw [hbodyName]
    exact h.name
  · intro kind name hmem
    rw [names_append] at hmem
    split at hmem
    · rcases List.mem_append.mp hmem with hmem | hmem
      · exact h.members kind name hmem
      · rw [List.mem_singleton.mp hmem]
        exact hname
    · exact h.members kind name hmem
  · rw [hmachine]
    exact h.states
  · exact uniqueNames_of_add h.unique hadd

theorem Named.remove {key : MemberKey} (h : body.Named)
    (hremove : body.remove key = .ok after) : after.Named := by
  obtain ⟨-, rfl⟩ := remove_eq_ok_iff.mp hremove
  constructor
  · exact (name_mapMembers ..).symm ▸ h.name
  · intro kind name hmem
    rw [names_with_machine, names_removeFirst] at hmem
    split at hmem
    · exact h.members kind name (List.mem_of_mem_erase hmem)
    · exact h.members kind name hmem
  · exact h.states
  · exact uniqueNames_of_remove h.unique hremove

/-- Renaming checks the new name and looks for it among those of its kind. -/
theorem Named.rename {kind : MemberKind} {old new : String} (h : body.Named)
    (hrename : body.rename kind old new = .ok after) : after.Named := by
  obtain ⟨hnew, hold, ⟨-, rfl⟩ | ⟨-, rfl⟩⟩ := rename_eq_ok_iff.mp hrename
  · exact h
  constructor
  · exact (name_mapMembers ..).symm ▸ h.name
  · intro other name hmem
    rw [names_with_machine, names_renameFirst] at hmem
    split at hmem
    · next hkind =>
        subst hkind
        rcases (mem_replace_iff (h.unique other) hold).mp hmem with rfl | ⟨hmem, -⟩
        · exact hnew
        · exact h.members other name hmem
    · exact h.members other name hmem
  · exact h.states
  · exact uniqueNames_of_rename h.unique hrename

theorem Named.edit {edit : MemberEdit} (h : body.Named)
    (hedit : body.edit edit = .ok after) :
    after.Named := by
  cases edit with
  | add member => exact h.add hedit
  | rename kind old new => exact h.rename hedit
  | remove key => exact h.remove hedit

/-- Only the state machine changes, and the names of its states are checked. -/
theorem Named.with_machine (h : body.Named) {machine : StateMachine}
    (hstates : ∀ state ∈ machine.states, Name.isIdentifier state.name = true) :
    ({ body with machine } : ClassBody).Named := by
  constructor
  · exact h.name
  · intro kind name hmem
    rw [names_with_machine] at hmem
    exact h.members kind name hmem
  · exact hstates
  · intro kind
    rw [names_with_machine]
    exact h.unique kind

theorem Named.addState {state : State} (h : body.Named)
    (hadd : body.addState state = .ok after) : after.Named := by
  obtain ⟨hname, -, rfl⟩ := addState_eq_ok_iff.mp hadd
  apply h.with_machine
  intro other hother
  rcases List.mem_append.mp hother with hother | hother
  · exact h.states other hother
  · rw [List.mem_singleton.mp hother]
    exact hname

theorem Named.setAllowedStates {key : MemberKey} {names : List String} (h : body.Named)
    (hset : body.setAllowedStates key names = .ok after) : after.Named := by
  obtain ⟨-, rfl⟩ := setAllowedStates_eq_ok_iff.mp hset
  exact h.with_machine h.states

end ClassBody

namespace DeviceClass

/-- What can be made by the checked operations.  What is no name may be changed
freely. -/
inductive Checked : DeviceClass → Prop
  | ofText {text : String} {language : Language} {cls : DeviceClass}
      (h : ofText text language = .ok cls) : Checked cls
  | edit {cls after : DeviceClass} (hcls : Checked cls) {edit : MemberEdit}
      (h : cls.edit edit = .ok after) : Checked after
  | addState {cls after : DeviceClass} (hcls : Checked cls) {state : State}
      (h : cls.addState state = .ok after) : Checked after
  | removeState {cls : DeviceClass} (hcls : Checked cls) (name : String) :
      Checked (cls.removeState name)
  | setAllowedStates {cls after : DeviceClass} (hcls : Checked cls) {key : MemberKey}
      {names : List String} (h : cls.setAllowedStates key names = .ok after) :
      Checked after
  | setName {cls after : DeviceClass} (hcls : Checked cls) {text : String}
      (h : cls.setName text = .ok after) : Checked after
  | setLanguage {cls after : DeviceClass} (hcls : Checked cls) {language : Language}
      (h : cls.setLanguage language = .ok after) : Checked after
  | addAncestor {cls ancestor after : DeviceClass} (hcls : Checked cls)
      (hancestor : Checked ancestor) (h : cls.addAncestor ancestor = .ok after) :
      Checked after
  | inheritFrom {cls parent after : DeviceClass} (hcls : Checked cls)
      (hparent : Checked parent) (h : cls.inheritFrom parent = .ok after) :
      Checked after
  | describe {cls : DeviceClass} (hcls : Checked cls) {body : ClassBody}
      (h : body.SameNames cls.toClassBody) : Checked { cls with toClassBody := body }

/-- All bodies along the chain have good names. -/
def Named (cls : DeviceClass) : Prop :=
  cls.toClassBody.Named ∧ ∀ ancestor ∈ cls.ancestors, ancestor.toClassBody.Named

theorem Named.editBody {cls after : DeviceClass}
    {f : ClassBody → Except ModelError ClassBody} (h : cls.Named)
    (hf : ∀ body, f cls.toClassBody = .ok body → body.Named)
    (hedit : cls.editBody f = .ok after) : after.Named := by
  obtain ⟨body, hbody, rfl⟩ := editBody_eq_ok_iff.mp hedit
  exact ⟨hf body hbody, h.2⟩

theorem forall_mem_chain {cls : DeviceClass} {p : DeviceClass → Prop} :
    (∀ level ∈ cls.chain, p level) ↔ p cls ∧ ∀ ancestor ∈ cls.ancestors, p ancestor :=
  List.forall_mem_cons

theorem forall_mem_levels {cls : DeviceClass} {p : ClassBody → Prop} :
    (∀ level ∈ cls.levels, p level) ↔
      p cls.toClassBody ∧ ∀ ancestor ∈ cls.ancestors, p ancestor.toClassBody := by
  rw [levels, List.forall_mem_append, List.forall_mem_singleton, and_comm]
  simp

theorem Named.chain {cls : DeviceClass} (h : cls.Named) :
    ∀ level ∈ cls.chain, level.toClassBody.Named :=
  forall_mem_chain.mpr h

theorem Named.levels {cls : DeviceClass} (h : cls.Named) :
    ∀ level ∈ cls.levels, level.Named :=
  forall_mem_levels.mpr h

theorem Named.ofText {text : String} {language : Language} {cls : DeviceClass}
    (h : DeviceClass.ofText text language = .ok cls) : cls.Named := by
  obtain ⟨name, hname, rfl⟩ := Outcome.map_eq_ok_iff.mp h
  refine ⟨⟨Name.isIdentifier_of_ofText hname, ?_, by simp, ?_⟩, by simp⟩
  · intro kind member hmem
    cases kind <;> simp [ClassBody.names] at hmem
  · intro kind
    cases kind <;> exact List.nodup_nil

theorem Named.removeState {cls : DeviceClass} (h : cls.Named) (name : String) :
    (cls.removeState name).Named := by
  refine ⟨h.1.with_machine fun state hstate => ?_, h.2⟩
  rw [StateMachine.removeState] at hstate
  split at hstate
  · exact h.1.states state (List.mem_of_mem_eraseP hstate)
  · exact h.1.states state hstate

theorem eq_of_setLanguage {cls after : DeviceClass} {language : Language}
    (h : cls.setLanguage language = .ok after) : after = { cls with language } := by
  rw [setLanguage] at h
  split at h
  · split at h
    · exact absurd h (by simp)
    · exact (Except.ok.inj h).symm
  · exact (Except.ok.inj h).symm

/-- Induction on how the class was made. Each checked operation keeps good names good,
and all others leave names alone. -/
theorem Checked.named {cls : DeviceClass} (h : cls.Checked) : cls.Named := by
  induction h with
  | ofText h => exact Named.ofText h
  | edit _ h ih => exact ih.editBody (fun body => ih.1.edit) h
  | addState _ h ih => exact ih.editBody (fun body => ih.1.addState) h
  | removeState _ name ih => exact ih.removeState name
  | setAllowedStates _ h ih => exact ih.editBody (fun body => ih.1.setAllowedStates) h
  | setName _ h ih =>
      obtain ⟨name, hname, rfl⟩ := Outcome.map_eq_ok_iff.mp h
      exact ⟨ih.1.congr (Name.isIdentifier_of_ofText hname)
        (funext fun kind => by cases kind <;> rfl) rfl, ih.2⟩
  | @setLanguage cls _ _ language h ih =>
      obtain rfl := eq_of_setLanguage h
      exact ⟨ih.1.congr ih.1.name (funext fun kind => by cases kind <;> rfl) rfl, ih.2⟩
  | addAncestor _ _ h ih ihAncestor =>
      obtain ⟨-, -, rfl⟩ := Outcome.map_eq_ok_iff.mp h
      refine ⟨ih.1, fun level hlevel => ?_⟩
      rcases List.mem_append.mp hlevel with hlevel | hlevel
      · exact ih.2 level hlevel
      · exact ihAncestor.chain level hlevel
  | inheritFrom _ _ h ih ihParent =>
      obtain ⟨-, -, rfl⟩ := Outcome.map_eq_ok_iff.mp h
      exact ⟨ih.1, ihParent.chain⟩
  | describe _ h ih =>
      exact ⟨ih.1.congr (by rw [h.name]; exact ih.1.name) h.members h.states, ih.2⟩

end DeviceClass

end DeviceForge
