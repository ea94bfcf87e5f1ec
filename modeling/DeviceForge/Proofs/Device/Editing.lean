import DeviceForge.Device.Editing
import DeviceForge.Proofs.Name

/-!
# What an accepted edit does

An edit of the members that is accepted has met its checks, and it changes the
names of one kind: it appends one, takes the first one of a name away, or puts
another name in its place.
-/

namespace DeviceForge

section Lists

theorem replace_cons_of_ne {first old : String} (h : first ≠ old) (new : String)
    (rest : List String) :
    (first :: rest).replace old new = first :: rest.replace old new := by
  rw [List.replace_cons, beq_eq_false_iff_ne.mpr (Ne.symm h)]

variable {α : Type} [Declaration α]

theorem map_name_removeFirst (name : String) (members : List α) :
    (removeFirst name members).map Declaration.name =
      (members.map Declaration.name).erase name := by
  rw [removeFirst, List.erase_eq_eraseP', List.eraseP_map]
  rfl

/-- Renaming a member replaces its name in the list of names. -/
theorem map_name_renameFirst
    (hname : ∀ (m : α) new, Declaration.name (Declaration.withName m new) = new)
    (old new : String) (members : List α) :
    (renameFirst old new members).map Declaration.name =
      (members.map Declaration.name).replace old new := by
  induction members with
  | nil => rfl
  | cons m rest ih =>
      by_cases hm : Declaration.name m = old
      · simp [renameFirst, hm, hname]
      · simp [renameFirst, hm, ih, replace_cons_of_ne hm]

/-- Where names are unique, the old one is gone once it is replaced. -/
theorem mem_replace_iff {names : List String} (hnames : names.Nodup) {old new : String}
    (hold : old ∈ names) {name : String} :
    name ∈ names.replace old new ↔ name = new ∨ (name ∈ names ∧ name ≠ old) := by
  induction names with
  | nil => simp at hold
  | cons first rest ih =>
      rw [List.nodup_cons] at hnames
      by_cases hfirst : first = old
      · subst hfirst
        have hrest : name ∈ rest → name ≠ first := fun hmem heq => hnames.1 (heq ▸ hmem)
        rw [List.replace_cons_self, List.mem_cons, List.mem_cons]
        tauto
      · have hmem : old ∈ rest := (List.mem_cons.mp hold).resolve_left (Ne.symm hfirst)
        have hhead : name = first → name ≠ old := fun heq => heq ▸ hfirst
        rw [replace_cons_of_ne hfirst, List.mem_cons, List.mem_cons, ih hnames.2 hmem]
        tauto

/-- A new name in place of an old one keeps names unique. -/
theorem nodup_replace {names : List String} (hnames : names.Nodup) {old new : String}
    (hnew : new ∉ names) : (names.replace old new).Nodup := by
  induction names with
  | nil => exact List.nodup_nil
  | cons first rest ih =>
      rw [List.nodup_cons] at hnames
      rw [List.mem_cons, not_or] at hnew
      by_cases hfirst : first = old
      · subst hfirst
        rw [List.replace_cons_self, List.nodup_cons]
        exact ⟨hnew.2, hnames.2⟩
      · rw [replace_cons_of_ne hfirst, List.nodup_cons]
        refine ⟨fun hmem => ?_, ih hnames.2 hnew.2⟩
        by_cases hold : old ∈ rest
        · rcases (mem_replace_iff hnames.2 hold).mp hmem with heq | ⟨hmem, -⟩
          · exact hnew.1 heq.symm
          · exact hnames.1 hmem
        · rw [List.replace_of_not_mem hold] at hmem
          exact hnames.1 hmem

end Lists

theorem StateMachine.hasState_iff {m : StateMachine} {name : String} :
    m.hasState name = true ↔ name ∈ m.states.map State.name := by
  simp [hasState]

namespace ClassBody

theorem hasMember_iff {body : ClassBody} {key : MemberKey} :
    body.hasMember key = true ↔ key.name ∈ body.names key.kind := by
  simp [hasMember]

theorem names_append (body : ClassBody) (member : Member) (kind : MemberKind) :
    (body.append member).names kind =
      if kind = member.kind then body.names kind ++ [member.name]
        else body.names kind := by
  cases member <;> cases kind <;> simp [append, names, Member.kind, Member.name] <;> rfl

theorem names_removeFirst (body : ClassBody) (key : MemberKey) (kind : MemberKind) :
    (body.mapMembers key.kind (removeFirst key.name)).names kind =
      if kind = key.kind then (body.names kind).erase key.name
        else body.names kind := by
  obtain ⟨changed, name⟩ := key
  cases changed <;> cases kind <;> simp [mapMembers, names, map_name_removeFirst]

theorem names_renameFirst (body : ClassBody) (changed : MemberKind) (old new : String)
    (kind : MemberKind) :
    (body.mapMembers changed (renameFirst old new)).names kind =
      if kind = changed then (body.names kind).replace old new
        else body.names kind := by
  cases changed <;> cases kind <;> simp [mapMembers, names] <;>
    exact map_name_renameFirst (fun _ _ => rfl) old new _

theorem names_with_machine (body : ClassBody) (machine : StateMachine)
    (kind : MemberKind) :
    ({ body with machine } : ClassBody).names kind = body.names kind := by
  cases kind <;> rfl

/-- A member is added exactly if its name is valid and new for its kind. -/
theorem add_eq_ok_iff {body after : ClassBody} {member : Member} :
    body.add member = .ok after ↔
      Name.isIdentifier member.name = true ∧ member.name ∉ body.names member.kind ∧
        after = body.append member := by
  rw [add, Outcome.bind_eq_ok_iff, ← @hasMember_iff body ⟨member.kind, member.name⟩]
  simp only [Name.check_eq_ok_iff, exists_const]
  by_cases h : body.hasMember ⟨member.kind, member.name⟩ = true
  · simp only [h, if_true, Outcome.bind_eq_ok_iff, Outcome.throw_ne_ok,
      not_true_eq_false, false_and, and_false, exists_false]
  · simp only [h, Bool.false_eq_true, if_false, Outcome.pure_eq_ok_iff,
      not_false_eq_true, true_and]

/-- A member is removed exactly if it is there, and its constraint with it. -/
theorem remove_eq_ok_iff {body after : ClassBody} {key : MemberKey} :
    body.remove key = .ok after ↔
      key.name ∈ body.names key.kind ∧
        after = { body.mapMembers key.kind (removeFirst key.name) with
          machine := body.machine.clearAllowed key } := by
  rw [remove, ← hasMember_iff]
  by_cases h : body.hasMember key = true
  · simp [h, eq_comm]
  · simp [h]

/-- A member is renamed exactly if it is there and its new name is valid and free.
Renaming it to its own name changes nothing. -/
theorem rename_eq_ok_iff {body after : ClassBody} {kind : MemberKind}
    {old new : String} :
    body.rename kind old new = .ok after ↔
      Name.isIdentifier new = true ∧ old ∈ body.names kind ∧
        (old = new ∧ after = body ∨
          new ∉ body.names kind ∧
            after = { body.mapMembers kind (renameFirst old new) with
              machine := body.machine.renameMember kind old new }) := by
  rw [rename, Outcome.bind_eq_ok_iff, ← @hasMember_iff body ⟨kind, old⟩,
    ← @hasMember_iff body ⟨kind, new⟩]
  simp only [Name.check_eq_ok_iff, exists_const]
  by_cases hold : body.hasMember ⟨kind, old⟩ = true
  · by_cases hsame : old = new
    · subst hsame
      simp only [hold, Bool.not_true, Bool.false_eq_true, if_false, if_true,
        Outcome.pure_eq_ok_iff, true_and, not_true_eq_false, false_and, or_false]
    · by_cases hnew : body.hasMember ⟨kind, new⟩ = true
      · simp only [hold, hsame, hnew, Bool.not_true, Bool.false_eq_true, if_false,
          if_true, Outcome.bind_eq_ok_iff, Outcome.throw_ne_ok, not_true_eq_false,
          false_and, and_false, exists_false, or_false]
      · simp only [hold, hsame, hnew, Bool.not_true, Bool.false_eq_true, if_false,
          Outcome.pure_eq_ok_iff, not_false_eq_true, true_and, false_and, false_or]
  · simp only [hold, Bool.not_false, if_true, Outcome.bind_eq_ok_iff,
      Outcome.throw_ne_ok, false_and, and_false, exists_false, Bool.false_eq_true]

/-- A state is declared exactly if its name is valid and new. -/
theorem addState_eq_ok_iff {body after : ClassBody} {state : State} :
    body.addState state = .ok after ↔
      Name.isIdentifier state.name = true ∧
      state.name ∉ body.machine.states.map State.name ∧
        after = { body with machine := { body.machine with
          states := body.machine.states ++ [state] } } := by
  rw [addState, Outcome.bind_eq_ok_iff, ← StateMachine.hasState_iff]
  simp only [Name.check_eq_ok_iff, exists_const]
  by_cases h : body.machine.hasState state.name = true
  · simp only [StateMachine.addState?, h, if_true, Outcome.throw_ne_ok,
      not_true_eq_false, false_and, and_false]
  · simp only [StateMachine.addState?, h, Bool.false_eq_true, if_false,
      Outcome.pure_eq_ok_iff, not_false_eq_true, true_and]

/-- Only members that are there can be constrained. The states are not looked at. -/
theorem setAllowedStates_eq_ok_iff {body after : ClassBody} {key : MemberKey}
    {names : List String} :
    body.setAllowedStates key names = .ok after ↔
      body.hasMember key = true ∧
        after = { body with machine := body.machine.setAllowed key names } := by
  rw [ClassBody.setAllowedStates]
  by_cases h : body.hasMember key = true
  · rw [if_pos h, Except.ok.injEq, eq_comm, and_iff_right h]
  · simp [h]

def UniqueNames (body : ClassBody) : Prop :=
  ∀ kind, (body.names kind).Nodup

variable {body after : ClassBody}

/-- An addition makes one member more. -/
theorem hasMember_of_add {member : Member} (h : body.add member = .ok after)
    (key : MemberKey) :
    after.hasMember key = true ↔
      key = ⟨member.kind, member.name⟩ ∨ body.hasMember key = true := by
  obtain ⟨-, -, rfl⟩ := add_eq_ok_iff.mp h
  obtain ⟨kind, name⟩ := key
  rw [hasMember_iff, hasMember_iff, names_append]
  by_cases hkind : kind = member.kind
  · simp [hkind, or_comm]
  · simp [hkind]

/-- The name of an added member is compared with those of its kind. -/
theorem uniqueNames_of_add {member : Member} (hbody : body.UniqueNames)
    (h : body.add member = .ok after) : after.UniqueNames := by
  obtain ⟨-, hnew, rfl⟩ := add_eq_ok_iff.mp h
  intro kind
  rw [names_append]
  split
  · next hkind =>
      subst hkind
      rw [List.nodup_append_comm, List.singleton_append, List.nodup_cons]
      exact ⟨hnew, hbody _⟩
  · exact hbody kind

/-- A removal makes one member less. -/
theorem hasMember_of_remove {removed : MemberKey} (hbody : body.UniqueNames)
    (h : body.remove removed = .ok after) (key : MemberKey) :
    after.hasMember key = true ↔ body.hasMember key = true ∧ key ≠ removed := by
  obtain ⟨-, rfl⟩ := remove_eq_ok_iff.mp h
  obtain ⟨kind, name⟩ := key
  obtain ⟨gone, goneName⟩ := removed
  rw [hasMember_iff, hasMember_iff, names_with_machine,
    names_removeFirst body ⟨gone, goneName⟩]
  by_cases hkind : kind = gone
  · rw [if_pos hkind, (hbody kind).mem_erase_iff]
    simp [hkind, and_comm]
  · simp [hkind]

theorem uniqueNames_of_remove {removed : MemberKey} (hbody : body.UniqueNames)
    (h : body.remove removed = .ok after) : after.UniqueNames := by
  obtain ⟨-, rfl⟩ := remove_eq_ok_iff.mp h
  intro kind
  rw [names_with_machine, names_removeFirst]
  split
  · exact (hbody kind).erase _
  · exact hbody kind

/-- A renaming changes which key one member has, and no other. -/
theorem hasMember_of_rename {kind : MemberKind} {old new : String}
    (hbody : body.UniqueNames) (hne : old ≠ new)
    (h : body.rename kind old new = .ok after) (key : MemberKey) :
    after.hasMember key = true ↔
      key = ⟨kind, new⟩ ∨ (body.hasMember key = true ∧ key ≠ ⟨kind, old⟩) := by
  obtain ⟨-, hold, ⟨heq, -⟩ | ⟨-, rfl⟩⟩ := rename_eq_ok_iff.mp h
  · exact absurd heq hne
  · obtain ⟨other, name⟩ := key
    rw [hasMember_iff, hasMember_iff, names_with_machine, names_renameFirst]
    by_cases hkind : other = kind
    · subst hkind
      rw [if_pos rfl, mem_replace_iff (hbody other) hold]
      simp
    · simp [hkind]

/-- The new name of a member is compared with those of its kind. -/
theorem uniqueNames_of_rename {kind : MemberKind} {old new : String}
    (hbody : body.UniqueNames) (h : body.rename kind old new = .ok after) :
    after.UniqueNames := by
  obtain ⟨-, -, ⟨-, rfl⟩ | ⟨hnew, rfl⟩⟩ := rename_eq_ok_iff.mp h
  · exact hbody
  · intro other
    rw [names_with_machine, names_renameFirst]
    split
    · next hkind =>
        subst hkind
        exact nodup_replace (hbody other) hnew
    · exact hbody other

end ClassBody

inductive MemberEdit where
  | add (member : Member)
  | rename (kind : MemberKind) (old new : String)
  | remove (key : MemberKey)

def ClassBody.edit (body : ClassBody) : MemberEdit → Except ModelError ClassBody
  | .add member => body.add member
  | .rename kind old new => body.rename kind old new
  | .remove key => body.remove key

/-- An edit of the members changes nothing about the language and the revision. -/
theorem ClassBody.language_revision_of_edit {body after : ClassBody} {edit : MemberEdit}
    (h : body.edit edit = .ok after) :
    after.language = body.language ∧ after.revision = body.revision := by
  cases edit with
  | add member =>
      obtain ⟨-, -, rfl⟩ := add_eq_ok_iff.mp h
      cases member <;> exact ⟨rfl, rfl⟩
  | rename kind old new =>
      obtain ⟨-, -, ⟨-, rfl⟩ | ⟨-, rfl⟩⟩ := rename_eq_ok_iff.mp h
      · exact ⟨rfl, rfl⟩
      · cases kind <;> exact ⟨rfl, rfl⟩
  | remove key =>
      obtain ⟨-, rfl⟩ := remove_eq_ok_iff.mp h
      obtain ⟨kind, name⟩ := key
      cases kind <;> exact ⟨rfl, rfl⟩

namespace DeviceClass

def edit (cls : DeviceClass) (edit : MemberEdit) : Except ModelError DeviceClass :=
  cls.editBody (·.edit edit)

theorem editBody_eq_ok_iff {cls after : DeviceClass}
    {f : ClassBody → Except ModelError ClassBody} :
    cls.editBody f = .ok after ↔
      ∃ body, f cls.toClassBody = .ok body ∧
        after = { cls with toClassBody := body } := by
  rw [editBody, Outcome.map_eq_ok_iff]
  simp only [eq_comm]

end DeviceClass

end DeviceForge
