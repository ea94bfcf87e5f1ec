import DeviceForge.Proofs.Device.Reachable

/-!
# Renaming a member there and back

A renamed member stays where it is declared, and so does its constraint, which
goes by a key with the new name.  Nothing else of the class changes.  The old
name is free then, and no constraint is left under it, so renaming the member
back gives the class that there was before.
-/

namespace DeviceForge

/-- The name of a member can be changed, and changed back. -/
class LawfulDeclaration (α : Type) [Declaration α] : Prop where
  name_withName (m : α) (new : String) :
    Declaration.name (Declaration.withName m new) = new
  withName_withName (m : α) (new : String) :
    Declaration.withName (Declaration.withName m new) (Declaration.name m) = m

instance : LawfulDeclaration Attribute :=
  ⟨fun _ _ => rfl, fun _ _ => rfl⟩

instance : LawfulDeclaration Command :=
  ⟨fun _ _ => rfl, fun _ _ => rfl⟩

instance : LawfulDeclaration Property :=
  ⟨fun _ _ => rfl, fun _ _ => rfl⟩

instance : LawfulDeclaration Pipe :=
  ⟨fun _ _ => rfl, fun _ _ => rfl⟩

section Lists

variable {α : Type} [Declaration α] {old new : String} {members : List α}

/-- The member under its new name, if it is the one that has the old name. -/
def respell (old new : String) (m : α) : α :=
  if Declaration.name m = old then Declaration.withName m new else m

theorem map_respell_of_notMem (h : old ∉ members.map Declaration.name) :
    members.map (respell old new) = members := by
  rw [List.map_congr_left (g := id) ?_, List.map_id]
  intro m hm
  have hname : Declaration.name m ≠ old := fun heq => h (heq ▸ List.mem_map_of_mem hm)
  exact if_neg hname

/-- Where names are unique, the first member of a name is the only one. -/
theorem renameFirst_eq_map (h : (members.map Declaration.name).Nodup) :
    renameFirst old new members = members.map (respell old new) := by
  induction members with
  | nil => rfl
  | cons m rest ih =>
      rw [List.map_cons, List.nodup_cons] at h
      rw [renameFirst, List.map_cons, respell]
      split
      · next hname => rw [map_respell_of_notMem (hname ▸ h.1)]
      · rw [ih h.2]

/-- A member that is renamed to a name that nobody has is found by it again. -/
theorem renameFirst_renameFirst [LawfulDeclaration α]
    (hnew : new ∉ members.map Declaration.name) :
    renameFirst new old (renameFirst old new members) = members := by
  induction members with
  | nil => rfl
  | cons m rest ih =>
      rw [List.map_cons, List.mem_cons, not_or] at hnew
      by_cases hname : Declaration.name m = old
      · subst hname
        rw [renameFirst, if_pos rfl, renameFirst,
          if_pos (LawfulDeclaration.name_withName m new),
          LawfulDeclaration.withName_withName]
      · rw [renameFirst, if_neg hname, renameFirst, if_neg (Ne.symm hnew.1), ih hnew.2]

end Lists

/-- The key of a member under its new name, if it is the one that has the old name. -/
def MemberKey.respell (kind : MemberKind) (old new : String) (key : MemberKey) :
    MemberKey :=
  if key = ⟨kind, old⟩ then ⟨kind, new⟩ else key

namespace ClassBody

/-- One member goes by a new name, in its declaration and in the key of its constraint,
both where they were.  There is nothing else that the bodies differ in. -/
structure Respelled (kind : MemberKind) (old new : String) (body after : ClassBody) :
    Prop where
  once : (body.names kind).count old = 1
  unused : new ∉ body.names kind
  constraints : after.machine.allowed.entries =
    body.machine.allowed.entries.map fun e => (e.1.respell kind old new, e.2)
  rest :
    after = { body.mapMembers kind (fun members => members.map (respell old new)) with
      machine := { body.machine with allowed := after.machine.allowed } }

variable {body after : ClassBody} {kind : MemberKind} {old new : String}

theorem renameFirst_eq_mapMembers (h : body.UniqueNames) :
    body.mapMembers kind (renameFirst old new) =
      body.mapMembers kind fun members => members.map (respell old new) := by
  have hkind := h kind
  cases kind <;> simp only [mapMembers] <;> rw [renameFirst_eq_map hkind]

theorem mapMembers_renameFirst_renameFirst (machine : StateMachine)
    (hnew : new ∉ body.names kind) :
    { ({ body.mapMembers kind (renameFirst old new) with machine } :
        ClassBody).mapMembers kind (renameFirst new old) with
      machine := body.machine } = body := by
  cases kind <;> simp only [mapMembers] <;> rw [renameFirst_renameFirst hnew]

/-- A name that is free has no constraint. -/
theorem Consistent.notMem_keys (h : body.Consistent) (hnew : new ∉ body.names kind) :
    ⟨kind, new⟩ ∉ body.machine.allowed.keys := fun hkey =>
  hnew (hasMember_iff.mp (h.constraints _ hkey))

/-- An accepted renaming spells the name anew in both places and does nothing else. -/
theorem Respelled.of_rename (h : body.Consistent) (hunique : body.UniqueNames)
    (hne : old ≠ new) (hrename : body.rename kind old new = .ok after) :
    body.Respelled kind old new after := by
  obtain ⟨-, hold, ⟨heq, -⟩ | ⟨hnew, rfl⟩⟩ := rename_eq_ok_iff.mp hrename
  · exact absurd heq hne
  · constructor
    · exact List.count_eq_one_of_mem (hunique kind) hold
    · exact hnew
    · exact OrderedMap.entries_renameKey (h.notMem_keys hnew)
    · rw [renameFirst_eq_mapMembers hunique]
      rfl

/-- The old name is valid and free after a renaming, so the way back is open and leads
to the same body. -/
theorem rename_back (h : body.Consistent) (hnamed : body.Named) (hne : old ≠ new)
    (hrename : body.rename kind old new = .ok after) :
    after.rename kind new old = .ok body := by
  have hmember := hasMember_of_rename hnamed.unique hne hrename
  obtain ⟨-, hold, ⟨heq, -⟩ | ⟨hnew, hafter⟩⟩ := rename_eq_ok_iff.mp hrename
  · exact absurd heq hne
  · refine rename_eq_ok_iff.mpr ⟨hnamed.members kind old hold, ?_, Or.inr ⟨?_, ?_⟩⟩
    · exact hasMember_iff.mp ((hmember ⟨kind, new⟩).mpr (Or.inl rfl))
    · intro hmem
      rcases (hmember ⟨kind, old⟩).mp (hasMember_iff.mpr hmem) with heq | ⟨-, hother⟩
      · exact hne (MemberKey.mk.inj heq).2
      · exact hother rfl
    · have hkey : (⟨kind, old⟩ : MemberKey) ≠ ⟨kind, new⟩ :=
        fun heq => hne (MemberKey.mk.inj heq).2
      have hmachine : after.machine.renameMember kind new old = body.machine := by
        rw [hafter, StateMachine.renameMember, StateMachine.renameMember,
          OrderedMap.renameKey_renameKey hkey (h.notMem_keys hnew)]
      rw [hmachine, hafter]
      exact (mapMembers_renameFirst_renameFirst _ hnew).symm

end ClassBody

namespace DeviceClass

/-- A class in reach of the edits differs from what it is after a member was renamed in
this one name only, and renaming the member back gives the class again. -/
theorem rename_there_and_back {cls after : DeviceClass} (h : cls.Reachable)
    {kind : MemberKind} {old new : String} (hne : old ≠ new)
    (hrename : cls.rename kind old new = .ok after) :
    after.ancestors = cls.ancestors ∧
      cls.toClassBody.Respelled kind old new after.toClassBody ∧
      after.rename kind new old = .ok cls := by
  have hnamed := h.checked.named.1
  have hconsistent := h.consistent.body
  obtain ⟨body, hbody, rfl⟩ := editBody_eq_ok_iff.mp hrename
  refine ⟨rfl, .of_rename hconsistent hnamed.unique hne hbody, ?_⟩
  have hback := ClassBody.rename_back hconsistent hnamed hne hbody
  cases cls
  exact editBody_eq_ok_iff.mpr ⟨_, hback, rfl⟩

def guardedAxis : DeviceClass where
  name := "Axis"
  language := .java
  commands := [{ name := "Home" }, { name := "Move" }, { name := "Halt" }]
  machine :=
    { states := [{ name := "MOVING" }]
      allowed := .ofList [(⟨.command, "Move"⟩, []), (⟨.command, "Halt"⟩, ["MOVING"])] }

theorem reachable_guardedAxis : guardedAxis.Reachable := by
  have hstart : DeviceClass.ofText "axis" .java =
      .ok { name := "Axis", language := .java } := rfl
  have hedits : DeviceClass.applyAll { name := "Axis", language := .java }
      [.addState { name := "MOVING" }, .members (.add (.command { name := "Home" })),
        .members (.add (.command { name := "Move" })),
        .members (.add (.command { name := "Halt" })),
        .setAllowedStates ⟨.command, "Move"⟩ [],
        .setAllowedStates ⟨.command, "Halt"⟩ ["MOVING"]] = .ok guardedAxis := rfl
  exact (Reachable.ofText hstart).applyAll (by simp [ClassEdit.attached?]) hedits

theorem rename_there_and_back_guardedAxis :
    ∃ after, guardedAxis.rename .command "Move" "Go" = .ok after ∧
      after.toClassBody.names .command = ["Home", "Go", "Halt"] ∧
      after.machine.allowed.keys = [⟨.command, "Go"⟩, ⟨.command, "Halt"⟩] ∧
      guardedAxis.toClassBody.Respelled .command "Move" "Go" after.toClassBody ∧
      after.rename .command "Go" "Move" = .ok guardedAxis := by
  have hne : "Move" ≠ "Go" := by decide
  obtain ⟨after, hrename, hnames, hkeys⟩ :
      ∃ after, guardedAxis.rename .command "Move" "Go" = .ok after ∧
        after.toClassBody.names .command = ["Home", "Go", "Halt"] ∧
        after.machine.allowed.keys = [⟨.command, "Go"⟩, ⟨.command, "Halt"⟩] :=
    ⟨_, rfl, rfl, rfl⟩
  exact ⟨after, hrename, hnames, hkeys,
    (rename_there_and_back reachable_guardedAxis hne hrename).2⟩

end DeviceClass

end DeviceForge
