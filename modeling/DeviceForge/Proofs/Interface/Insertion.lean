import DeviceForge.Proofs.Device.Reachable
import DeviceForge.Proofs.Interface

/-!
# A member more

A class gets another member somewhere in its list, under a name that its chain
neither declares nor constrains.  In the interface of the class the member is
all that is new: the other local members are the same, in the same order, and
denied in the same states.
-/

namespace DeviceForge

/-- A list with an element put in at a position, at the end if the list is shorter. -/
def insertedAt {α : Type} (position : ℕ) (a : α) (items : List α) : List α :=
  items.take position ++ a :: items.drop position

theorem mem_insertedAt_iff {α : Type} {position : ℕ} {a b : α} {items : List α} :
    b ∈ insertedAt position a items ↔ b = a ∨ b ∈ items := by
  have hitems : b ∈ items ↔ b ∈ items.take position ∨ b ∈ items.drop position := by
    rw [← List.mem_append, List.take_append_drop]
  rw [insertedAt, List.mem_append, List.mem_cons, hitems]
  tauto

theorem filter_insertedAt {α : Type} {p : α → Bool} {a : α} (ha : p a = false)
    (position : ℕ) (items : List α) :
    (insertedAt position a items).filter p = items.filter p := by
  rw [insertedAt, List.filter_append, List.filter_cons_of_neg (by simp [ha]),
    ← List.filter_append, List.take_append_drop]

namespace ClassBody

/-- Puts a member in at a position of the list of its kind. -/
def insertAt (body : ClassBody) (position : ℕ) : Member → ClassBody
  | .attribute a => { body with attributes := insertedAt position a body.attributes }
  | .command c => { body with commands := insertedAt position c body.commands }
  | .classProperty p =>
    { body with classProperties := insertedAt position p body.classProperties }
  | .deviceProperty p =>
      { body with deviceProperties := insertedAt position p body.deviceProperties }
  | .pipe p => { body with pipes := insertedAt position p body.pipes }

variable (body : ClassBody) (position : ℕ) (m : Member)

theorem name_insertAt : (body.insertAt position m).name = body.name := by
  cases m <;> rfl

theorem machine_insertAt : (body.insertAt position m).machine = body.machine := by
  cases m <;> rfl

theorem names_insertAt (kind : MemberKind) :
    (body.insertAt position m).names kind =
      if kind = m.kind then insertedAt position m.name (body.names kind)
        else body.names kind := by
  cases m <;> cases kind <;>
    simp [insertAt, names, insertedAt, Member.kind, Member.name, List.map_take,
      List.map_drop] <;>
    rfl

/-- An insertion makes one member more, wherever it is put. -/
theorem hasMember_insertAt_iff {key : MemberKey} :
    (body.insertAt position m).hasMember key = true ↔
      key = m.key ∨ body.hasMember key = true := by
  obtain ⟨kind, name⟩ := key
  rw [hasMember_iff, hasMember_iff, names_insertAt, Member.key, MemberKey.mk.injEq]
  by_cases hkind : kind = m.kind
  · rw [if_pos hkind, mem_insertedAt_iff]
    simp [hkind]
  · rw [if_neg hkind]
    simp [hkind]

end ClassBody

section Members

variable {α : Type} [Declaration α] {members : ClassBody → List α}

/-- A member in effect is listed under its own name. -/
theorem name_of_mem_effectiveMembers {ancestors : List ClassBody} {body : ClassBody}
    {e : String × Resolved α}
    (h : e ∈ (effectiveMembers members ancestors body).entries) :
    Declaration.name e.2.member = e.1 := by
  have hinherited : ∀ e ∈ (inheritedMembers members ancestors).entries,
      Declaration.name e.2.member = e.1 := by
    clear h
    induction ancestors using List.reverseRecOn with
    | nil => simp [inheritedMembers]
    | append_singleton rest level ih =>
        intro e he
        rw [inheritedMembers, List.foldl_append] at he
        rcases mem_entries_declareAll he with he | ⟨member, -, hname, hmember, -⟩
        · exact ih e he
        · rw [hmember, hname]
  rcases mem_entries_declareAll h with h | ⟨member, -, hname, hmember, -⟩
  · exact hinherited e h
  · rw [hmember, hname]

/-- A name that is erased takes the local member of that name with it. -/
theorem locals_erase {m : MemberMap α}
    (hm : ∀ e ∈ m.entries, Declaration.name e.2.member = e.1) (name : String) :
    MemberMap.locals (m.erase name) = m.locals.filter (Declaration.name · ≠ name) := by
  simp only [MemberMap.locals, OrderedMap.values, OrderedMap.entries_erase,
    List.filter_map, List.map_map, List.filter_filter]
  congr 1
  apply List.filter_congr
  intro e he
  simp only [Function.comp_apply, hm e he]
  exact Bool.and_comm _ _

/-- Another member of a level is in effect next to all others, if no level has its name.
-/
theorem locals_effectiveMembers_insertedAt {ancestors : List ClassBody}
    {body grown : ClassBody} {position : ℕ} {a : α} (hname : grown.name = body.name)
    (hgrown : members grown = insertedAt position a (members body))
    (hancestors : ∀ level ∈ ancestors, Declaration.name a ∉
      (members level).map Declaration.name)
    (hbody : Declaration.name a ∉ (members body).map Declaration.name) :
    (effectiveMembers members ancestors grown).locals.filter
        (Declaration.name · ≠ Declaration.name a) =
      (effectiveMembers members ancestors body).locals := by
  have hinherited : (inheritedMembers members ancestors).erase (Declaration.name a) =
      inheritedMembers members ancestors := by
    apply OrderedMap.erase_of_notMem
    rw [keys_inheritedMembers, List.mem_eraseDups, List.mem_flatMap]
    rintro ⟨level, hlevel, hmem⟩
    exact hancestors level hlevel hmem
  have hothers : (members body).filter (Declaration.name · ≠ Declaration.name a) =
      members body := by
    rw [List.filter_eq_self]
    intro other hother
    rw [decide_eq_true_eq]
    intro heq
    exact hbody (heq ▸ List.mem_map_of_mem hother)
  rw [← locals_erase fun e => name_of_mem_effectiveMembers, effectiveMembers,
    erase_declareAll, hinherited, hgrown, filter_insertedAt (by simp), hothers, hname,
    effectiveMembers]

end Members

def DeviceClass.insertAt (cls : DeviceClass) (position : ℕ) (m : Member) :
    DeviceClass :=
  { cls with toClassBody := cls.toClassBody.insertAt position m }

namespace KindView

variable {α : Type} [Declaration α] {kind : MemberKind}

/-- The list of a kind takes in the members of that kind, and no others. -/
def Inserts (view : KindView α kind) : Prop :=
  ∀ (body : ClassBody) position m,
    (m.kind ≠ kind ∧ view.members (body.insertAt position m) = view.members body) ∨
      ∃ a, m.key = ⟨kind, Declaration.name a⟩ ∧
        view.members (body.insertAt position m) =
          insertedAt position a (view.members body)

theorem inserts_attributes : attributes.Inserts := by
  intro body position m
  rcases m with a | c | p | p | p
  · exact Or.inr ⟨a, rfl, rfl⟩
  all_goals exact Or.inl ⟨by simp [Member.kind], rfl⟩

theorem inserts_commands : commands.Inserts := by
  intro body position m
  rcases m with a | c | p | p | p
  · exact Or.inl ⟨by simp [Member.kind], rfl⟩
  · exact Or.inr ⟨c, rfl, rfl⟩
  all_goals exact Or.inl ⟨by simp [Member.kind], rfl⟩

theorem inserts_pipes : pipes.Inserts := by
  intro body position m
  rcases m with a | c | p | p | p
  · exact Or.inl ⟨by simp [Member.kind], rfl⟩
  · exact Or.inl ⟨by simp [Member.kind], rfl⟩
  · exact Or.inl ⟨by simp [Member.kind], rfl⟩
  · exact Or.inl ⟨by simp [Member.kind], rfl⟩
  · exact Or.inr ⟨p, rfl, rfl⟩

/-- Whatever the kind of the new member, the other local members are those from before.
-/
theorem Inserts.locals {view : KindView α kind} (hview : view.Inserts)
    {cls : DeviceClass} {m : Member}
    (hfresh : ∀ level ∈ cls.levels, level.hasMember m.key = false) (position : ℕ) :
    ((view.effective (cls.insertAt position m)).locals.filter fun a =>
        (⟨kind, Declaration.name a⟩ : MemberKey) ≠ m.key) =
          (view.effective cls).locals := by
  obtain ⟨hbody, hancestors⟩ := DeviceClass.forall_mem_levels.mp hfresh
  have hname : (cls.insertAt position m).name = cls.name := ClassBody.name_insertAt ..
  rcases hview cls.toClassBody position m with ⟨hkind, hmembers⟩ | ⟨a, hkey, hmembers⟩
  · have heffective :
        view.effective (cls.insertAt position m) = view.effective cls := by
      rw [effective, effectiveMembers, hname]
      exact congrArg _ hmembers
    rw [heffective, List.filter_eq_self]
    intro a _
    rw [decide_eq_true_eq]
    exact fun heq => hkind (congrArg MemberKey.kind heq).symm
  · have hnames : ∀ level : ClassBody, level.hasMember m.key = false →
        Declaration.name a ∉ (view.members level).map Declaration.name := by
      intro level hlevel hmem
      rw [← view.names_eq] at hmem
      rw [hkey, ← Bool.not_eq_true, ClassBody.hasMember_iff] at hlevel
      exact hlevel hmem
    have hrest : ∀ level ∈ cls.ancestors.reverse.map (·.toClassBody),
        Declaration.name a ∉ (view.members level).map Declaration.name := by
      intro level hlevel
      obtain ⟨ancestor, hancestor, rfl⟩ := List.mem_map.mp hlevel
      exact hnames _ (hancestors ancestor (List.mem_reverse.mp hancestor))
    have hlocals :=
      locals_effectiveMembers_insertedAt hname hmembers hrest (hnames _ hbody)
    simp only [hkey, ne_eq, MemberKey.mk.injEq, true_and]
    exact hlocals

end KindView

/-- What survives of constraints only depends on the members that they are about. -/
theorem pruneConstraints_congr {hasMember hasMember' : MemberKey → Bool}
    {states : OrderedMap String State}
    {constraints : OrderedMap MemberKey (List String)}
    (h : ∀ key ∈ constraints.keys, hasMember' key = hasMember key) :
    pruneConstraints hasMember' states constraints =
      pruneConstraints hasMember states constraints := by
  have hentries : constraints.entries.filter
      (fun e => hasMember' e.1 && (effectiveConstraint? states e.2).isSome) =
      constraints.entries.filter
        fun e => hasMember e.1 && (effectiveConstraint? states e.2).isSome :=
    List.filter_congr fun e he => by rw [h e.1 (List.mem_map_of_mem he)]
  apply OrderedMap.eq_of_entries_eq
  simp only [pruneConstraints, OrderedMap.mapValues, OrderedMap.filter, hentries]

/-- The interface has one member more than the other. -/
structure Interface.Adds (key : MemberKey) (i grown : Interface) : Prop where
  name : grown.name = i.name
  parent : grown.parent = i.parent
  attributes : (grown.attributes.locals.filter fun a => ⟨.attribute, a.name⟩ ≠ key) =
    i.attributes.locals
  pipes : (grown.pipes.locals.filter fun p => ⟨.pipe, p.name⟩ ≠ key) = i.pipes.locals
  commands : (grown.commands.locals.filter fun c => ⟨.command, c.name⟩ ≠ key) =
    i.commands.locals
  denied : grown.deniedStates = i.deniedStates

namespace DeviceClass

variable {cls : DeviceClass} {position : ℕ} {m : Member} {i grown : Interface}
  {issues grownIssues : List InterfaceIssue}

theorem levels_insertAt (cls : DeviceClass) (position : ℕ) (m : Member) :
    (cls.insertAt position m).levels =
      cls.ancestors.reverse.map (·.toClassBody) ++
        [cls.toClassBody.insertAt position m] := rfl

theorem hasMember_rawInterface_insertAt {key : MemberKey} (hkey : key ≠ m.key) :
    (cls.insertAt position m).rawInterface.hasMember key =
      cls.rawInterface.hasMember key := by
  rw [Bool.eq_iff_iff, hasMember_rawInterface, hasMember_rawInterface,
    levels_insertAt, levels]
  simp only [List.mem_append, List.mem_singleton, or_and_right, exists_or,
    exists_eq_left, ClassBody.hasMember_insertAt_iff, hkey, false_or]

/-- The new member is all that is new in the interface, as long as no constraint is
about it. -/
theorem adds_insertAt
    (hfresh : ∀ level ∈ cls.levels,
      level.hasMember m.key = false ∧ m.key ∉ level.machine.allowed.keys)
    (hresolve : cls.resolve = .ok (i, issues))
    (hgrown : (cls.insertAt position m).resolve = .ok (grown, grownIssues)) :
    i.Adds m.key grown := by
  obtain ⟨-, -, rfl, -⟩ := resolve_eq_ok_iff.mp hresolve
  obtain ⟨-, -, rfl, -⟩ := resolve_eq_ok_iff.mp hgrown
  have hname : ∀ level ∈ cls.levels, level.hasMember m.key = false :=
    fun level hlevel => (hfresh level hlevel).1
  have hancestors : (cls.insertAt position m).ancestors = cls.ancestors := rfl
  have hmachine : (cls.insertAt position m).machine = cls.machine :=
    ClassBody.machine_insertAt ..
  have hstates : (cls.insertAt position m).rawInterface.states =
      cls.rawInterface.states := by
    simp only [rawInterface, effectiveStates, levels, List.flatMap_append,
      List.flatMap_singleton, hancestors, hmachine]
  have hallowed : (cls.insertAt position m).rawInterface.allowed =
      cls.rawInterface.allowed := by
    simp only [rawInterface, nearestConstraints, levels, List.foldl_append,
      List.foldl_cons, List.foldl_nil, hancestors, hmachine]
  -- pruning asks only about constrained members, and nothing constrains the new one
  have hconstraints : ∀ key ∈ cls.rawInterface.allowed.keys,
      (cls.insertAt position m).rawInterface.hasMember key =
        cls.rawInterface.hasMember key := by
    intro key hkey
    obtain ⟨level, hlevel, hkey⟩ := mem_keys_nearestConstraints_iff.mp hkey
    apply hasMember_rawInterface_insertAt
    rintro rfl
    exact (hfresh level hlevel).2 hkey
  constructor
  · exact ClassBody.name_insertAt ..
  · rfl
  · exact KindView.inserts_attributes.locals hname position
  · exact KindView.inserts_pipes.locals hname position
  · exact KindView.inserts_commands.locals hname position
  · funext key
    simp only [Interface.deniedStates, Interface.allowedStates?, hstates, hallowed,
      pruneConstraints_congr hconstraints]

end DeviceClass

end DeviceForge
