import DeviceForge.Interface.Resolution
import DeviceForge.Proofs.Device.Checked
import DeviceForge.Proofs.OrderedMap

/-!
# The interface of a class with good names

Every member in effect stands under its own name, which is an identifier, and
a member that is not inherited is declared by the class itself.
-/

namespace DeviceForge

/-- A member in effect under a name; `own` are the names of the class itself. -/
structure Resolved.Stands {α : Type} [Declaration α] (own : List String) (key : String)
    (r : Resolved α) : Prop where
  name_eq : Declaration.name r.member = key
  identifier : Name.isIdentifier key = true
  origin : Name.isIdentifier r.origin = true
  mem_own : r.inherited = false → key ∈ own

section Members

variable {α : Type} [Declaration α]

/-- After a level is declared, an entry is from before or is one of the level. -/
theorem mem_entries_declareAll {origin : String} {inherited : Bool} {m : MemberMap α}
    {members : List α} {e : String × Resolved α}
    (h : e ∈ (declareAll origin inherited m members).entries) :
    e ∈ m.entries ∨ ∃ member ∈ members, e.1 = Declaration.name member ∧
      e.2.member = member ∧ e.2.origin = origin ∧ e.2.inherited = inherited := by
  induction members generalizing m with
  | nil => exact Or.inl h
  | cons member rest ih =>
      rcases ih h with hmem | ⟨other, hother, hentry⟩
      · rw [declareMember, OrderedMap.mem_entries_insert_iff] at hmem
        rcases hmem with rfl | ⟨hmem, -⟩
        · exact Or.inr ⟨member, List.mem_cons_self, rfl, rfl, rfl, rfl⟩
        · exact Or.inl hmem
      · exact Or.inr ⟨other, List.mem_cons_of_mem _ hother, hentry⟩

/-- What the levels declare is checked, level by level. -/
theorem stands_declareAll {own : List String} {origin : String} {inherited : Bool}
    {m : MemberMap α} {members : List α} (hm : ∀ e ∈ m.entries, e.2.Stands own e.1)
    (horigin : Name.isIdentifier origin = true)
    (hmembers : ∀ member ∈ members, Name.isIdentifier (Declaration.name member) = true)
    (hown : inherited = false → ∀ member ∈ members, Declaration.name member ∈ own)
    {e : String × Resolved α}
    (he : e ∈ (declareAll origin inherited m members).entries) :
    e.2.Stands own e.1 := by
  rcases mem_entries_declareAll he with
    he | ⟨member, hmember, hname, hmem, hfrom, hlevel⟩
  · exact hm e he
  · refine ⟨by rw [hmem, hname], ?_, by rw [hfrom]; exact horigin, fun hlocal => ?_⟩
    · rw [hname]
      exact hmembers member hmember
    · rw [hname]
      exact hown (hlevel ▸ hlocal) member hmember

/-- Induction on the ancestors: every declaration that is put into effect goes by an
identifier, and comes from a level with one. -/
theorem stands_inheritedMembers {own : List String} {members : ClassBody → List α}
    {ancestors : List ClassBody}
    (hancestors : ∀ body ∈ ancestors, Name.isIdentifier body.name = true ∧
      ∀ member ∈ members body, Name.isIdentifier (Declaration.name member) = true)
    {e : String × Resolved α} (he : e ∈ (inheritedMembers members ancestors).entries) :
    e.2.Stands own e.1 := by
  induction ancestors using List.reverseRecOn generalizing e with
  | nil => simp [inheritedMembers] at he
  | append_singleton rest body ih =>
      rw [inheritedMembers, List.foldl_append] at he
      have hbody := hancestors body (by simp)
      exact stands_declareAll
        (fun _ => ih fun other hother => hancestors other (by simp [hother]))
        hbody.1 hbody.2 (by simp) he

/-- What the class declares itself is in effect under its own name. -/
theorem stands_effectiveMembers {members : ClassBody → List α}
    {ancestors : List ClassBody} {body : ClassBody}
    (hlevels : ∀ level ∈ ancestors ++ [body], Name.isIdentifier level.name = true ∧
      ∀ member ∈ members level, Name.isIdentifier (Declaration.name member) = true)
    {e : String × Resolved α}
    (he : e ∈ (effectiveMembers members ancestors body).entries) :
    e.2.Stands ((members body).map Declaration.name) e.1 := by
  have hbody := hlevels body (by simp)
  exact stands_declareAll
    (fun _ => stands_inheritedMembers fun level hlevel =>
      hlevels level (by simp [hlevel]))
    hbody.1 hbody.2 (fun _ member hmember => List.mem_map_of_mem hmember) he

variable {own : List String} {m : MemberMap α}

theorem map_name_locals (hm : ∀ e ∈ m.entries, Declaration.name e.2.member = e.1) :
    m.locals.map Declaration.name =
      (m.entries.filter fun e => e.2.isLocal).map Prod.fst := by
  rw [MemberMap.locals, OrderedMap.values, List.filter_map, List.map_map, List.map_map]
  apply List.map_congr_left
  intro e he
  exact hm e (List.mem_of_mem_filter he)

/-- No two members of the class itself have the same name, good or bad. -/
theorem nodup_names_locals_of_name_eq
    (hm : ∀ e ∈ m.entries, Declaration.name e.2.member = e.1) :
    (m.locals.map Declaration.name).Nodup := by
  rw [map_name_locals hm]
  exact m.nodup_keys.sublist (List.filter_sublist.map Prod.fst)

theorem nodup_names_locals (hm : ∀ e ∈ m.entries, e.2.Stands own e.1) :
    (m.locals.map Declaration.name).Nodup :=
  nodup_names_locals_of_name_eq fun e he => (hm e he).name_eq

/-- A member of the class itself goes by one of its own names. -/
theorem stands_of_mem_locals (hm : ∀ e ∈ m.entries, e.2.Stands own e.1) {member : α}
    (h : member ∈ m.locals) :
    Name.isIdentifier (Declaration.name member) = true ∧
    Declaration.name member ∈ own := by
  rw [MemberMap.locals, OrderedMap.values] at h
  obtain ⟨r, hr, rfl⟩ := List.mem_map.mp h
  obtain ⟨hr, hlocal⟩ := List.mem_filter.mp hr
  obtain ⟨e, he, rfl⟩ := List.mem_map.mp hr
  have hstands := hm e he
  rw [hstands.name_eq]
  refine ⟨hstands.identifier, hstands.mem_own ?_⟩
  simpa [Resolved.isLocal] using hlocal

theorem isWord_of_mem_locals (hm : ∀ e ∈ m.entries, e.2.Stands own e.1) {member : α}
    (h : member ∈ m.locals) : Name.IsWord (Declaration.name member) :=
  Name.isWord_of_isIdentifier (stands_of_mem_locals hm h).1

end Members

/-- A state is merged under its name, whether the name was there or not. -/
theorem mem_keys_mergeState_iff {states : OrderedMap String State} {state : State}
    {name : String} :
    name ∈ (mergeState states state).keys ↔ name = state.name ∨ name ∈ states.keys := by
  rw [mergeState]
  split
  · exact OrderedMap.mem_keys_insert_iff
  · next known hknown =>
      split
      · exact OrderedMap.mem_keys_insert_iff
      · have hmem : state.name ∈ states.keys :=
          List.mem_map_of_mem (f := Prod.fst) (OrderedMap.get?_eq_some_iff.mp hknown)
        exact ⟨Or.inr, fun h => h.elim (fun heq => heq ▸ hmem) id⟩

theorem mem_keys_foldl_mergeState_iff {states : List State}
    {m : OrderedMap String State} {name : String} :
    name ∈ (states.foldl mergeState m).keys ↔
      name ∈ m.keys ∨ name ∈ states.map State.name := by
  induction states generalizing m with
  | nil => simp
  | cons state rest ih =>
      rw [List.foldl_cons, ih, mem_keys_mergeState_iff, List.map_cons, List.mem_cons]
      tauto

/-- The states in effect are those that some level declares. -/
theorem mem_keys_effectiveStates_iff {levels : List ClassBody} {name : String} :
    name ∈ (effectiveStates levels).keys ↔
      ∃ level ∈ levels, name ∈ level.machine.states.map State.name := by
  rw [effectiveStates, mem_keys_foldl_mergeState_iff, List.map_flatMap,
    List.mem_flatMap]
  simp [OrderedMap.keys]

/-- Everything in the interface goes by an identifier. -/
structure Interface.Named (i : Interface) (body : ClassBody) : Prop where
  name : Name.isIdentifier i.name = true
  parent : ∀ parent ∈ i.parent, Name.isIdentifier parent = true
  attributes : ∀ e ∈ i.attributes.entries, e.2.Stands (body.names .attribute) e.1
  commands : ∀ e ∈ i.commands.entries, e.2.Stands (body.names .command) e.1
  classProperties : ∀ e ∈ i.classProperties.entries,
    e.2.Stands (body.names .classProperty) e.1
  deviceProperties : ∀ e ∈ i.deviceProperties.entries,
    e.2.Stands (body.names .deviceProperty) e.1
  pipes : ∀ e ∈ i.pipes.entries, e.2.Stands (body.names .pipe) e.1
  states : ∀ state ∈ i.states.keys, Name.isIdentifier state = true

/-- Good names along the chain are good names in the interface, for each kind of member
and for the states. -/
theorem DeviceClass.Named.rawInterface {cls : DeviceClass} (h : cls.Named) :
    cls.rawInterface.Named cls.toClassBody := by
  have hstands : ∀ {α : Type} [Declaration α] (kind : MemberKind)
      (members : ClassBody → List α),
      (∀ level, level.names kind = (members level).map Declaration.name) →
      ∀ e ∈ (effectiveMembers members (cls.ancestors.reverse.map (·.toClassBody))
        cls.toClassBody).entries, e.2.Stands (cls.names kind) e.1 := by
    intro α _ kind members hnames e he
    rw [hnames]
    refine stands_effectiveMembers (fun level hlevel => ?_) he
    have hlevel := h.levels level hlevel
    refine ⟨hlevel.name, fun member hmember => hlevel.members kind _ ?_⟩
    rw [hnames]
    exact List.mem_map_of_mem hmember
  constructor
  · exact h.1.name
  · intro parent hparent
    obtain ⟨ancestor, hancestor, rfl⟩ := Option.map_eq_some_iff.mp hparent
    exact (h.2 ancestor (List.mem_of_mem_head? hancestor)).name
  · exact hstands .attribute (·.attributes) fun _ => rfl
  · exact hstands .command (·.commands) fun _ => rfl
  · exact hstands .classProperty (·.classProperties) fun _ => rfl
  · exact hstands .deviceProperty (·.deviceProperties) fun _ => rfl
  · exact hstands .pipe (·.pipes) fun _ => rfl
  · intro name hname
    obtain ⟨level, hlevel, hmem⟩ := mem_keys_effectiveStates_iff.mp hname
    obtain ⟨state, hstate, rfl⟩ := List.mem_map.mp hmem
    exact (h.levels level hlevel).states state hstate

/-- A resolved interface goes by identifiers, and by the name of its class. -/
theorem DeviceClass.Named.resolve {cls : DeviceClass} (h : cls.Named) {i : Interface}
    {issues : List InterfaceIssue} (hresolve : cls.resolve = .ok (i, issues)) :
    i.Named cls.toClassBody ∧ i.name = cls.name := by
  obtain ⟨-, -, hresolve⟩ := Outcome.bind_eq_ok_iff.mp hresolve
  obtain ⟨-, -, hresolve⟩ := Outcome.bind_eq_ok_iff.mp hresolve
  obtain ⟨rfl, -⟩ := Prod.mk.inj (Outcome.pure_eq_ok_iff.mp hresolve)
  obtain ⟨hname, hparent, hattributes, hcommands, hclass, hdevice, hpipes, hstates⟩ :=
    h.rawInterface
  exact ⟨⟨hname, hparent, hattributes, hcommands, hclass, hdevice, hpipes, hstates⟩,
    rfl⟩

end DeviceForge
