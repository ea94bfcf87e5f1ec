import DeviceForge.Interface.Resolution
import DeviceForge.Proofs.Device.Editing
import DeviceForge.Proofs.OrderedMap

/-!
# Inheritance

What a class offers is decided name by name along its chain.  A name stands
where the root-most level that has it puts it, and means what the most derived
level that has it says; the next level towards the root is the one that is
overridden.  The class must speak the language of all its ancestors, and no
level may declare a name twice.
-/

namespace DeviceForge

namespace Member

def key (m : Member) : MemberKey :=
  ⟨m.kind, m.name⟩

def isOverride : Member → Bool
  | .attribute a => a.isOverride
  | .command c => c.isOverride
  | .classProperty p | .deviceProperty p => p.isOverride
  | .pipe p => p.isOverride

end Member

namespace ClassBody

def declared (body : ClassBody) : MemberKind → List Member
  | .attribute => body.attributes.map .attribute
  | .command => body.commands.map .command
  | .classProperty => body.classProperties.map .classProperty
  | .deviceProperty => body.deviceProperties.map .deviceProperty
  | .pipe => body.pipes.map .pipe

def declaration? (body : ClassBody) (key : MemberKey) : Option Member :=
  (body.declared key.kind).find? (·.name = key.name)

theorem names_eq_map_declared (body : ClassBody) (kind : MemberKind) :
    body.names kind = (body.declared kind).map Member.name := by
  cases kind <;> simp only [names, declared, List.map_map] <;> rfl

theorem isSome_declaration?_iff {body : ClassBody} {key : MemberKey} :
    (body.declaration? key).isSome = true ↔ body.hasMember key = true := by
  rw [hasMember_iff, names_eq_map_declared, declaration?]
  simp [List.find?_isSome]

end ClassBody

/-! ## What is in effect -/

section Declarations

variable {α β : Type}

/-- The declarations that levels hold, each with its level. -/
def declarations (find : ClassBody → Option α) (levels : List ClassBody) :
    List (ClassBody × α) :=
  levels.filterMap fun level => (find level).map (level, ·)

/-- Of the declarations of a name, the most derived one first, that one is in effect
and overrides the next. -/
def Resolved.ofDeclarations? (inherited : Bool) :
    List (ClassBody × α) → Option (Resolved α)
  | [] => none
  | (level, member) :: hidden =>
    some
      { member
        origin := level.name
        inherited
        overrides := hidden.head?.map (·.1.name) }

def Resolved.map (f : α → β) (r : Resolved α) : Resolved β where
  member := f r.member
  origin := r.origin
  inherited := r.inherited
  overrides := r.overrides

theorem declarations_cons (find : ClassBody → Option α) (level : ClassBody)
    (levels : List ClassBody) :
    declarations find (level :: levels) =
      ((find level).map (level, ·)).toList ++ declarations find levels := by
  rw [declarations, List.filterMap_cons, declarations]
  cases find level <;> rfl

theorem declarations_map (f : α → β) (find : ClassBody → Option α)
    (levels : List ClassBody) :
    declarations (fun level => (find level).map f) levels =
      (declarations find levels).map (Prod.map id f) := by
  simp [declarations, List.map_filterMap, Function.comp_def]

theorem Resolved.map_ofDeclarations? (f : α → β) (inherited : Bool)
    (ds : List (ClassBody × α)) :
    (ofDeclarations? inherited ds).map (Resolved.map f) =
      ofDeclarations? inherited (ds.map (Prod.map id f)) := by
  rcases ds with - | ⟨⟨level, member⟩, hidden⟩
  · rfl
  · simp [ofDeclarations?, Resolved.map, Function.comp_def]

theorem Resolved.map_origin_ofDeclarations? (inherited : Bool)
    (ds : List (ClassBody × α)) :
    (ofDeclarations? inherited ds).map (·.origin) = ds.head?.map (·.1.name) := by
  rcases ds with - | ⟨⟨level, member⟩, hidden⟩ <;> rfl

/-- The most derived declaration stands on the first level that has one. -/
theorem head?_declarations (find : ClassBody → Option α) (levels : List ClassBody) :
    (declarations find levels).head?.map (·.1) = levels.find? fun level =>
      (find level).isSome := by
  induction levels with
  | nil => rfl
  | cons level rest ih =>
      rw [declarations_cons, List.find?_cons]
      cases hfind : find level <;> simp [ih]

end Declarations

namespace DeviceClass

/-- The bodies along the chain, the class first and the root last. -/
def bodies (cls : DeviceClass) : List ClassBody :=
  cls.chain.map (·.toClassBody)

/-- The declaration of a name that is in effect for a class. -/
def inEffect? (cls : DeviceClass) (key : MemberKey) : Option (Resolved Member) :=
  Resolved.ofDeclarations? (!cls.hasMember key)
    (declarations (·.declaration? key) cls.bodies)

/-- The issues of a class that hides inherited members of a kind, one for each member
of its own that an ancestor declares as well, about the nearest such ancestor. -/
def hidingsOf (cls : DeviceClass) (kind : MemberKind) : List InterfaceIssue :=
  (cls.declared kind).filterMap fun member =>
    (cls.ancestors.find? (·.hasMember ⟨kind, member.name⟩)).map fun ancestor =>
      if member.isOverride then .overridden ⟨kind, member.name⟩ ancestor.name cls.name
      else .redeclared ⟨kind, member.name⟩ ancestor.name cls.name

def hidings (cls : DeviceClass) : List InterfaceIssue :=
  MemberKind.all.flatMap cls.hidingsOf

end DeviceClass

/-- The member in effect under a kind and a name. -/
def Interface.member? (i : Interface) (key : MemberKey) : Option (Resolved Member) :=
  match key.kind with
  | .attribute => (i.attributes.get? key.name).map (.map .attribute)
  | .command => (i.commands.get? key.name).map (.map .command)
  | .classProperty => (i.classProperties.get? key.name).map (.map .classProperty)
  | .deviceProperty => (i.deviceProperties.get? key.name).map (.map .deviceProperty)
  | .pipe => (i.pipes.get? key.name).map (.map .pipe)

section Levels

variable {α : Type} [Declaration α] {members : ClassBody → List α}

def declarationIn? (members : ClassBody → List α) (name : String) (level : ClassBody) :
    Option α :=
  (members level).find? (Declaration.name · = name)

theorem keys_declareAll (origin : String) (inherited : Bool) (m : MemberMap α)
    (declared : List α) :
    (declareAll origin inherited m declared).keys =
      (m.keys ++ declared.map Declaration.name).eraseDups :=
  OrderedMap.keys_foldl_insert _ _ declared m

/-- Inherited members are listed in the order in which their names first come up, the
root first. -/
theorem keys_inheritedMembers (members : ClassBody → List α)
    (ancestors : List ClassBody) :
    (inheritedMembers members ancestors).keys =
      (ancestors.flatMap fun level =>
        (members level).map Declaration.name).eraseDups := by
  induction ancestors using List.reverseRecOn with
  | nil => rfl
  | append_singleton rest level ih =>
      rw [inheritedMembers, List.foldl_append, List.foldl_cons, List.foldl_nil,
        keys_declareAll]
      rw [inheritedMembers] at ih
      rw [ih, OrderedMap.eraseDups_eraseDups_append]
      simp

theorem keys_effectiveMembers (members : ClassBody → List α)
    (ancestors : List ClassBody) (body : ClassBody) :
    (effectiveMembers members ancestors body).keys =
      ((ancestors ++ [body]).flatMap fun level =>
        (members level).map Declaration.name).eraseDups := by
  rw [effectiveMembers, keys_declareAll, keys_inheritedMembers,
    OrderedMap.eraseDups_eraseDups_append]
  simp

/-- What levels declare under other names does not depend on what they declare under
one. -/
theorem erase_declareAll (origin : String) (inherited : Bool) (m : MemberMap α)
    (declared : List α) (name : String) :
    (declareAll origin inherited m declared).erase name =
      declareAll origin inherited (m.erase name)
        (declared.filter (Declaration.name · ≠ name)) := by
  induction declared generalizing m with
  | nil => rfl
  | cons member rest ih =>
      rw [declareAll, List.foldl_cons, ← declareAll, ih, declareMember]
      by_cases hname : Declaration.name member = name
      · rw [List.filter_cons_of_neg (by simpa using hname), hname,
          OrderedMap.erase_insert_self]
      · rw [List.filter_cons_of_pos (by simpa using hname),
          OrderedMap.erase_insert_of_ne _ hname, declareAll, declareAll,
          List.foldl_cons, declareMember, OrderedMap.get?_erase, if_neg (Ne.symm hname)]

/-- A level puts its own declarations into effect, over what was in effect before. -/
theorem get?_declareAll {origin : String} {inherited : Bool} {m : MemberMap α}
    {declared : List α} (hdeclared : (declared.map Declaration.name).Nodup)
    (name : String) :
    (declareAll origin inherited m declared).get? name =
      match declared.find? (Declaration.name · = name) with
      | some member => some ⟨member, origin, inherited, (m.get? name).map (·.origin)⟩
      | none => m.get? name := by
  induction declared generalizing m with
  | nil => rfl
  | cons member rest ih =>
      rw [List.map_cons, List.nodup_cons] at hdeclared
      rw [declareAll, List.foldl_cons, ← declareAll, ih hdeclared.2, List.find?_cons,
        declareMember]
      by_cases hname : Declaration.name member = name
      · have hrest : rest.find? (Declaration.name · = name) = none := by
          rw [List.find?_eq_none]
          intro other hother heq
          apply hdeclared.1
          rw [hname, ← of_decide_eq_true heq]
          exact List.mem_map_of_mem hother
        simp [hrest, hname, OrderedMap.get?_insert]
      · simp [hname, OrderedMap.get?_insert]

/-- An inherited member is the declaration of the nearest ancestor that has one. -/
theorem get?_inheritedMembers {ancestors : List ClassBody}
    (hancestors : ∀ level ∈ ancestors, ((members level).map Declaration.name).Nodup)
    (name : String) :
    (inheritedMembers members ancestors).get? name =
      Resolved.ofDeclarations? true
        (declarations (declarationIn? members name) ancestors.reverse) := by
  induction ancestors using List.reverseRecOn with
  | nil => rfl
  | append_singleton rest level ih =>
      have hrest := ih fun other hother => hancestors other (by simp [hother])
      rw [inheritedMembers] at hrest
      rw [inheritedMembers, List.foldl_append, List.foldl_cons, List.foldl_nil,
        get?_declareAll (hancestors level (by simp)), hrest, List.reverse_append,
        List.reverse_singleton, List.singleton_append, declarations_cons,
        Resolved.map_origin_ofDeclarations?, ← declarationIn?]
      cases declarationIn? members name level <;> rfl

/-- A member in effect is the declaration of the class itself, or else that of the
nearest ancestor. -/
theorem get?_effectiveMembers {ancestors : List ClassBody} {body : ClassBody}
    (hlevels : ∀ level ∈ ancestors ++ [body],
      ((members level).map Declaration.name).Nodup)
    (name : String) :
    (effectiveMembers members ancestors body).get? name =
      Resolved.ofDeclarations? (declarationIn? members name body).isNone
        (declarations (declarationIn? members name) (body :: ancestors.reverse)) := by
  have hancestors := get?_inheritedMembers
    (fun level hlevel => hlevels level (List.mem_append_left [body] hlevel)) name
  rw [effectiveMembers, get?_declareAll (hlevels body (by simp)), hancestors,
    declarations_cons, Resolved.map_origin_ofDeclarations?, ← declarationIn?]
  cases declarationIn? members name body <;> rfl

/-- Where names are unique, a level declares a member exactly if the member is in its
list. -/
theorem declarationIn?_eq_some_iff {level : ClassBody}
    (hlevel : ((members level).map Declaration.name).Nodup) {name : String}
    {member : α} :
    declarationIn? members name level = some member ↔
      member ∈ members level ∧ Declaration.name member = name := by
  rw [declarationIn?]
  constructor
  · intro h
    exact ⟨List.mem_of_find?_eq_some h, by simpa using List.find?_some h⟩
  · rintro ⟨hmember, rfl⟩
    obtain ⟨before, after, hmembers⟩ := List.append_of_mem hmember
    rw [hmembers, List.map_append, List.map_cons, List.nodup_append] at hlevel
    refine List.find?_eq_some_iff_append.mpr
      ⟨by simp, before, after, hmembers, fun other hother => ?_⟩
    have hne := hlevel.2.2 _ (List.mem_map_of_mem hother) _ List.mem_cons_self
    simpa using hne

/-- The local members in effect are the members of the class itself, overrides included.
-/
theorem mem_locals_effectiveMembers_iff {ancestors : List ClassBody} {body : ClassBody}
    (hlevels : ∀ level ∈ ancestors ++ [body],
      ((members level).map Declaration.name).Nodup)
    {member : α} :
    member ∈ (effectiveMembers members ancestors body).locals ↔
      member ∈ members body := by
  have hbody := hlevels body (by simp)
  rw [MemberMap.locals, List.mem_map]
  simp only [List.mem_filter, OrderedMap.values, List.mem_map, Prod.exists,
    exists_eq_right, ← OrderedMap.get?_eq_some_iff, get?_effectiveMembers hlevels]
  constructor
  · rintro ⟨r, ⟨⟨name, hr⟩, hlocal⟩, rfl⟩
    cases hfind : declarationIn? members name body with
    | none =>
        -- then the declaration in effect is one of an ancestor
        rw [hfind] at hr
        rcases hds : declarations (declarationIn? members name)
          (body :: ancestors.reverse) with - | ⟨⟨level, declared⟩, hidden⟩
        · simp [hds, Resolved.ofDeclarations?] at hr
        · rw [hds, Resolved.ofDeclarations?, Option.some.injEq] at hr
          rw [← hr] at hlocal
          simp [Resolved.isLocal] at hlocal
    | some declared =>
        rw [declarations_cons, hfind] at hr
        obtain rfl := Option.some.inj hr
        exact ((declarationIn?_eq_some_iff hbody).mp hfind).1
  · intro hmember
    have hfind := (declarationIn?_eq_some_iff hbody).mpr ⟨hmember, rfl⟩
    let hidden :=
      declarations (declarationIn? members (Declaration.name member)) ancestors.reverse
    refine ⟨⟨member, body.name, false, hidden.head?.map (·.1.name)⟩,
      ⟨⟨Declaration.name member, ?_⟩, rfl⟩, rfl⟩
    rw [declarations_cons, hfind]
    rfl

end Levels

/-! ## Members through their own type -/

/-- How the members of one kind are stored, each in its own type. -/
structure KindView (α : Type) [Declaration α] (kind : MemberKind) where
  members : ClassBody → List α
  inject : α → Member
  declared_eq : ∀ body : ClassBody, body.declared kind = (members body).map inject
  name_inject : ∀ a, (inject a).name = Declaration.name a
  isOverride_inject : ∀ a, (inject a).isOverride = Declaration.isOverride a

namespace KindView

def attributes : KindView Attribute .attribute :=
  ⟨(·.attributes), .attribute, fun _ => rfl, fun _ => rfl, fun _ => rfl⟩

def commands : KindView Command .command :=
  ⟨(·.commands), .command, fun _ => rfl, fun _ => rfl, fun _ => rfl⟩

def classProperties : KindView Property .classProperty :=
  ⟨(·.classProperties), .classProperty, fun _ => rfl, fun _ => rfl, fun _ => rfl⟩

def deviceProperties : KindView Property .deviceProperty :=
  ⟨(·.deviceProperties), .deviceProperty, fun _ => rfl, fun _ => rfl, fun _ => rfl⟩

def pipes : KindView Pipe .pipe :=
  ⟨(·.pipes), .pipe, fun _ => rfl, fun _ => rfl, fun _ => rfl⟩

variable {α : Type} [Declaration α] {kind : MemberKind} (view : KindView α kind)

theorem names_eq (body : ClassBody) :
    body.names kind = (view.members body).map Declaration.name := by
  rw [ClassBody.names_eq_map_declared, view.declared_eq, List.map_map]
  exact List.map_congr_left fun a _ => view.name_inject a

theorem declaration?_eq (body : ClassBody) (name : String) :
    body.declaration? ⟨kind, name⟩ =
      (declarationIn? view.members name body).map view.inject := by
  simp only [ClassBody.declaration?, view.declared_eq, List.find?_map, declarationIn?,
    Function.comp_def, view.name_inject]

theorem isSome_declarationIn? (body : ClassBody) (name : String) :
    (declarationIn? view.members name body).isSome = body.hasMember ⟨kind, name⟩ := by
  rw [Bool.eq_iff_iff, ← ClassBody.isSome_declaration?_iff, view.declaration?_eq,
    Option.isSome_map]

/-- The members of one kind that are in effect for a class. -/
def effective (cls : DeviceClass) : MemberMap α :=
  effectiveMembers view.members (cls.ancestors.reverse.map (·.toClassBody))
    cls.toClassBody

theorem keys_effective (cls : DeviceClass) :
    (view.effective cls).keys = (cls.levels.flatMap (·.names kind)).eraseDups := by
  simp only [effective, keys_effectiveMembers, DeviceClass.levels, view.names_eq]

variable {cls : DeviceClass}

theorem nodup_of_levels (hlevels : ∀ level ∈ cls.levels, level.UniqueNames)
    {level : ClassBody}
    (hlevel : level ∈ cls.ancestors.reverse.map (·.toClassBody) ++ [cls.toClassBody]) :
    ((view.members level).map Declaration.name).Nodup := by
  rw [← view.names_eq]
  exact hlevels level hlevel kind

/-- The members of a kind in effect are those that the chain gives for its keys. -/
theorem get?_effective (hlevels : ∀ level ∈ cls.levels, level.UniqueNames)
    (name : String) :
    ((view.effective cls).get? name).map (.map view.inject) =
      cls.inEffect? ⟨kind, name⟩ := by
  have hinherited : (declarationIn? view.members name cls.toClassBody).isNone =
      !cls.hasMember ⟨kind, name⟩ := by
    rw [← view.isSome_declarationIn?, Option.not_isSome]
  have hbodies : cls.toClassBody ::
      (cls.ancestors.reverse.map (·.toClassBody)).reverse = cls.bodies := by
    rw [List.map_reverse, List.reverse_reverse]
    rfl
  rw [effective, get?_effectiveMembers fun _ => view.nodup_of_levels hlevels,
    Resolved.map_ofDeclarations?, ← declarations_map, hinherited, hbodies,
    DeviceClass.inEffect?]
  simp only [← view.declaration?_eq]

theorem perm_locals (hlevels : ∀ level ∈ cls.levels, level.UniqueNames)
    (hnodup : ((view.effective cls).locals.map Declaration.name).Nodup) :
    (view.effective cls).locals.Perm (view.members cls.toClassBody) := by
  have hbody :=
    view.nodup_of_levels hlevels (List.mem_append_right _ List.mem_cons_self)
  rw [List.perm_ext_iff_of_nodup hnodup.of_map hbody.of_map]
  exact fun member => mem_locals_effectiveMembers_iff fun _ =>
    view.nodup_of_levels hlevels

/-- What a level inherits under a name comes from the nearest ancestor that has the
name. -/
theorem origin_inherited (hlevels : ∀ level ∈ cls.levels, level.UniqueNames)
    (name : String) :
    ((inheritedMembers view.members (cls.ancestors.reverse.map (·.toClassBody))).get?
      name).map (·.origin) =
      (cls.ancestors.find? (·.hasMember ⟨kind, name⟩)).map (·.name) := by
  have hhead := head?_declarations (declarationIn? view.members name)
    (cls.ancestors.map (·.toClassBody))
  rw [get?_inheritedMembers (fun level hlevel =>
      view.nodup_of_levels hlevels (List.mem_append_left _ hlevel)),
    Resolved.map_origin_ofDeclarations?, List.map_reverse, List.reverse_reverse,
    ← Function.comp_def (fun level : ClassBody => level.name) Prod.fst,
    ← Option.map_map, hhead, List.find?_map, Option.map_map]
  simp only [view.isSome_declarationIn?, Function.comp_def]

/-- The issues of one kind are about the declarations of the class that stand before
those of an ancestor. -/
theorem hidingIssues_eq (hlevels : ∀ level ∈ cls.levels, level.UniqueNames) :
    hidingIssues kind view.members (cls.ancestors.reverse.map (·.toClassBody))
      cls.toClassBody = cls.hidingsOf kind := by
  rw [hidingIssues, DeviceClass.hidingsOf, view.declared_eq, List.filterMap_map]
  refine List.filterMap_congr fun member _ => ?_
  let issue (origin : String) : InterfaceIssue :=
    if Declaration.isOverride member then
      .overridden ⟨kind, Declaration.name member⟩ origin cls.name
    else .redeclared ⟨kind, Declaration.name member⟩ origin cls.name
  have horigin := congrArg (Option.map issue)
    (view.origin_inherited hlevels (Declaration.name member))
  rw [Option.map_map, Option.map_map] at horigin
  rw [Function.comp_apply, view.name_inject, view.isOverride_inject]
  exact horigin

end KindView

section Repetitions

/-- No name was seen before exactly if they are all different and new. -/
theorem firstSeen?_eq_none_iff {seen names : List String} :
    firstSeen? seen names = none ↔ names.Nodup ∧ ∀ name ∈ names, name ∉ seen := by
  induction names generalizing seen with
  | nil => simp [firstSeen?]
  | cons name rest ih =>
      rw [firstSeen?]
      by_cases h : name ∈ seen
      · simp [h]
      · rw [if_neg h, ih, List.nodup_cons]
        simp only [List.mem_cons, not_or, forall_eq_or_imp, h, not_false_eq_true,
          true_and]
        constructor
        · rintro ⟨hrest, hnew⟩
          have hname : name ∉ rest := fun hmem => (hnew name hmem).1 rfl
          exact ⟨⟨hname, hrest⟩, fun other hother => (hnew other hother).2⟩
        · rintro ⟨⟨hname, hrest⟩, hnew⟩
          exact ⟨hrest, fun other hother =>
            ⟨fun heq => hname (heq ▸ hother), hnew other hother⟩⟩

/-- A name that is found was seen ahead of the list, or it is in the list twice. -/
theorem count_of_firstSeen? {seen names : List String} {name : String}
    (h : firstSeen? seen names = some name) :
    name ∈ names ∧ (name ∈ seen ∨ 2 ≤ names.count name) := by
  induction names generalizing seen with
  | nil => simp [firstSeen?] at h
  | cons first rest ih =>
      rw [firstSeen?] at h
      split at h
      · next hseen =>
          obtain rfl := Option.some.inj h
          exact ⟨List.mem_cons_self, Or.inl hseen⟩
      · obtain ⟨hmem, hseen | hcount⟩ := ih h
        · refine ⟨List.mem_cons_of_mem _ hmem, ?_⟩
          rcases List.mem_cons.mp hseen with rfl | hseen
          · right
            rw [List.count_cons_self]
            exact Nat.succ_le_succ (List.count_pos_iff.mpr hmem)
          · exact Or.inl hseen
        · exact ⟨List.mem_cons_of_mem _ hmem,
            Or.inr (hcount.trans List.count_le_count_cons)⟩

namespace ClassBody

theorem repeated?_eq_none_iff {body : ClassBody} :
    body.repeated? = none ↔ body.UniqueNames := by
  rw [repeated?, List.findSome?_eq_none_iff]
  simp only [Option.map_eq_none_iff, firstSeen?_eq_none_iff, List.not_mem_nil,
    not_false_eq_true, implies_true, and_true]
  exact ⟨fun h kind => h kind (by cases kind <;> decide), fun h kind _ => h kind⟩

theorem count_of_repeated? {body : ClassBody} {key : MemberKey}
    (h : body.repeated? = some key) :
    2 ≤ (body.names key.kind).count key.name := by
  obtain ⟨kind, -, h⟩ := List.exists_of_findSome?_eq_some h
  obtain ⟨name, hname, rfl⟩ := Option.map_eq_some_iff.mp h
  exact (count_of_firstSeen? hname).2.resolve_left List.not_mem_nil

end ClassBody

/-- The check passes exactly if names are unique on every level. -/
theorem checkRepetitions_eq_ok_iff {levels : List ClassBody} :
    checkRepetitions levels = .ok () ↔ ∀ level ∈ levels, level.UniqueNames := by
  induction levels with
  | nil => simp [checkRepetitions]
  | cons body rest ih =>
      rw [checkRepetitions, List.forall_mem_cons, ← ClassBody.repeated?_eq_none_iff]
      cases hbody : body.repeated? with
      | none => simp [ih]
      | some key => simp

/-- The first level that repeats a name is refused, with a name that it repeats. -/
theorem exists_of_checkRepetitions_eq_error {levels : List ClassBody} {err : ModelError}
    (h : checkRepetitions levels = .error err) :
    ∃ before body after key, levels = before ++ body :: after ∧
      (∀ level ∈ before, level.UniqueNames) ∧ 2 ≤ (body.names key.kind).count key.name ∧
      err = .duplicateLocalMember body.name key := by
  induction levels with
  | nil => simp [checkRepetitions] at h
  | cons body rest ih =>
      rw [checkRepetitions] at h
      cases hbody : body.repeated? with
      | some key =>
          rw [hbody] at h
          exact ⟨[], body, rest, key, rfl, by simp, ClassBody.count_of_repeated? hbody,
            (Except.error.inj h).symm⟩
      | none =>
          rw [hbody] at h
          obtain ⟨before, level, after, key, rfl, hbefore, hcount, herr⟩ := ih h
          refine ⟨body :: before, level, after, key, rfl, ?_, hcount, herr⟩
          rw [List.forall_mem_cons]
          exact ⟨ClassBody.repeated?_eq_none_iff.mp hbody, hbefore⟩

end Repetitions

/-! ## Resolution -/

/-- The interface offers the members that are in effect for a class, each name where
the root-most level that has it puts it. -/
structure Interface.Inherits (i : Interface) (cls : DeviceClass) : Prop where
  names_eq : ∀ kind, i.names kind = (cls.levels.flatMap (·.names kind)).eraseDups
  member?_eq : ∀ key, i.member? key = cls.inEffect? key

def InterfaceIssue.isHiding (issue : InterfaceIssue) : Bool :=
  issue.kind = .hiddenByOverride ∨ issue.kind = .implicitOverride

namespace DeviceClass

/-- What the resolution of a class comes to. -/
inductive Resolves (cls : DeviceClass) :
    Except ModelError (Interface × List InterfaceIssue) → Prop
  /-- The nearest ancestor of another language. -/
  | foreign {before after : List DeviceClass} {ancestor : DeviceClass}
      (hancestors : cls.ancestors = before ++ ancestor :: after)
      (hbefore : ∀ nearer ∈ before, nearer.language = cls.language)
      (hlanguage : ancestor.language ≠ cls.language) :
      Resolves cls
        (.error (.languageMismatch cls.name ancestor.name cls.language
          ancestor.language))
  /-- The level next to the root that has a member twice. -/
  | repeated {before after : List ClassBody} {body : ClassBody} {key : MemberKey}
      (hlanguages : ∀ ancestor ∈ cls.ancestors, ancestor.language = cls.language)
      (hlevels : cls.levels = before ++ body :: after)
      (hbefore : ∀ level ∈ before, level.UniqueNames)
      (hkey : 2 ≤ (body.names key.kind).count key.name) :
      Resolves cls (.error (.duplicateLocalMember body.name key))
  | resolved {i : Interface} {issues : List InterfaceIssue}
      (hlanguages : ∀ ancestor ∈ cls.ancestors, ancestor.language = cls.language)
      (hlevels : ∀ level ∈ cls.levels, level.UniqueNames)
      (hinherits : i.Inherits cls)
      (hissues : issues.filter (·.isHiding) = cls.hidings) :
      Resolves cls (.ok (i, issues))

variable {cls : DeviceClass}

theorem names_rawInterface (cls : DeviceClass) (kind : MemberKind) :
    cls.rawInterface.names kind = (cls.levels.flatMap (·.names kind)).eraseDups := by
  cases kind
  · exact KindView.attributes.keys_effective cls
  · exact KindView.commands.keys_effective cls
  · exact KindView.classProperties.keys_effective cls
  · exact KindView.deviceProperties.keys_effective cls
  · exact KindView.pipes.keys_effective cls

theorem hasMember_rawInterface {key : MemberKey} :
    cls.rawInterface.hasMember key = true ↔
      ∃ level ∈ cls.levels, level.hasMember key = true := by
  simp only [Interface.hasMember, List.contains_iff_mem, names_rawInterface,
    List.mem_eraseDups, List.mem_flatMap, ClassBody.hasMember_iff]

/-- Before constraints are looked at, the interface already offers the members in
effect. -/
theorem member?_rawInterface (hlevels : ∀ level ∈ cls.levels, level.UniqueNames)
    (key : MemberKey) : cls.rawInterface.member? key = cls.inEffect? key := by
  obtain ⟨kind, name⟩ := key
  cases kind
  · exact KindView.attributes.get?_effective hlevels name
  · exact KindView.commands.get?_effective hlevels name
  · exact KindView.classProperties.get?_effective hlevels name
  · exact KindView.deviceProperties.get?_effective hlevels name
  · exact KindView.pipes.get?_effective hlevels name

theorem hidingIssues_eq_hidings (hlevels : ∀ level ∈ cls.levels, level.UniqueNames) :
    cls.hidingIssues = cls.hidings := by
  simp only [hidingIssues, hidings, MemberKind.all, List.flatMap_cons, List.flatMap_nil,
    List.append_nil, List.append_assoc, ← KindView.attributes.hidingIssues_eq hlevels,
    ← KindView.commands.hidingIssues_eq hlevels,
    ← KindView.classProperties.hidingIssues_eq hlevels,
    ← KindView.deviceProperties.hidingIssues_eq hlevels,
    ← KindView.pipes.hidingIssues_eq hlevels]
  rfl

theorem isHiding_of_mem_hidings {issue : InterfaceIssue} (h : issue ∈ cls.hidings) :
    issue.isHiding = true := by
  obtain ⟨kind, -, h⟩ := List.mem_flatMap.mp h
  obtain ⟨member, -, h⟩ := List.mem_filterMap.mp h
  obtain ⟨ancestor, -, rfl⟩ := Option.map_eq_some_iff.mp h
  split <;> rfl

/-- Issues of constraints are of another sort than those of hidden members. -/
theorem not_isHiding_of_mem_constraintIssues {owner : String}
    {hasMember : MemberKey → Bool} {states : OrderedMap String State}
    {constraints : OrderedMap MemberKey (List String)} {issue : InterfaceIssue}
    (h : issue ∈ constraintIssues owner hasMember states constraints) :
    issue.isHiding = false := by
  obtain ⟨e, -, h⟩ := List.mem_flatMap.mp h
  split at h
  · obtain ⟨state, -, rfl⟩ := List.mem_map.mp h
    rfl
  · rw [List.mem_singleton.mp h]
    rfl

/-- So the issues of hidden members can be told from the others. -/
theorem filter_isHiding_issues (cls : DeviceClass) {owner : String}
    {hasMember : MemberKey → Bool} {states : OrderedMap String State}
    {constraints : OrderedMap MemberKey (List String)} :
    (cls.hidings ++ constraintIssues owner hasMember states constraints).filter
      (·.isHiding) = cls.hidings := by
  have hhidings : cls.hidings.filter (·.isHiding) = cls.hidings :=
    List.filter_eq_self.mpr fun _ => isHiding_of_mem_hidings
  have hconstraints : ∀ issue ∈ constraintIssues owner hasMember states constraints,
      ¬ issue.isHiding = true := by
    intro issue hissue
    simp [not_isHiding_of_mem_constraintIssues hissue]
  rw [List.filter_append, hhidings, List.filter_eq_nil_iff.mpr hconstraints,
    List.append_nil]

theorem checkLanguages_eq_ok_iff :
    cls.checkLanguages = .ok () ↔
      ∀ ancestor ∈ cls.ancestors, ancestor.language = cls.language := by
  rw [checkLanguages]
  split
  · next ancestor hfind =>
      have hmem := List.mem_of_find?_eq_some hfind
      have hne : ancestor.language ≠ cls.language := by
        simpa using List.find?_some hfind
      simpa using ⟨ancestor, hmem, hne⟩
  · next hfind => simpa [List.find?_eq_none] using hfind

/-- The nearest ancestor of another language is refused. -/
theorem exists_of_checkLanguages_eq_error {err : ModelError}
    (h : cls.checkLanguages = .error err) :
    ∃ before ancestor after, cls.ancestors = before ++ ancestor :: after ∧
      (∀ nearer ∈ before, nearer.language = cls.language) ∧
      ancestor.language ≠ cls.language ∧
      err = .languageMismatch cls.name ancestor.name cls.language
        ancestor.language := by
  rw [checkLanguages] at h
  split at h
  · next ancestor hfind =>
      obtain ⟨hne, before, after, hancestors, hbefore⟩ :=
        List.find?_eq_some_iff_append.mp hfind
      exact ⟨before, ancestor, after, hancestors, by simpa using hbefore,
        by simpa using hne, (Except.error.inj h).symm⟩
  · exact absurd h (by simp)

/-- A class in one language, with unique names on each level, resolves. -/
theorem resolve_eq_of_levels
    (hlanguages : ∀ ancestor ∈ cls.ancestors, ancestor.language = cls.language)
    (hlevels : ∀ level ∈ cls.levels, level.UniqueNames) :
    cls.resolve =
      let raw := cls.rawInterface
      .ok ({ raw with
          allowed := pruneConstraints raw.hasMember raw.states raw.allowed },
        cls.hidings ++
          constraintIssues cls.name raw.hasMember raw.states raw.allowed) := by
  rw [resolve, checkLanguages_eq_ok_iff.mpr hlanguages,
    checkRepetitions_eq_ok_iff.mpr hlevels, hidingIssues_eq_hidings hlevels]
  rfl

/-- A class resolves exactly under two conditions, and there is one interface and one
list of issues that it can resolve to. -/
theorem resolve_eq_ok_iff {i : Interface} {issues : List InterfaceIssue} :
    cls.resolve = .ok (i, issues) ↔
      (∀ ancestor ∈ cls.ancestors, ancestor.language = cls.language) ∧
        (∀ level ∈ cls.levels, level.UniqueNames) ∧
        i = { cls.rawInterface with
          allowed := pruneConstraints cls.rawInterface.hasMember cls.rawInterface.states
            cls.rawInterface.allowed } ∧
        issues = cls.hidings ++ constraintIssues cls.name cls.rawInterface.hasMember
          cls.rawInterface.states cls.rawInterface.allowed := by
  constructor
  · intro h
    obtain ⟨⟨⟩, hlanguages, hrest⟩ := Outcome.bind_eq_ok_iff.mp h
    obtain ⟨⟨⟩, hlevels, -⟩ := Outcome.bind_eq_ok_iff.mp hrest
    rw [checkLanguages_eq_ok_iff] at hlanguages
    rw [checkRepetitions_eq_ok_iff] at hlevels
    rw [resolve_eq_of_levels hlanguages hlevels] at h
    obtain ⟨rfl, rfl⟩ := Prod.mk.inj (Except.ok.inj h)
    exact ⟨hlanguages, hlevels, rfl, rfl⟩
  · rintro ⟨hlanguages, hlevels, rfl, rfl⟩
    exact resolve_eq_of_levels hlanguages hlevels

/-- The nearest declaration of a command counts, and the next one is overridden. -/
example :
    let root : DeviceClass :=
      { name := "Root", language := .java, commands := [{ name := "Stop" }] }
    let axis : DeviceClass := { root with name := "Axis", ancestors := [root] }
    let motor : DeviceClass :=
      { name := "Motor", language := .java, ancestors := [axis, root] }
    motor.inEffect? ⟨.command, "Stop"⟩ =
      some ⟨.command { name := "Stop" }, "Axis", true, some "Root"⟩ := by
  rfl

end DeviceClass

end DeviceForge
