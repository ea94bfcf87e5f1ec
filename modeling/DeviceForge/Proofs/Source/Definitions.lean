import DeviceForge.Proofs.Name.Words
import DeviceForge.Proofs.Source.MemberZones

/-!
# Names that sources define

Members share names only across kinds, and names that differ in one letter's
case are different.  Sources put all kinds into one scope, and fold case.
-/

namespace DeviceForge

theorem Name.isIdentifier_append {front back : String}
    (hfront : Name.isIdentifier front = true) (hback : Name.IsWord back) :
    Name.isIdentifier (front ++ back) = true := by
  rw [Name.isIdentifier, Name.fault?, Option.isNone_iff_eq_none,
    Name.faultOf_eq_none_iff] at hfront ⊢
  obtain ⟨c, rest, hchars, hc, hrest⟩ := hfront
  refine ⟨c, rest ++ back.toList, by simp [hchars], hc, ?_⟩
  exact List.forall_mem_append.mpr ⟨hrest, hback⟩

/-- The name that a line of a Python scope gives a meaning: that of the field
that it assigns, or of the function that it begins. -/
def definedName? (text : String) : Option String :=
  let first := text.toList.takeWhile Name.isInnerChar
  let rest := text.toList.dropWhile Name.isInnerChar
  if first.isEmpty then none
  else if [' ', '=', ' '].isPrefixOf rest then some (String.ofList first)
  else if first = "def".toList then
    some (String.ofList ((rest.drop 1).takeWhile Name.isInnerChar))
  else none

/-- A word ends where another character follows. -/
theorem span_word {word : String} (h : Name.IsWord word) {c : Char}
    (hc : Name.isInnerChar c = false) (rest : List Char) :
    (word.toList ++ c :: rest).takeWhile Name.isInnerChar = word.toList ∧
      (word.toList ++ c :: rest).dropWhile Name.isInnerChar = c :: rest := by
  constructor
  · rw [List.takeWhile_append_of_pos h, List.takeWhile_cons_of_neg (by simp [hc]),
      List.append_nil]
  · rw [List.dropWhile_append_of_pos h, List.dropWhile_cons_of_neg (by simp [hc])]

theorem definedName?_assignment {name text : String} (h : Name.isIdentifier name = true)
    (value : List Char)
    (htext : text.toList = name.toList ++ ' ' :: '=' :: ' ' :: value) :
    definedName? text = some name := by
  obtain ⟨hword, hrest⟩ :=
    span_word (Name.isWord_of_isIdentifier h) (c := ' ') (by decide)
      ('=' :: ' ' :: value)
  have hne : name.toList.isEmpty = false := by
    simpa using Name.ne_empty_of_isIdentifier h
  simp only [definedName?, htext, hword, hrest, hne, Bool.false_eq_true, if_false]
  rw [if_pos (by simp), String.ofList_toList]

/-- A head of a function defines the name of the function, since its first word is the
keyword. -/
theorem definedName?_function {name text : String} (h : Name.isIdentifier name = true)
    (parameters : List Char)
    (htext : text.toList = "def".toList ++ ' ' :: (name.toList ++ '(' :: parameters)) :
    definedName? text = some name := by
  have hkeyword : Name.IsWord "def" := Name.isWord_of_isIdentifier (by decide)
  obtain ⟨hdef, hrest⟩ := span_word hkeyword (c := ' ') (by decide)
    (name.toList ++ '(' :: parameters)
  obtain ⟨hword, -⟩ :=
    span_word (Name.isWord_of_isIdentifier h) (c := '(') (by decide) parameters
  have hassign : [' ', '=', ' '].isPrefixOf
      (' ' :: (name.toList ++ '(' :: parameters)) = false := by
    have hequal : '=' ∉ name.toList := Name.notMem_of_isIdentifier h (by decide)
    cases hname : name.toList with
    | nil => simp [List.isPrefixOf]
    | cons c rest =>
        have hc : '=' ≠ c := by
          rintro rfl
          exact hequal (by simp [hname])
        simp [List.isPrefixOf, hc]
  simp only [definedName?, htext, hdef, hrest, hassign, List.drop_one,
    List.tail_cons, hword, Bool.false_eq_true, if_false, if_true]
  rw [if_neg (by decide), String.ofList_toList]

theorem definedName?_of_head {c : Char} {text : String}
    (hhead : text.toList.head? = some c) (hc : Name.isInnerChar c = false) :
    definedName? text = none := by
  have hword : text.toList.takeWhile Name.isInnerChar = [] := by
    cases htext : text.toList with
    | nil => rfl
    | cons d rest =>
        obtain rfl : d = c := by simpa [htext] using hhead
        simp [hc]
  simp [definedName?, hword]

/-- What a line defines in the scope that it belongs to.  A line further in
belongs to another scope. -/
def Piece.definedName? : Piece → Option String
  | .line 0 text => DeviceForge.definedName? text
  | _ => none

namespace Layout

/-- The names that a layout defines in its own scope. -/
def definitions (l : Layout) : List String :=
  l.filterMap Piece.definedName?

@[simp]
theorem definitions_nil : definitions [] = [] := rfl

@[simp]
theorem definitions_append (front back : Layout) :
    definitions (front ++ back) = definitions front ++ definitions back :=
  List.filterMap_append

@[simp]
theorem definitions_lines (texts : List String) :
    definitions (lines texts) = texts.filterMap definedName? := by
  simp only [definitions, lines, List.filterMap_map]
  rfl

@[simp]
theorem definitions_line (text : String) :
    definitions (line text) = (definedName? text).toList := by
  have hline : definitions (line text) = [text].filterMap definedName? :=
    definitions_lines [text]
  rw [hline]
  cases h : definedName? text <;> simp [h]

@[simp]
theorem definitions_blank : definitions blank = [] := rfl

@[simp]
theorem definitions_zone (id : ZoneId) (body : String) :
    definitions (zone id body) = [] := rfl

@[simp]
theorem definitions_indented (l : Layout) : definitions (indented l) = [] := by
  rw [definitions, indented, List.filterMap_map, List.filterMap_eq_nil_iff]
  intro piece _
  cases piece <;> rfl

@[simp]
theorem definitions_stacked (parts : List Layout) :
    definitions (stacked parts) = parts.flatMap definitions := by
  rw [definitions, stacked, List.filterMap_flatten, List.flatMap_def]
  rfl

@[simp]
theorem definitions_forEach {α : Type} (items : List α) (f : α → Layout) :
    definitions (forEach items f) = items.flatMap fun item => definitions (f item) := by
  simp [forEach, definitions, List.filterMap_flatMap]

theorem definitions_unlessEmpty {α : Type} {items : List α} {l : Layout}
    (h : items = [] → definitions l = []) :
    definitions (unlessEmpty items l) = definitions l := by
  rw [unlessEmpty]
  split
  · next hempty => rw [h (List.isEmpty_iff.mp hempty), definitions_nil]
  · rfl

end Layout

/-! ## What a member defines -/

def Interface.localProperties (i : Interface) : List Member :=
  i.classProperties.locals.map .classProperty ++
    i.deviceProperties.locals.map .deviceProperty

def Interface.ownMembers (i : Interface) : List Member :=
  i.localProperties ++ i.localMembers

namespace PythonHL

open Layout
open Script (function)

/-- What stands in the class for a member that it declares. -/
def memberLayout (c : SourceContext) : Member → Layout
  | .attribute a => attributeField a ++ attributeMethods c a
  | .command cmd => commandMethod c cmd
  | .classProperty p => propertyField .classProperty p
  | .deviceProperty p => propertyField .deviceProperty p
  | .pipe p => pipeField p ++ pipeMethods c p

/-- The name of the method that handles a zone of a member.  A command is
executed by a method of its own name. -/
def accessMethod? (name : String) : MemberRole → Option String
  | .read => some ("read_" ++ name)
  | .write => some ("write_" ++ name)
  | .isAllowed => some ("is_" ++ name ++ "_allowed")
  | .execute => none

/-- The methods that access a member, and the one that decides about states. -/
def accessMethods (c : SourceContext) (m : Member) : List String :=
  (c.iface.rolesOf .pythonHL m).filterMap (accessMethod? m.name)

theorem definitions_function {head name : String} (h : definedName? head = some name)
    (body : Layout) : definitions (function head body) = [name] := by
  simp [function, h]

/-- A function defines the name that its head gives it. -/
theorem definitions_def {head name : String} (h : Name.isIdentifier name = true)
    (parameters : List Char)
    (hhead : head.toList = "def".toList ++ ' ' :: (name.toList ++ '(' :: parameters))
    (body : Layout) : definitions (function head body) = [name] :=
  definitions_function (definedName?_function h parameters hhead) body

/-- The method that decides about states is there for members that are denied in some.
-/
theorem definitions_isAllowed (c : SourceContext) (key : MemberKey)
    (h : Name.isIdentifier key.name = true) (parameters : String) :
    definitions (isAllowed c key parameters) =
      if c.iface.isDenied key then ["is_" ++ key.name ++ "_allowed"] else [] := by
  rw [isAllowed, Script.isAllowed, Interface.isDenied]
  cases c.iface.deniedStates key with
  | nil => rfl
  | cons state rest =>
      have hallowed : Name.IsWord "_allowed" := List.all_eq_true.mp rfl
      have hname : Name.isIdentifier ("is_" ++ key.name ++ "_allowed") = true :=
        Name.isIdentifier_append (Name.isIdentifier_append (by decide)
          (Name.isWord_of_isIdentifier h)) hallowed
      exact definitions_def hname ("self".toList ++ parameters.toList ++ "):".toList)
        (by simp [toString]) _

theorem definedName?_closing : definedName? ")" = none := by
  decide

theorem definitions_attributeField {a : Attribute}
    (h : Name.isIdentifier a.name = true) :
    definitions (attributeField a) = [a.name] := by
  have hhead : definedName? s!"{a.name} = attribute(" = some a.name :=
    definedName?_assignment h "attribute(".toList (by simp [toString])
  simp [attributeField, hhead, definedName?_closing]

theorem definitions_propertyField (kind : MemberKind) {p : Property}
    (h : Name.isIdentifier p.name = true) :
    definitions (propertyField kind p) = [p.name] := by
  have hhead : ∀ factory : String,
      definedName? s!"{p.name} = {factory}(" = some p.name := fun factory =>
    definedName?_assignment h (factory.toList ++ ['(']) (by simp [toString])
  simp [propertyField, hhead, definedName?_closing]

theorem definitions_pipeField {p : Pipe} (h : Name.isIdentifier p.name = true) :
    definitions (pipeField p) = [p.name] := by
  have hhead : ∀ doc access : String,
      definedName? s!"{p.name} = pipe(doc={doc}{access})" = some p.name :=
    fun doc access => definedName?_assignment h
      ("pipe(doc=".toList ++ doc.toList ++ access.toList ++ [')']) (by simp [toString])
  simp [pipeField, hhead]

theorem definitions_read {name : String} (h : Name.isIdentifier name = true)
    (body : Layout) :
    definitions (function s!"def read_{name}(self):" body) = ["read_" ++ name] := by
  have hread : Name.isIdentifier ("read_" ++ name) = true :=
    Name.isIdentifier_append (by decide) (Name.isWord_of_isIdentifier h)
  exact definitions_def hread "self):".toList (by simp [toString]) body

theorem definitions_write {name : String} (h : Name.isIdentifier name = true)
    (body : Layout) :
    definitions (function s!"def write_{name}(self, value):" body) =
      ["write_" ++ name] := by
  have hwrite : Name.isIdentifier ("write_" ++ name) = true :=
    Name.isIdentifier_append (by decide) (Name.isWord_of_isIdentifier h)
  exact definitions_def hwrite "self, value):".toList (by simp [toString]) body

theorem definitions_attributeMethods (c : SourceContext) {a : Attribute}
    (h : Name.isIdentifier a.name = true) :
    definitions (attributeMethods c a) = accessMethods c (.attribute a) := by
  simp only [attributeMethods, definitions_append, apply_ite definitions,
    definitions_nil, definitions_read h, definitions_write h,
    definitions_isAllowed c ⟨.attribute, a.name⟩ h, accessMethods, Interface.rolesOf,
    Member.roles, Member.accessRoles, DeviceForge.accessRoles, Member.key, Member.kind,
    Member.name]
  cases a.access.isReadable <;> cases a.access.isWritable <;>
    cases c.iface.isDenied ⟨.attribute, a.name⟩ <;> rfl

theorem definitions_pipeMethods (c : SourceContext) {p : Pipe}
    (h : Name.isIdentifier p.name = true) :
    definitions (pipeMethods c p) = accessMethods c (.pipe p) := by
  simp only [pipeMethods, definitions_append, apply_ite definitions, definitions_nil,
    definitions_read h, definitions_write h, definitions_isAllowed c ⟨.pipe, p.name⟩ h,
    accessMethods, Interface.rolesOf, Member.roles, Member.accessRoles,
    DeviceForge.accessRoles, Member.key, Member.kind, Member.name]
  cases p.writable <;> cases c.iface.isDenied ⟨.pipe, p.name⟩ <;> rfl

/-- A command has a method of its own name, below its decorators. -/
theorem definitions_commandMethod (c : SourceContext) {cmd : Command}
    (h : Name.isIdentifier cmd.name = true) :
    definitions (commandMethod c cmd) = cmd.name :: accessMethods c (.command cmd) := by
  have hdecorators : ∀ arguments : String,
      definitions (lines [s!"@command({arguments})", "@DebugIt()"]) = [] := by
    intro arguments
    have hcommand : definedName? s!"@command({arguments})" = none :=
      definedName?_of_head (c := '@') (by simp [toString]) (by decide)
    have hdebug : definedName? "@DebugIt()" = none := by decide
    simp [hcommand, hdebug]
  have hmethod : ∀ (parameters : String) (body : Layout),
      definitions (function s!"def {cmd.name}(self{parameters}):" body) =
        [cmd.name] := by
    intro parameters body
    exact definitions_def h ("self".toList ++ parameters.toList ++ "):".toList)
      (by simp [toString]) body
  simp only [commandMethod, definitions_append, hdecorators, hmethod, List.nil_append,
    List.singleton_append, List.cons.injEq, true_and,
    definitions_isAllowed c ⟨.command, cmd.name⟩ h, accessMethods, Interface.rolesOf,
    Member.roles, Member.accessRoles, Member.key, Member.kind, Member.name]
  cases c.iface.isDenied ⟨.command, cmd.name⟩ <;> rfl

/-- A member defines its name and the names of its access methods. -/
theorem definitions_memberLayout (c : SourceContext) {m : Member}
    (h : Name.isIdentifier m.name = true) :
    definitions (memberLayout c m) = m.name :: accessMethods c m := by
  rcases m with a | cmd | p | p | p
  · rw [memberLayout, definitions_append, definitions_attributeField h,
      definitions_attributeMethods c h]
    rfl
  · exact definitions_commandMethod c h
  · exact definitions_propertyField .classProperty h
  · exact definitions_propertyField .deviceProperty h
  · rw [memberLayout, definitions_append, definitions_pipeField h,
      definitions_pipeMethods c h]
    rfl

/-! ## The scope of the class -/

def generalMethods : List String :=
  ["init_device", "always_executed_hook", "delete_device"]

theorem definitions_heading {ruler title : String} (hruler : definedName? ruler = none)
    (htitle : definedName? title = none) : definitions (heading ruler title) = [] := by
  simp [heading, hruler, htitle]

theorem definitions_lifecycle (c : SourceContext) :
    definitions (lifecycle c) = generalMethods := by
  have hheading : definitions (heading "# ---------------" "# General methods") = [] :=
    definitions_heading (by decide) (by decide)
  have hinit : definedName? "def init_device(self):" = some "init_device" := by decide
  have hhook : definedName? "def always_executed_hook(self):" =
      some "always_executed_hook" := by
    decide
  have hdelete : definedName? "def delete_device(self):" = some "delete_device" := by
    decide
  simp only [lifecycle, definitions_append, hheading, definitions_function hinit,
    definitions_function hhook, definitions_function hdelete]
  rfl

/-- The documentation of a class defines nothing. -/
theorem definedName?_of_mem_summary {i : Interface} {text : String}
    (h : text ∈ i.summary) :
    definedName? text = none := by
  have hheading : ∀ kind, definedName? (Interface.heading kind) = none := by
    intro kind
    cases kind <;> decide
  rw [Interface.summary, List.mem_flatMap] at h
  obtain ⟨kind, -, h⟩ := h
  split at h
  · cases h
  · rcases List.mem_cons.mp h with rfl | h
    · exact hheading kind
    · obtain ⟨name, -, rfl⟩ := List.mem_map.mp h
      exact definedName?_of_head (c := ' ') (by simp [Interface.summaryLine])
        (by decide)

theorem forEach_properties (c : SourceContext) :
    (forEach (c.iface.properties.filter (·.2.isLocal))
        fun (kind, r) => propertyField kind r.member) =
      forEach c.iface.localProperties (memberLayout c) := by
  simp only [forEach, Interface.properties, Interface.localProperties, MemberMap.locals,
    List.filter_append, List.filter_map, List.flatMap_append, List.flatMap_map,
    List.map_map]
  rfl

/-- A group of fields under its heading, if there are any. -/
theorem definitions_group {α : Type} {ruler title : String}
    (hruler : definedName? ruler = none) (htitle : definedName? title = none)
    (items : List α) (f : α → Layout) :
    definitions (unlessEmpty items (heading ruler title ++ forEach items f)) =
      items.flatMap fun item => definitions (f item) := by
  have hall : definitions (heading ruler title ++ forEach items f) =
      items.flatMap fun item => definitions (f item) := by
    rw [definitions_append, definitions_heading hruler htitle, definitions_forEach,
      List.nil_append]
  rw [definitions_unlessEmpty, hall]
  rintro rfl
  exact hall

/-- The fields stand in the order of the groups. -/
theorem definitions_declarations (c : SourceContext) :
    definitions (declarations c) =
      (c.iface.localProperties.flatMap fun m => definitions (memberLayout c m)) ++
        (c.iface.attributes.locals.flatMap fun a => definitions (attributeField a)) ++
        c.iface.pipes.locals.flatMap fun p => definitions (pipeField p) := by
  have hproperties := congrArg definitions (forEach_properties c)
  rw [definitions_forEach, definitions_forEach] at hproperties
  rw [declarations, definitions_append, definitions_append,
    definitions_group (by decide) (by decide),
    definitions_group (by decide) (by decide),
    definitions_group (by decide) (by decide), hproperties]

/-- A class defines its general methods, and what stands in it for its own members. -/
theorem perm_definitions_classMembers (c : SourceContext) :
    (definitions (classMembers c)).Perm
      (generalMethods ++ c.iface.ownMembers.flatMap fun m =>
        definitions (memberLayout c m)) := by
  have hquotes : definedName? "\"\"\"" = none := by decide
  have hsummary : c.iface.summary.filterMap definedName? = [] :=
    List.filterMap_eq_nil_iff.mpr fun _ => definedName?_of_mem_summary
  have hattributes := List.flatMap_append_perm c.iface.attributes.locals
    (fun a => definitions (attributeField a)) fun a =>
      definitions (attributeMethods c a)
  have hpipes := List.flatMap_append_perm c.iface.pipes.locals
    (fun p => definitions (pipeField p)) fun p => definitions (pipeMethods c p)
  rw [List.perm_iff_count] at hattributes hpipes ⊢
  intro name
  -- Fields stand before the general methods, and the methods of their members behind.
  have hattributes := hattributes name
  have hpipes := hpipes name
  simp only [classMembers, definitions_stacked, List.flatMap_cons, List.flatMap_nil,
    definitions_append, definitions_line, definitions_lines, hquotes, hsummary,
    definitions_zone, definitions_blank, definitions_declarations,
    definitions_lifecycle, definitions_forEach, Option.toList_none, List.nil_append,
    List.append_nil, Interface.ownMembers, Interface.localMembers, List.flatMap_append,
    List.flatMap_map, memberLayout, List.count_append] at hattributes hpipes ⊢
  omega

/-- The name of an access method tells which member it belongs to. -/
theorem accessMethod?_inj {name other method : String} {role otherRole : MemberRole}
    (h : accessMethod? name role = some method)
    (hother : accessMethod? other otherRole = some method) : name = other := by
  have hsame := h.trans hother.symm
  -- Methods of different roles begin with different letters.
  obtain rfl : role = otherRole := by
    revert hsame
    cases role <;> cases otherRole <;> simp [accessMethod?, ← String.toList_inj]
  cases role with
  | read => exact (String.append_right_inj "read_").mp (Option.some.inj hsame)
  | write => exact (String.append_right_inj "write_").mp (Option.some.inj hsame)
  | isAllowed =>
      have hfront := (String.append_left_inj "_allowed").mp (Option.some.inj hsame)
      exact (String.append_right_inj "is_").mp hfront
  | execute => cases h

theorem name_eq_of_mem_accessMethods {c : SourceContext} {m other : Member}
    {method : String} (h : method ∈ accessMethods c m)
    (hother : method ∈ accessMethods c other) :
    m.name = other.name := by
  obtain ⟨role, -, hrole⟩ := List.mem_filterMap.mp h
  obtain ⟨otherRole, -, hotherRole⟩ := List.mem_filterMap.mp hother
  exact accessMethod?_inj hrole hotherRole

/-- Two members define a name both if they share theirs, or if one is named like an
access method of the other. -/
theorem exists_shared_definition_iff {c : SourceContext} {m other : Member}
    (h : Name.isIdentifier m.name = true)
    (hother : Name.isIdentifier other.name = true) :
    (∃ name ∈ definitions (memberLayout c m),
        name ∈ definitions (memberLayout c other)) ↔
      m.name = other.name ∨ m.name ∈ accessMethods c other ∨
      other.name ∈ accessMethods c m := by
  rw [definitions_memberLayout c h, definitions_memberLayout c hother]
  constructor
  · rintro ⟨name, hname, hshared⟩
    rcases List.mem_cons.mp hname with rfl | hname <;>
      rcases List.mem_cons.mp hshared with heq | hshared
    · exact Or.inl heq
    · exact Or.inr (Or.inl hshared)
    · exact Or.inr (Or.inr (heq ▸ hname))
    · exact Or.inl (name_eq_of_mem_accessMethods hname hshared)
  · rintro (heq | hmethod | hmethod)
    · exact ⟨m.name, List.mem_cons_self, heq ▸ List.mem_cons_self⟩
    · exact ⟨m.name, List.mem_cons_self, List.mem_cons_of_mem _ hmethod⟩
    · exact ⟨other.name, List.mem_cons_of_mem _ hmethod, List.mem_cons_self⟩

end PythonHL

section Classes

variable {cls : DeviceClass} {i : Interface} {issues : List InterfaceIssue}

theorem ClassBody.mem_allDeclared_iff {body : ClassBody} {m : Member} :
    m ∈ body.allDeclared ↔ m ∈ body.declared m.kind := by
  rw [allDeclared, List.mem_flatMap]
  constructor
  · rintro ⟨kind, -, hm⟩
    obtain rfl : m.kind = kind := by
      cases kind <;> obtain ⟨_, _, rfl⟩ := List.mem_map.mp hm <;> rfl
    exact hm
  · exact fun hm => ⟨m.kind, by cases m.kind <;> decide, hm⟩

theorem ClassBody.Named.isIdentifier_of_mem_allDeclared {body : ClassBody}
    (h : body.Named) {m : Member} (hm : m ∈ body.allDeclared) :
    Name.isIdentifier m.name = true := by
  refine h.members m.kind m.name ?_
  rw [names_eq_map_declared]
  exact List.mem_map_of_mem (mem_allDeclared_iff.mp hm)

/-- Members that share their name are of different kinds. -/
theorem ClassBody.UniqueNames.kind_ne {body : ClassBody} (h : body.UniqueNames)
    {m other : Member} (hm : m ∈ body.allDeclared) (hother : other ∈ body.allDeclared)
    (hne : m ≠ other) (hname : m.name = other.name) : m.kind ≠ other.kind := by
  intro hkind
  have hunique : ((body.declared m.kind).map Member.name).Nodup := by
    rw [← names_eq_map_declared]
    exact h m.kind
  have hsame := mem_allDeclared_iff.mp hother
  rw [← hkind] at hsame
  exact hne (List.inj_on_of_nodup_map hunique (mem_allDeclared_iff.mp hm) hsame hname)

/-- The members that the interface lists as own are those that the class declares. -/
theorem perm_ownMembers (hresolve : cls.resolve = .ok (i, issues))
    (hnamed : i.Named cls.toClassBody) : i.ownMembers.Perm cls.allDeclared := by
  have hproperties : i.localProperties.Perm
      (cls.declared .classProperty ++ cls.declared .deviceProperty) := by
    obtain ⟨-, hlevels, rfl, -⟩ := DeviceClass.resolve_eq_ok_iff.mp hresolve
    have hclass := KindView.classProperties.perm_locals hlevels
      (nodup_names_locals hnamed.classProperties)
    have hdevice := KindView.deviceProperties.perm_locals hlevels
      (nodup_names_locals hnamed.deviceProperties)
    exact (hclass.map _).append (hdevice.map _)
  have hmembers := (perm_localMembers hresolve hnamed).trans List.perm_append_comm
  simpa [ClassBody.allDeclared, MemberKind.all, Interface.ownMembers] using
    hproperties.append hmembers

/-- Commands have the same method in C++ exactly if their names have the same words, and
in Java exactly if they differ in nothing but the case of the first character.  With the
declarative device interface a class defines its general methods, the names of all
members that it declares and their access methods, and two members define a name both
exactly if they are of different kinds and share theirs, or if one is named like an
access method of the other. -/
theorem shared_generated_names_iff (hcls : cls.Checked)
    (hresolve : cls.resolve = .ok (i, issues)) (settings : Settings) :
    (∀ a ∈ cls.commands, ∀ b ∈ cls.commands, a ≠ b →
      (Cpp.methodName a = Cpp.methodName b ↔
        Name.snakeWords a.name = Name.snakeWords b.name) ∧
      (Java.methodName a = Java.methodName b ↔
        a.name.toList.head?.map Char.toLower = b.name.toList.head?.map Char.toLower ∧
          a.name.toList.tail = b.name.toList.tail)) ∧
    let c : SourceContext := ⟨i, cls.toClassBody, settings⟩
    (Layout.definitions (PythonHL.classMembers c)).Perm
      (PythonHL.generalMethods ++
        cls.allDeclared.flatMap fun m => m.name :: PythonHL.accessMethods c m) ∧
    ∀ m ∈ cls.allDeclared, ∀ other ∈ cls.allDeclared, m ≠ other →
      ((∃ name ∈ Layout.definitions (PythonHL.memberLayout c m),
          name ∈ Layout.definitions (PythonHL.memberLayout c other)) ↔
        (m.kind ≠ other.kind ∧ m.name = other.name) ∨
          m.name ∈ PythonHL.accessMethods c other ∨
          other.name ∈ PythonHL.accessMethods c m) := by
  have hbody := hcls.named.1
  obtain ⟨hnamed, -⟩ := hcls.named.resolve hresolve
  refine ⟨fun a _ b _ _ => ⟨Name.snakeCase_eq_iff, Name.mapFirst_toLower_eq_iff⟩, ?_,
    ?_⟩
  · have hown := PythonHL.perm_definitions_classMembers ⟨i, cls.toClassBody, settings⟩
    refine hown.trans (List.Perm.append_left _ ?_)
    refine ((perm_ownMembers hresolve hnamed).flatMap_right _).trans
      (List.Perm.of_eq ?_)
    exact List.flatMap_congr fun m hm =>
      PythonHL.definitions_memberLayout _ (hbody.isIdentifier_of_mem_allDeclared hm)
  · intro m hm other hother hne
    rw [PythonHL.exists_shared_definition_iff (hbody.isIdentifier_of_mem_allDeclared hm)
      (hbody.isIdentifier_of_mem_allDeclared hother)]
    have hkind := hbody.unique.kind_ne hm hother hne
    exact or_congr_left ⟨fun hname => ⟨hkind hname, hname⟩, And.right⟩

/-- A motor that moves by two commands, and that has a command for its position. -/
def movingMotor (language : Language) : DeviceClass where
  name := "Motor"
  language := language
  attributes := [{ name := "Position" }]
  commands := [{ name := "Move" }, { name := "move" }, { name := "Position" }]

theorem checked_movingMotor (language : Language) : (movingMotor language).Checked := by
  have hstart : DeviceClass.ofText "motor" language =
      .ok { name := "Motor", language := language } := rfl
  have hedits : DeviceClass.applyAll { name := "Motor", language := language }
      [.members (.add (.attribute { name := "Position" })),
        .members (.add (.command { name := "Move" })),
        .members (.add (.command { name := "move" })),
        .members (.add (.command { name := "Position" }))] =
          .ok (movingMotor language) := rfl
  exact ((DeviceClass.Reachable.ofText hstart).applyAll (by simp [ClassEdit.attached?])
    hedits).checked

/-- Two commands that differ in one letter's case share a method in C++ and Java, and an
attribute and a command of one name define it twice. -/
theorem shared_generated_names_iff_movingMotor :
    (movingMotor .pythonHL).Checked ∧
      Cpp.methodName { name := "Move" } = Cpp.methodName { name := "move" } ∧
      Java.methodName { name := "Move" } = Java.methodName { name := "move" } ∧
      ∃ i issues, (movingMotor .pythonHL).resolve = .ok (i, issues) ∧
        (Layout.definitions
            (PythonHL.classMembers ⟨i, (movingMotor .pythonHL).toClassBody, {}⟩)).Perm
          ["init_device", "always_executed_hook", "delete_device", "Move", "move",
            "Position", "Position", "read_Position"] := by
  obtain ⟨i, issues, hresolve, hdefined⟩ :
      ∃ i issues, (movingMotor .pythonHL).resolve = .ok (i, issues) ∧
        (PythonHL.generalMethods ++ (movingMotor .pythonHL).allDeclared.flatMap fun m =>
            m.name :: PythonHL.accessMethods
              ⟨i, (movingMotor .pythonHL).toClassBody, {}⟩ m) =
          ["init_device", "always_executed_hook", "delete_device", "Move", "move",
            "Position", "Position", "read_Position"] :=
    ⟨_, _, rfl, rfl⟩
  obtain ⟨hmethods, hscope, -⟩ :=
    shared_generated_names_iff (checked_movingMotor .pythonHL) hresolve {}
  obtain ⟨hcpp, hjava⟩ :=
    hmethods { name := "Move" } (by decide) { name := "move" } (by decide) (by decide)
  refine ⟨checked_movingMotor .pythonHL, hcpp.mpr (by decide), hjava.mpr (by decide),
    i, issues, hresolve, ?_⟩
  rw [← hdefined]
  exact hscope

/-- No method belongs to two commands in C++ and Java, and with the declarative device
interface no two members define the same name. -/
def DistinctNames (c : SourceContext) : Language → Prop
  | .cpp => ∀ a ∈ c.body.commands, ∀ b ∈ c.body.commands, a ≠ b →
      Cpp.methodName a ≠ Cpp.methodName b
  | .java => ∀ a ∈ c.body.commands, ∀ b ∈ c.body.commands, a ≠ b →
      Java.methodName a ≠ Java.methodName b
  | .python => True
  | .pythonHL => ∀ m ∈ c.body.allDeclared, ∀ other ∈ c.body.allDeclared, m ≠ other →
      ∀ name ∈ Layout.definitions (PythonHL.memberLayout c m),
        name ∉ Layout.definitions (PythonHL.memberLayout c other)

/-- The names are distinct in the sources of all classes that a language has sources
for. -/
def AlwaysDistinctNames (language : Language) : Prop :=
  ∀ (cls : DeviceClass) (i : Interface) (issues : List InterfaceIssue)
      (settings : Settings) (files : List Skeleton),
    cls.Checked → cls.language = language →
    cls.resolve = .ok (i, issues) →
    emit language ⟨i, cls.toClassBody, settings⟩ = .ok files →
    DistinctNames ⟨i, cls.toClassBody, settings⟩ language

theorem not_alwaysDistinctNames :
    ¬ AlwaysDistinctNames .cpp ∧ ¬ AlwaysDistinctNames .java ∧
    ¬ AlwaysDistinctNames .pythonHL := by
  have hmove : ({ name := "Move" } : Command) ∈ (movingMotor .cpp).commands := by decide
  have hother : ({ name := "move" } : Command) ∈ (movingMotor .cpp).commands := by
    decide
  refine ⟨fun h => ?_, fun h => ?_, fun h => ?_⟩
  · exact h (movingMotor .cpp) _ _ {} _ (checked_movingMotor .cpp) rfl rfl rfl
      { name := "Move" } hmove { name := "move" } hother (by decide) (by decide)
  · exact h (movingMotor .java) _ _ {} _ (checked_movingMotor .java) rfl rfl rfl
      { name := "Move" } hmove { name := "move" } hother (by decide) (by decide)
  · exact h (movingMotor .pythonHL) _ _ {} _ (checked_movingMotor .pythonHL) rfl rfl rfl
      (.attribute { name := "Position" }) (by decide) (.command { name := "Position" })
      (by decide) (by decide) "Position" (by decide) (by decide)

end Classes

end DeviceForge
