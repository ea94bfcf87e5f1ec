import DeviceForge.Legacy.Upgrade
import DeviceForge.Proofs.Device.Reachable
import DeviceForge.Proofs.Interface
import DeviceForge.Proofs.Legacy.Extraction
import DeviceForge.Proofs.Zone.Id

/-!
# What an upgrade makes

An upgrade edits a new class through the checks of any other edit and skips what
they refuse.  Members are added with types that fit their kind; constraints wait
for all members and are cut down to declared states.  So whatever the record
holds, the class is well formed, and its interface has nothing to report.
-/

namespace DeviceForge

namespace Noted

variable {α β : Type}

@[simp]
theorem value_pure (a : α) : (pure a : Noted α).value = a := rfl

@[simp]
theorem value_bind (x : Noted α) (f : α → Noted β) :
    (x >>= f).value = (f x.value).value := rfl

@[simp]
theorem value_map (f : α → β) (x : Noted α) : (f <$> x).value = f x.value := rfl

@[simp]
theorem issues_pure (a : α) : (pure a : Noted α).issues = [] := rfl

@[simp]
theorem issues_bind (x : Noted α) (f : α → Noted β) :
    (x >>= f).issues = x.issues ++ (f x.value).issues := rfl

@[simp]
theorem issues_map (f : α → β) (x : Noted α) : (f <$> x).issues = x.issues :=
  List.append_nil _

/-- What every step keeps is kept by all of them. -/
theorem value_foldlM {p : β → Prop} {f : β → α → Noted β} {items : List α}
    (hstep : ∀ b, p b → ∀ a ∈ items, p (f b a).value) {b : β} (hb : p b) :
    p (items.foldlM f b).value := by
  induction items generalizing b with
  | nil => exact hb
  | cons a rest ih =>
      rw [List.foldlM_cons, value_bind]
      exact ih (fun b hb other hother =>
        hstep b hb other (List.mem_cons_of_mem _ hother))
        (hstep b hb a List.mem_cons_self)

theorem value_foldlM_append {f : β → α → Noted β} (front back : List α) (b : β) :
    ((front ++ back).foldlM f b).value =
      (back.foldlM f (front.foldlM f b).value).value := by
  induction front generalizing b with
  | nil => rfl
  | cons a rest ih =>
      rw [List.cons_append, List.foldlM_cons, value_bind, ih, List.foldlM_cons,
        value_bind]

end Noted

/-! ## Well-formed bodies -/

/-- Attributes and properties have types for their kind. -/
def Member.Fits : Member → Prop
  | .attribute a => a.dataType.isAttributeType = true
  | .classProperty p | .deviceProperty p => p.dataType.isPropertyType = true
  | .command _ | .pipe _ => True

namespace ClassBody

/-- Names are good and unique, types fit, and constraints are about attributes and
commands of the body and its states. -/
structure WellFormed (body : ClassBody) : Prop where
  named : body.Named
  consistent : body.Consistent
  fits : ∀ kind, ∀ m ∈ body.declared kind, m.Fits
  kinds : ∀ e ∈ body.machine.allowed.entries,
    e.1.kind = .attribute ∨ e.1.kind = .command
  states : ∀ e ∈ body.machine.allowed.entries, ∀ state ∈ e.2,
    body.machine.hasState state = true

variable {body after : ClassBody}

theorem declared_append (body : ClassBody) (member : Member) (kind : MemberKind) :
    (body.append member).declared kind =
      if kind = member.kind then body.declared kind ++ [member]
        else body.declared kind := by
  cases member <;> cases kind <;> simp [append, declared, Member.kind]

theorem declared_with_machine (body : ClassBody) (machine : StateMachine)
    (kind : MemberKind) :
    ({ body with machine } : ClassBody).declared kind = body.declared kind := by
  cases kind <;> rfl

theorem WellFormed.addState {state : State} (h : body.WellFormed)
    (hadd : body.addState state = .ok after) : after.WellFormed := by
  have hnamed := h.named.addState hadd
  have hconsistent := h.consistent.addState hadd
  obtain ⟨-, -, rfl⟩ := addState_eq_ok_iff.mp hadd
  refine ⟨hnamed, hconsistent, fun kind => ?_, h.kinds, fun e he other hother => ?_⟩
  · rw [declared_with_machine]
    exact h.fits kind
  · have hknown := h.states e he other hother
    rw [StateMachine.hasState_iff] at hknown ⊢
    rw [List.map_append]
    exact List.mem_append_left _ hknown

/-- A checked addition keeps names good, and the member brings a type for its kind. -/
theorem WellFormed.add {member : Member} (h : body.WellFormed) (hfits : member.Fits)
    (hadd : body.add member = .ok after) : after.WellFormed := by
  have hnamed := h.named.add hadd
  have hconsistent := h.consistent.add hadd
  obtain ⟨-, -, rfl⟩ := add_eq_ok_iff.mp hadd
  have hmachine := (states_append body member).1
  refine ⟨hnamed, hconsistent, fun kind m hm => ?_, ?_, ?_⟩
  · rw [declared_append] at hm
    split at hm
    · rcases List.mem_append.mp hm with hm | hm
      · exact h.fits kind m hm
      · rwa [List.mem_singleton.mp hm]
    · exact h.fits kind m hm
  · rw [hmachine]
    exact h.kinds
  · rw [hmachine]
    exact h.states

/-- A constraint may be put on an attribute or a command, with states of the body. -/
theorem WellFormed.setAllowedStates {key : MemberKey} {names : List String}
    (h : body.WellFormed) (hkind : key.kind = .attribute ∨ key.kind = .command)
    (hnames : ∀ name ∈ names, body.machine.hasState name = true)
    (hset : body.setAllowedStates key names = .ok after) : after.WellFormed := by
  have hnamed := h.named.setAllowedStates hset
  have hconsistent := h.consistent.setAllowedStates hset
  obtain ⟨-, rfl⟩ := setAllowedStates_eq_ok_iff.mp hset
  refine ⟨hnamed, hconsistent, fun kind => ?_, fun e he => ?_, fun e he => ?_⟩
  · rw [declared_with_machine]
    exact h.fits kind
  · rcases OrderedMap.mem_entries_insert_iff.mp he with rfl | ⟨he, -⟩
    · exact hkind
    · exact h.kinds e he
  · rcases OrderedMap.mem_entries_insert_iff.mp he with rfl | ⟨he, -⟩
    · exact hnames
    · exact h.states e he

end ClassBody

/-- Without ancestors nothing is hidden, and constraints on members and states of the
class itself are all in effect. -/
theorem DeviceClass.exists_resolve_of_wellFormed {cls : DeviceClass}
    (hroot : cls.ancestors = []) (h : cls.toClassBody.WellFormed) :
    ∃ i, cls.resolve = .ok (i, []) := by
  have hlevels : cls.levels = [cls.toClassBody] := by simp [levels, hroot]
  have hhidings : cls.hidings = [] := by
    refine List.flatMap_eq_nil_iff.mpr fun kind _ =>
      List.filterMap_eq_nil_iff.mpr fun m _ => ?_
    rw [hroot]
    rfl
  have hallowed : cls.rawInterface.allowed.entries = cls.machine.allowed.entries := by
    rw [rawInterface, nearestConstraints, hlevels, List.foldl_cons, List.foldl_nil,
      OrderedMap.insertAll, OrderedMap.entries_foldl_insert
        cls.machine.allowed.nodup_keys _ (by simp [OrderedMap.keys])]
    rfl
  have hissues : constraintIssues cls.name cls.rawInterface.hasMember
      cls.rawInterface.states cls.rawInterface.allowed = [] := by
    refine List.flatMap_eq_nil_iff.mpr fun e he => ?_
    rw [hallowed] at he
    have hmember : cls.rawInterface.hasMember e.1 = true := by
      refine hasMember_rawInterface.mpr ⟨cls.toClassBody, by simp [hlevels], ?_⟩
      exact h.consistent.constraints e.1 (List.mem_map_of_mem he)
    rw [if_pos hmember, List.map_eq_nil_iff, List.filter_eq_nil_iff]
    intro state hstate
    have hknown : cls.rawInterface.states.contains state = true := by
      rw [OrderedMap.contains_iff_mem_keys, rawInterface, mem_keys_effectiveStates_iff]
      exact ⟨cls.toClassBody, by simp [hlevels],
        StateMachine.hasState_iff.mp (h.states e he state hstate)⟩
    simp [hknown]
  refine ⟨_, resolve_eq_ok_iff.mpr ⟨by simp [hroot], ?_, rfl, ?_⟩⟩
  · simpa [hlevels] using h.named.unique
  · rw [hhidings, hissues, List.append_nil]

namespace Legacy

variable {body : ClassBody}

theorem wellFormed_addState (h : body.WellFormed) (entry : RawValue) :
    (addState body entry).value.WellFormed := by
  rw [addState]
  split
  · exact h
  · split
    · next hadd => exact h.addState hadd
    · exact h

theorem fitting_value {fits : DataType → Bool} (hstring : fits .string = true)
    (issue : DataType → ConversionIssue) (type : DataType) :
    fits (fitting fits issue type).value = true := by
  rw [fitting]
  split
  · next hfits => exact hfits
  · exact hstring

theorem fits_readAttribute (item : RawRecord) (name : String) :
    (Member.attribute (readAttribute item name).value).Fits :=
  fitting_value rfl _ _

theorem fits_readProperty (kind : MemberKind) (item : RawRecord) (name : String) :
    (readProperty kind item name).value.dataType.isPropertyType = true :=
  fitting_value rfl _ _

/-- A record is read as a member of a fitting type, and is refused under a bad name. -/
theorem wellFormed_addMember {kind : MemberKind}
    {read : RawRecord → String → Noted Member}
    (hread : ∀ item name, (read item name).value.Fits) {so : ClassBody × Pending}
    (h : so.1.WellFormed) (item : RawRecord) :
    (addMember kind read so item).value.1.WellFormed := by
  rw [addMember]
  split
  · exact h
  · rw [Noted.value_bind]
    split
    · exact h
    · next hadd => exact h.add (hread _ _) hadd

/-- Only the member that is added can be constrained later. -/
theorem kind_of_mem_addMember {kind : MemberKind}
    {read : RawRecord → String → Noted Member} {so : ClassBody × Pending}
    {item : RawRecord} {constraint : MemberKey × List String}
    (h : constraint ∈ (addMember kind read so item).value.2) :
    constraint ∈ so.2 ∨ constraint.1.kind = kind := by
  rw [addMember] at h
  split at h
  · exact Or.inl h
  · rw [Noted.value_bind] at h
    split at h
    · exact Or.inl h
    · rcases List.mem_append.mp h with h | h
      · exact Or.inl h
      · obtain ⟨states, -, rfl⟩ := List.mem_map.mp h
        exact Or.inr rfl

section Members

variable {kind : MemberKind} {read : RawRecord → String → Noted Member}
  {so : ClassBody × Pending} (items : List RawRecord)

theorem wellFormed_addMembers (hread : ∀ item name, (read item name).value.Fits)
    (h : so.1.WellFormed) :
    (items.foldlM (addMember kind read) so).value.1.WellFormed :=
  Noted.value_foldlM (p := fun so : ClassBody × Pending => so.1.WellFormed)
    (fun _ hso item _ => wellFormed_addMember hread hso item) h

theorem kind_of_mem_addMembers {constraint : MemberKey × List String}
    (h : constraint ∈ (items.foldlM (addMember kind read) so).value.2) :
    constraint ∈ so.2 ∨ constraint.1.kind = kind := by
  refine Noted.value_foldlM
    (p := fun after : ClassBody × Pending => constraint ∈ after.2 →
      constraint ∈ so.2 ∨ constraint.1.kind = kind)
        (fun after hafter item _ hmem => ?_) Or.inl h
  exact (kind_of_mem_addMember hmem).elim hafter Or.inr

end Members

theorem wellFormed_addConstraint (h : body.WellFormed)
    {constraint : MemberKey × List String}
    (hkind : constraint.1.kind = .attribute ∨ constraint.1.kind = .command) :
    (addConstraint body constraint).value.WellFormed := by
  rw [addConstraint]
  split
  · next hset =>
      exact h.setAllowedStates hkind
        (fun name hname => (List.mem_filter.mp hname).2) hset
  · exact h

def attributeOf (item : RawRecord) (name : String) : Noted Member :=
  .attribute <$> readAttribute item name

def commandOf (item : RawRecord) (name : String) : Noted Member :=
  .command <$> readCommand item name

def classPropertyOf (item : RawRecord) (name : String) : Noted Member :=
  .classProperty <$> readProperty .classProperty item name

def devicePropertyOf (item : RawRecord) (name : String) : Noted Member :=
  .deviceProperty <$> readProperty .deviceProperty item name

section Contents

variable (record : RawRecord)

/-- The states, the attributes and the commands, with the constraints that wait. -/
def readConstrainable (body : ClassBody) : ClassBody × Pending :=
  let declared := ((listField record "states").foldlM addState body).value
  let attributes := ((recordsField record "attributes").foldlM
    (addMember .attribute attributeOf) (declared, [])).value
  ((recordsField record "commands").foldlM (addMember .command commandOf)
    attributes).value

/-- The properties after all others. -/
def readProperties (body : ClassBody) : ClassBody :=
  let shared := ((recordsField record "class_properties").foldlM
    (addMember .classProperty classPropertyOf) (body, [])).value
  ((recordsField record "device_properties").foldlM
    (addMember .deviceProperty devicePropertyOf) (shared.1, [])).value.1

theorem value_readContents (body : ClassBody) :
    (readContents record body).value =
      ((readConstrainable record body).2.foldlM addConstraint
        (readProperties record (readConstrainable record body).1)).value := rfl

theorem wellFormed_readConstrainable (h : body.WellFormed) :
    (readConstrainable record body).1.WellFormed := by
  have hdeclared :
      ((listField record "states").foldlM addState body).value.WellFormed :=
    Noted.value_foldlM (p := ClassBody.WellFormed)
      (fun _ hbody entry _ => wellFormed_addState hbody entry) h
  exact wellFormed_addMembers _ (fun _ _ => trivial)
    (wellFormed_addMembers _ fits_readAttribute hdeclared)

/-- Constraints come from attributes and commands only. -/
theorem kind_of_mem_readConstrainable {constraint : MemberKey × List String}
    (h : constraint ∈ (readConstrainable record body).2) :
    constraint.1.kind = .attribute ∨ constraint.1.kind = .command := by
  rcases kind_of_mem_addMembers _ h with hmem | hkind
  · rcases kind_of_mem_addMembers _ hmem with hmem | hkind
    · exact absurd hmem List.not_mem_nil
    · exact Or.inl hkind
  · exact Or.inr hkind

theorem wellFormed_readProperties (h : body.WellFormed) :
    (readProperties record body).WellFormed :=
  wellFormed_addMembers _ (fits_readProperty .deviceProperty)
    (wellFormed_addMembers _ (fits_readProperty .classProperty) h)

/-- Everything that is read into a body keeps it well formed: the states, the members of
each kind, and the constraints of attributes and commands. -/
theorem wellFormed_readContents (h : body.WellFormed) :
    (readContents record body).value.WellFormed := by
  rw [value_readContents]
  refine Noted.value_foldlM (p := ClassBody.WellFormed)
    (fun _ hbody constraint hmem => ?_)
      (wellFormed_readProperties record (wellFormed_readConstrainable record h))
  exact wellFormed_addConstraint hbody (kind_of_mem_readConstrainable record hmem)

end Contents

end Legacy

/-- The zone is one of the class, or one of a member that the body has. -/
def ClassBody.Owns (body : ClassBody) (id : ZoneId) : Prop :=
  (∃ role, id.text = "class:" ++ role) ∨
    ∃ slot, id.slot? = some slot ∧ body.hasMember slot.key = true

namespace Legacy

variable {body : ClassBody}

/-- A zone that may be filled, and whose member is not missing, is one of the class. -/
theorem owns_of_isFillable {id : ZoneId} (hfillable : Extraction.isFillable id = true)
    (howner : missingOwner? body id = none) : body.Owns id := by
  rw [Extraction.isFillable, Bool.or_eq_true] at hfillable
  rcases hfillable with hslot | hclass
  · obtain ⟨slot, hslot⟩ := Option.isSome_iff_exists.mp hslot
    refine Or.inr ⟨slot, hslot, ?_⟩
    rw [missingOwner?, hslot, Option.bind_some, ite_eq_left_iff] at howner
    by_contra hmember
    exact absurd (howner hmember) (by simp)
  · obtain ⟨role, hrole⟩ := Option.isSome_iff_exists.mp hclass
    refine Or.inl ⟨String.ofList role, String.toList_injective ?_⟩
    rw [Text.afterStart?_eq_some_iff.mp hrole]
    simp

/-- What holds without fragments, and goes on to hold when a body that a source gives is
stored for a member of the class or for the class itself, holds of the recovered bodies.
-/
theorem recoverBodies_induction {p : Fragments → Prop}
    (sources : OrderedMap String String) (hempty : p .empty)
    (hstore : ∀ fragments, p fragments → ∀ source ∈ sources.entries,
      ∀ found ∈ extractMethods source.2, missingOwner? body found.id = none →
        ∀ text, p (fragments.store found.id text)) :
    p (recoverBodies sources body).value := by
  have hmethod : ∀ source ∈ sources.entries, ∀ fragments, p fragments →
      ∀ found ∈ extractMethods source.2,
        p (addMethod body source.1 fragments found).value := by
    intro source hsource fragments hfragments found hfound
    rw [addMethod]
    split
    · exact hfragments
    · exact hfragments
    · next howner _ =>
        exact hstore fragments hfragments source hsource found hfound howner _
  have hfragments : p (sources.entries.foldlM (fun fragments source =>
      (extractMethods source.2).foldlM (addMethod body source.1) fragments)
      (OrderedMap.empty : Fragments)).value :=
    Noted.value_foldlM (fun _ hfragments source hsource =>
      Noted.value_foldlM (hmethod source hsource) hfragments) hempty
  rw [recoverBodies, Noted.value_bind]
  split
  · exact hfragments
  · exact hfragments

theorem owns_recoverBodies (sources : OrderedMap String String) :
    ∀ id ∈ (recoverBodies sources body).value.keys, body.Owns id := by
  refine recoverBodies_induction (p := fun fragments : Fragments =>
    ∀ id ∈ fragments.keys, body.Owns id) sources (by simp [OrderedMap.keys]) ?_
  intro fragments hfragments source _ found hfound howner text id hid
  rcases OrderedMap.mem_keys_insert_iff.mp hid with rfl | hid
  · exact owns_of_isFillable (isFillable_of_mem_extractMethods hfound) howner
  · exact hfragments id hid

/-! ## The upgrade -/

variable {desc : LegacyDescription} {settings : Settings} {conv : Conversion}

/-- The class is what is read into a new body, and the fragments are what is recovered
for it. -/
theorem value_convert (desc : LegacyDescription) (settings : Settings) (name : String)
    (language : Language) :
    let body := (readContents desc.record {
      name, language, metadata := (readMetadata desc.record).value
      isAbstract := flag desc.record "abstract" }).value
    (convert desc settings name language).value =
      ({ toClassBody := body },
        if body.isAbstract || !settings.recoverLegacyCode then .empty
        else (recoverBodies desc.sources body).value) := by
  intro body
  have hvalue : (convert desc settings name language).value =
      (if body.isAbstract || !settings.recoverLegacyCode then
        (pure ({ toClassBody := body }, .empty) : Noted (DeviceClass × Fragments))
      else do return ({ toClassBody := body },
        ← recoverBodies desc.sources body)).value := rfl
  rw [hvalue]
  split <;> rfl

/-- A description that is upgraded has a class name that spells an identifier. -/
theorem exists_convert_of_upgrade (h : upgrade desc settings = .ok conv) :
    ∃ name, Name.isIdentifier name = true ∧
      let result := convert desc settings name (readLanguage desc.record).value
      (conv.cls, conv.fragments) = result.value ∧
        conv.issues = (readLanguage desc.record).issues ++ result.issues := by
  rw [upgrade] at h
  split at h
  · exact absurd (Outcome.bind_eq_ok_iff.mp h) (by simp [Outcome.throw_ne_ok])
  · simp only at h
    split at h
    · obtain ⟨name, hname, h⟩ := Outcome.bind_eq_ok_iff.mp h
      rw [Outcome.pure_eq_ok_iff] at h
      rw [Outcome.mapError_eq_ok_iff] at hname
      obtain rfl := h
      exact ⟨name, Name.isIdentifier_of_ofText hname, rfl, rfl⟩
    · exact absurd h Outcome.throw_ne_ok

/-- A class without members and states is well-formed if its name is. -/
theorem wellFormed_start {name : String} (hname : Name.isIdentifier name = true)
    (language : Language) (metadata : Metadata) (isAbstract : Bool) :
    ({ name, language, metadata, isAbstract } : ClassBody).WellFormed := by
  have hnames : ∀ kind,
      ({ name, language, metadata, isAbstract } : ClassBody).names kind = [] := by
    intro kind
    cases kind <;> rfl
  have hdeclared : ∀ kind,
      ({ name, language, metadata, isAbstract } : ClassBody).declared kind = [] := by
    intro kind
    cases kind <;> rfl
  refine ⟨⟨hname, by simp [hnames], by simp, fun kind => ?_⟩, ⟨by simp, ?_⟩, ?_, ?_, ?_⟩
  · rw [hnames]
    exact List.nodup_nil
  · simp [OrderedMap.keys]
  · simp [hdeclared]
  · simp
  · simp

/-- Whatever the record holds, the class is well formed, and every recovered body
belongs to the class or to a member of it. -/
theorem wellFormed_of_upgrade (h : upgrade desc settings = .ok conv) :
    conv.cls.toClassBody.WellFormed ∧ conv.cls.ancestors = [] ∧
      ∀ id ∈ conv.fragments.keys, conv.cls.toClassBody.Owns id := by
  obtain ⟨name, hname, hconv, -⟩ := exists_convert_of_upgrade h
  rw [value_convert] at hconv
  obtain ⟨hcls, hfragments⟩ := Prod.mk.inj hconv
  rw [hcls, hfragments]
  refine ⟨wellFormed_readContents _ (wellFormed_start hname _ _ _), rfl, ?_⟩
  split
  · simp [OrderedMap.keys]
  · exact owns_recoverBodies _

/-- An upgraded class is well formed, whatever the record holds: its names are good and
unique and so are its states, it has no ancestors, and its constraints are about its own
attributes and commands and list its own states. So its interface is resolved without
any report, and every recovered body is for the class or for a member that it has. -/
theorem upgrade_wellFormed (h : upgrade desc settings = .ok conv) :
    conv.cls.toClassBody.Named ∧ (conv.cls.machine.states.map State.name).Nodup ∧
      conv.cls.ancestors = [] ∧
      (∀ key states, conv.cls.machine.allowedStates? key = some states →
        (key.kind = .attribute ∨ key.kind = .command) ∧ conv.cls.hasMember key = true ∧
          ∀ state ∈ states, conv.cls.machine.hasState state = true) ∧
      (∃ i, conv.cls.resolve = .ok (i, [])) ∧
      ∀ id ∈ conv.fragments.keys, (∃ role, id.text = "class:" ++ role) ∨
        ∃ slot, id.slot? = some slot ∧ conv.cls.hasMember slot.key = true := by
  obtain ⟨hbody, hroot, howns⟩ := wellFormed_of_upgrade h
  refine ⟨hbody.named, hbody.consistent.states, hroot, fun key states hallowed => ?_,
    conv.cls.exists_resolve_of_wellFormed hroot hbody, howns⟩
  have hentry : (key, states) ∈ conv.cls.machine.allowed.entries :=
    OrderedMap.get?_eq_some_iff.mp hallowed
  exact ⟨hbody.kinds _ hentry,
    hbody.consistent.constraints key (List.mem_map_of_mem hentry),
    hbody.states _ hentry⟩

/-- A record with states and members that are repeated, misnamed or unreadable,
constraints on unknown states, and a source with the body of a command that is not
there. -/
def clutteredMotor : LegacyDescription where
  record := [
    ("class_name", .text "drive motor"),
    ("states", .list [.text "ON", .text " OFF ", .text "ON", .text "9X", .bool true]),
    ("attributes", .list [
      .record [("name", .text "Speed"), ("data_type", .text "DevVoid"),
        ("allowed_states", .list [.text "ON", .text "GONE"])],
      .record [("name", .text "Speed")],
      .record [("label", .text "Torque")]]),
    ("commands", .list [
      .record [("name", .text "Go"), ("allowed_states", .list [.text "OFF "])],
      .record [("name", .text "Go"), ("allowed_states", .list [.text "ON"])]])]
  sources := .ofList [("Motor.cpp",
    "//+---- method:command:Go:execute-implementation\n" ++
    "void go()\n\x7b\n  move();\n\x7d\n" ++
    "//+---- method:command:Halt:execute-implementation\n" ++
    "void halt()\n\x7b\n  stop();\n\x7d\n")]

theorem upgrade_wellFormed_clutteredMotor :
    ∃ conv, upgrade clutteredMotor {} = .ok conv ∧
      conv.cls.names .attribute = ["Speed"] ∧ conv.cls.names .command = ["Go"] ∧
      conv.cls.machine.states.map State.name = ["ON", "OFF"] ∧
      conv.cls.machine.allowed.entries =
        [(⟨.attribute, "Speed"⟩, ["ON"]), (⟨.command, "Go"⟩, ["OFF"])] ∧
      conv.fragments.entries = [(.ofMember .command "Go" .execute, "  move();\n")] ∧
      conv.cls.toClassBody.Named ∧ ∃ i, conv.cls.resolve = .ok (i, []) := by
  obtain ⟨conv, h⟩ : ∃ conv, upgrade clutteredMotor {} = .ok conv := ⟨_, rfl⟩
  obtain ⟨hnamed, -, -, -, hresolve, -⟩ := upgrade_wellFormed h
  obtain rfl := Except.ok.inj h
  exact ⟨_, rfl, rfl, rfl, rfl, rfl, by decide +kernel, hnamed, hresolve⟩

end Legacy

end DeviceForge
