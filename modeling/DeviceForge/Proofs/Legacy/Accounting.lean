import DeviceForge.Proofs.Legacy.Constraints

/-!
# Accounting for the entries of a record

An upgrade walks five lists of a record, one entry after another.  An entry that
is looked at either becomes a part of the class or is named by an issue.  The list
of states is walked entry by entry; of the lists of members only the records are
looked at, and an entry of any other form is left out without a word.
-/

namespace DeviceForge

/-- The lists of a legacy record that a class is filled from. -/
inductive EntryList where
  | states
  | attributes
  | commands
  | classProperties
  | deviceProperties
  deriving DecidableEq

namespace EntryList

def key : EntryList → String
  | .states => "states"
  | .attributes => "attributes"
  | .commands => "commands"
  | .classProperties => "class_properties"
  | .deviceProperties => "device_properties"

def ofKind? : MemberKind → Option EntryList
  | .attribute => some .attributes
  | .command => some .commands
  | .classProperty => some .classProperties
  | .deviceProperty => some .deviceProperties
  | .pipe => none

/-- The kind of the members in a list, and how one of them is read from its record. -/
def reader? : EntryList → Option (MemberKind × (RawRecord → String → Noted Member))
  | .states => none
  | .attributes => some (.attribute, Legacy.attributeOf)
  | .commands => some (.command, Legacy.commandOf)
  | .classProperties => some (.classProperty, Legacy.classPropertyOf)
  | .deviceProperties => some (.deviceProperty, Legacy.devicePropertyOf)

end EntryList

/-- The list of which an issue tells that an entry was skipped. -/
def ConversionIssue.skippedFrom? : ConversionIssue → Option EntryList
  | .namelessState | .unreadableState | .rejectedState _ _ => some .states
  | .namelessMember kind => EntryList.ofKind? kind
  | .rejectedMember key _ => EntryList.ofKind? key.kind
  | _ => none

namespace EntryList

open Legacy

/-- What an entry of a list declares. -/
def declares? (list : EntryList) (entry : RawValue) : Option (State ⊕ Member) :=
  match list.reader? with
  | none => (readState entry).toOption.map .inl
  | some (_, read) => entry.asRecord?.bind fun item =>
      (textField? item "name").map fun name => .inr (read item name).value

/-- The issue tells of this entry of a list that it was skipped. -/
def Explains (list : EntryList) (entry : RawValue) (issue : ConversionIssue) : Prop :=
  match list.reader? with
  | none =>
    match readState entry with
    | .error cause => issue = cause
    | .ok state => ∃ error, issue = .rejectedState state.name error
  | some (kind, _) => ∃ item, entry.asRecord? = some item ∧
      match textField? item "name" with
      | none => issue = .namelessMember kind
      | some name => ∃ error, issue = .rejectedMember ⟨kind, name⟩ error

/-- What a class declares of the parts that a list fills it with. -/
def contents (list : EntryList) (body : ClassBody) : List (State ⊕ Member) :=
  match list.reader? with
  | none => body.machine.states.map .inl
  | some (kind, _) => (body.declared kind).map .inr

/-- The entries of a list that an upgrade looks at.  Of the lists of members these are
the records. -/
def heeded (list : EntryList) (record : RawRecord) : List RawValue :=
  (listField record list.key).filter fun entry =>
    list = .states ∨ entry.asRecord?.isSome = true

def skips (list : EntryList) (issues : List ConversionIssue) : List ConversionIssue :=
  issues.filter fun issue => issue.skippedFrom? = some list

/-- Every entry of a list has declared the next part, or else the next issue tells of
it. -/
inductive Accounts (list : EntryList) :
    List RawValue → List (State ⊕ Member) → List ConversionIssue → Prop
  | nil : Accounts list [] [] []
  | declares {entry : RawValue} {part : State ⊕ Member} {entries : List RawValue}
      {parts : List (State ⊕ Member)} {issues : List ConversionIssue}
      (hpart : list.declares? entry = some part)
      (hrest : Accounts list entries parts issues) :
      Accounts list (entry :: entries) (part :: parts) issues
  | skips {entry : RawValue} {issue : ConversionIssue} {entries : List RawValue}
      {parts : List (State ⊕ Member)} {issues : List ConversionIssue}
      (hissue : list.Explains entry issue)
      (hrest : Accounts list entries parts issues) :
      Accounts list (entry :: entries) parts (issue :: issues)

variable {list : EntryList} {entries others : List RawValue}
  {parts more : List (State ⊕ Member)} {issues rest : List ConversionIssue}

/-- No entry is passed over: each has a part or an issue of its own. -/
theorem Accounts.length_eq (h : list.Accounts entries parts issues) :
    entries.length = parts.length + issues.length := by
  induction h with
  | nil => rfl
  | declares _ _ ih =>
      simp only [List.length_cons]
      omega
  | skips _ _ ih =>
      simp only [List.length_cons]
      omega

theorem Accounts.append (h : list.Accounts entries parts issues)
    (hmore : list.Accounts others more rest) :
    list.Accounts (entries ++ others) (parts ++ more) (issues ++ rest) := by
  induction h with
  | nil => exact hmore
  | declares hpart _ ih => exact .declares hpart ih
  | skips hissue _ ih => exact .skips hissue ih

theorem skips_append (list : EntryList) (issues rest : List ConversionIssue) :
    list.skips (issues ++ rest) = list.skips issues ++ list.skips rest :=
  List.filter_append _ _

end EntryList

namespace Legacy

open EntryList

/-- No issue tells of a skipped entry. -/
def Quiet {α : Type} (x : Noted α) : Prop :=
  ∀ issue ∈ x.issues, issue.skippedFrom? = none

section Quiet

variable {α β : Type} {x : Noted α}

theorem quiet_pure (a : α) : Quiet (pure a : Noted α) := by
  simp [Quiet]

theorem Quiet.bind {f : α → Noted β} (hx : Quiet x) (hf : ∀ a, Quiet (f a)) :
    Quiet (x >>= f) := by
  intro issue hissue
  rw [Noted.issues_bind, List.mem_append] at hissue
  exact hissue.elim (hx issue) (hf x.value issue)

theorem Quiet.map {f : α → β} (hx : Quiet x) : Quiet (f <$> x) := by
  rwa [Quiet, Noted.issues_map]

theorem Quiet.foldlM {f : β → α → Noted β} (hf : ∀ b a, Quiet (f b a)) (items : List α)
    (b : β) :
    Quiet (items.foldlM f b) := by
  induction items generalizing b with
  | nil => exact quiet_pure b
  | cons a rest ih =>
      rw [List.foldlM_cons]
      exact (hf b a).bind ih

theorem Quiet.skips_eq_nil (hx : Quiet x) (list : EntryList) :
    list.skips x.issues = [] := by
  refine List.filter_eq_nil_iff.mpr fun issue hissue => ?_
  simp [hx issue hissue]

/-- A field that cannot be read has an issue, and its entry is declared with the
fallback. -/
theorem quiet_readField {read? : String → Option α} {issue : String → ConversionIssue}
    (hissue : ∀ label, (issue label).skippedFrom? = none) (record : RawRecord)
    (key : String) (fallback : α) :
    Quiet (readField record key read? fallback issue) := by
  rw [readField]
  split
  · exact quiet_pure fallback
  · next label _ =>
      split
      · next value _ => exact quiet_pure value
      · intro other hother
        obtain rfl : other = issue label := by simpa [note] using hother
        exact hissue label

theorem quiet_fitting {fits : DataType → Bool} {issue : DataType → ConversionIssue}
    (hissue : ∀ type, (issue type).skippedFrom? = none) (type : DataType) :
    Quiet (fitting fits issue type) := by
  rw [fitting]
  split
  · exact quiet_pure type
  · intro other hother
    obtain rfl := List.mem_singleton.mp hother
    exact hissue type

end Quiet

section Readers

variable (item : RawRecord) (name : String)

theorem quiet_readType (field : String) (fallback : DataType) (key : MemberKey) :
    Quiet (readType item field fallback key) :=
  quiet_readField (fun _ => rfl) item field fallback

theorem quiet_attributeOf : Quiet (attributeOf item name) := by
  refine Quiet.map (Quiet.bind (quiet_readType item _ _ _) fun type => ?_)
  refine Quiet.bind (quiet_fitting (fun _ => rfl) type) fun _ => ?_
  refine Quiet.bind (quiet_readField (fun _ => rfl) item _ _) fun _ => ?_
  exact Quiet.bind (quiet_readField (fun _ => rfl) item _ _) fun _ => quiet_pure _

theorem quiet_commandOf : Quiet (commandOf item name) :=
  Quiet.map (Quiet.bind (quiet_readType item _ _ _) fun _ =>
    Quiet.bind (quiet_readType item _ _ _) fun _ => quiet_pure _)

theorem quiet_readProperty (kind : MemberKind) : Quiet (readProperty kind item name) :=
  Quiet.bind (quiet_readType item _ _ _) fun type =>
    Quiet.bind (quiet_fitting (fun _ => rfl) type) fun _ => quiet_pure _

end Readers

/-- How a list of members is read depends on its kind alone. -/
theorem of_reader {list : EntryList} {kind : MemberKind}
    {read : RawRecord → String → Noted Member} (h : list.reader? = some (kind, read)) :
    EntryList.ofKind? kind = some list ∧ Reads kind read ∧
      ∀ item name, Quiet (read item name) := by
  cases list with
  | states => exact absurd h (by simp [EntryList.reader?])
  | attributes =>
      obtain ⟨rfl, rfl⟩ := Prod.mk.inj (Option.some.inj h)
      exact ⟨rfl, reads_attributeOf, quiet_attributeOf⟩
  | commands =>
      obtain ⟨rfl, rfl⟩ := Prod.mk.inj (Option.some.inj h)
      exact ⟨rfl, reads_commandOf, quiet_commandOf⟩
  | classProperties =>
      obtain ⟨rfl, rfl⟩ := Prod.mk.inj (Option.some.inj h)
      exact ⟨rfl, reads_classPropertyOf,
        fun item name => (quiet_readProperty item name _).map⟩
  | deviceProperties =>
      obtain ⟨rfl, rfl⟩ := Prod.mk.inj (Option.some.inj h)
      exact ⟨rfl, reads_devicePropertyOf,
        fun item name => (quiet_readProperty item name _).map⟩

/-! ## What one entry does -/

/-- From one body to the next, every list has been filled from some entries, and the
issues tell of the entries that were skipped. -/
def Settles (entriesOf : EntryList → List RawValue) (before after : ClassBody)
    (issues : List ConversionIssue) : Prop :=
  ∀ list : EntryList, ∃ parts, list.contents after = list.contents before ++ parts ∧
    list.Accounts (entriesOf list) parts (list.skips issues)

def only (list : EntryList) (entries : List RawValue) (other : EntryList) :
    List RawValue :=
  if other = list then entries else []

section Settles

variable {before between after : ClassBody} {issues rest : List ConversionIssue}
  {entriesOf othersOf : EntryList → List RawValue}

/-- Lists that are filled in two steps are filled from the entries of both. -/
theorem Settles.append (h : Settles entriesOf before between issues)
    (hrest : Settles othersOf between after rest) :
    Settles (fun list => entriesOf list ++ othersOf list) before after
      (issues ++ rest) := by
  intro list
  obtain ⟨parts, hparts, haccounts⟩ := h list
  obtain ⟨more, hmore, hothers⟩ := hrest list
  refine ⟨parts ++ more, ?_, ?_⟩
  · rw [hmore, hparts, List.append_assoc]
  · rw [skips_append]
    exact haccounts.append hothers

/-- Nothing is filled in, and nothing is skipped. -/
theorem settles_nil
    (hcontents : ∀ list : EntryList, list.contents after = list.contents before)
    (hissues : ∀ issue ∈ issues, issue.skippedFrom? = none) :
    Settles (fun _ => []) before after issues := by
  intro list
  have hnone : list.skips issues = [] :=
    Quiet.skips_eq_nil (x := ⟨(), issues⟩) hissues list
  exact ⟨[], by rw [hcontents, List.append_nil], hnone ▸ .nil⟩

theorem only_cons (list : EntryList) (entry : RawValue) (entries : List RawValue) :
    only list (entry :: entries) =
      fun other => only list [entry] other ++ only list entries other := by
  funext other
  by_cases hother : other = list <;> simp [only, hother]

/-- What one entry of a list settles for itself, all of them settle one after another.
-/
theorem settles_foldlM {α β : Type} (bodyOf : β → ClassBody) (entryOf : α → RawValue)
    {list : EntryList} {f : β → α → Noted β}
    (hstep : ∀ b a, Settles (only list [entryOf a]) (bodyOf b) (bodyOf (f b a).value)
      (f b a).issues)
    (items : List α) (b : β) :
    Settles (only list (items.map entryOf)) (bodyOf b)
      (bodyOf (items.foldlM f b).value) (items.foldlM f b).issues := by
  induction items generalizing b with
  | nil =>
      have hnone : only list [] = fun _ => [] := by
        funext other
        simp [only]
      rw [List.map_nil, hnone]
      exact settles_nil (fun _ => rfl) (by simp)
  | cons a rest ih =>
      rw [List.map_cons, only_cons, List.foldlM_cons]
      exact (hstep b a).append (ih _)

/-- An entry that declares a part settles its own list, and leaves the others as they
are. -/
theorem settles_declares {list : EntryList} {entry : RawValue} {part : State ⊕ Member}
    (hpart : list.declares? entry = some part)
    (hcontents : ∀ other : EntryList, other.contents after =
      other.contents before ++ if other = list then [part] else [])
    (hissues : ∀ issue ∈ issues, issue.skippedFrom? = none) :
    Settles (only list [entry]) before after issues := by
  intro other
  have hnone : other.skips issues = [] :=
    Quiet.skips_eq_nil (x := ⟨(), issues⟩) hissues other
  refine ⟨_, hcontents other, ?_⟩
  rw [only, hnone]
  by_cases hother : other = list
  · subst hother
    rw [if_pos rfl, if_pos rfl]
    exact .declares hpart .nil
  · rw [if_neg hother, if_neg hother]
    exact .nil

/-- An entry that is skipped settles its list by its issue. -/
theorem settles_skips (issues : List ConversionIssue) {list : EntryList}
    {entry : RawValue} {issue : ConversionIssue} (hissue : list.Explains entry issue)
    (hlist : issue.skippedFrom? = some list)
    (hissues : ∀ issue ∈ issues, issue.skippedFrom? = none) :
    Settles (only list [entry]) before before (issues ++ [issue]) := by
  intro other
  have hnone : other.skips issues = [] :=
    Quiet.skips_eq_nil (x := ⟨(), issues⟩) hissues other
  refine ⟨[], (List.append_nil _).symm, ?_⟩
  rw [only, skips_append, hnone, List.nil_append]
  by_cases hother : other = list
  · subst hother
    have hself : other.skips [issue] = [issue] := by simp [skips, hlist]
    rw [if_pos rfl, hself]
    exact .skips hissue .nil
  · have hself : other.skips [issue] = [] := by simp [skips, hlist, Ne.symm hother]
    rw [if_neg hother, hself]
    exact .nil

end Settles

/-! ## The steps of an upgrade -/

theorem contents_with_states (list : EntryList) (body : ClassBody) (state : State) :
    list.contents { body with machine := { body.machine with
        states := body.machine.states ++ [state] } } =
      list.contents body ++ if list = .states then [.inl state] else [] := by
  cases list with
  | states => exact List.map_append
  | attributes | commands | classProperties | deviceProperties =>
    exact (List.append_nil _).symm

/-- A member is one more part of the list for its kind, and of no other. -/
theorem contents_append (list : EntryList) (body : ClassBody) (member : Member) :
    list.contents (body.append member) =
      list.contents body ++ if ofKind? member.kind = some list then [.inr member]
        else [] := by
  cases list with
  | states =>
      have hkind : ofKind? member.kind ≠ some .states := by
        cases member <;> simp [ofKind?, Member.kind]
      rw [if_neg hkind, List.append_nil, contents,
        (ClassBody.states_append body member).1]
      rfl
  | attributes | commands | classProperties | deviceProperties =>
      cases member <;>
        simp [contents, reader?, ofKind?, ClassBody.declared_append, Member.kind]

/-- A state that cannot be read is skipped. -/
theorem skippedFrom?_of_readState {entry : RawValue} {issue : ConversionIssue}
    (h : readState entry = .error issue) : issue.skippedFrom? = some .states := by
  cases entry with
  | text name => cases h
  | record fields =>
      cases hname : textField? fields "name" with
      | some name => simp [readState, hname] at h
      | none =>
          obtain rfl : .namelessState = issue := by simpa [readState, hname] using h
          rfl
  | bool | number | list =>
      obtain rfl := Except.error.inj h
      rfl

/-- One entry of the list of states is declared, or else refused for its name or for its
shape, with an issue. -/
theorem settles_addState (body : ClassBody) (entry : RawValue) :
    Settles (only .states [entry]) body (addState body entry).value
      (addState body entry).issues := by
  cases hread : readState entry with
  | error issue =>
      have hstep : addState body entry = ⟨body, [issue]⟩ := by simp [addState, hread]
      rw [hstep]
      have hissue : states.Explains entry issue := by simp [Explains, reader?, hread]
      exact settles_skips [] hissue (skippedFrom?_of_readState hread) (by simp)
  | ok state =>
      cases hadd : body.addState state with
      | error error =>
          have hstep : addState body entry =
              ⟨body, [.rejectedState state.name error]⟩ := by
            simp [addState, hread, hadd]
          rw [hstep]
          have hissue : states.Explains entry (.rejectedState state.name error) := by
            simp [Explains, reader?, hread]
          exact settles_skips [] hissue rfl (by simp)
      | ok after =>
          have hstep : addState body entry = ⟨after, []⟩ := by
            rw [addState, hread]
            simp only [hadd]
            rfl
          obtain ⟨-, -, rfl⟩ := ClassBody.addState_eq_ok_iff.mp hadd
          rw [hstep]
          have hpart : states.declares? entry = some (.inl state) := by
            simp [declares?, reader?, hread, Except.toOption]
          exact settles_declares hpart (contents_with_states · body state) (by simp)

/-- One record of a list of members is declared, or else refused for its name, with an
issue. -/
theorem settles_addMember {list : EntryList} {kind : MemberKind}
    {read : RawRecord → String → Noted Member}
    (hlist : list.reader? = some (kind, read)) (so : ClassBody × Pending)
    (item : RawRecord) :
    Settles (only list [.record item]) so.1 (addMember kind read so item).value.1
      (addMember kind read so item).issues := by
  obtain ⟨hkind, hread, hquiet⟩ := of_reader hlist
  rw [addMember]
  cases hname : textField? item "name" with
  | none =>
      have hissue : list.Explains (.record item) (.namelessMember kind) := by
        simp [Explains, hlist, RawValue.asRecord?, hname]
      exact settles_skips [] hissue hkind (by simp)
  | some name =>
      dsimp only
      rw [Noted.value_bind, Noted.issues_bind]
      cases hadd : so.1.add (read item name).value with
      | error error =>
          have hissue : list.Explains (.record item)
              (.rejectedMember ⟨kind, name⟩ error) := by
            simp [Explains, hlist, RawValue.asRecord?, hname]
          exact settles_skips _ hissue hkind (hquiet item name)
      | ok after =>
          dsimp only
          rw [Noted.value_pure, Noted.issues_pure, List.append_nil]
          obtain ⟨-, -, rfl⟩ := ClassBody.add_eq_ok_iff.mp hadd
          have hpart : list.declares? (.record item) =
              some (.inr (read item name).value) := by
            simp [declares?, hlist, RawValue.asRecord?, hname]
          have hmember : (read item name).value.kind = kind :=
            congrArg MemberKey.kind (hread item name)
          refine settles_declares hpart (fun other => ?_) (hquiet item name)
          rw [contents_append, hmember, hkind]
          simp [eq_comm]

/-- The issues of a constraint are about its states, and tell of no skipped entry. -/
theorem quiet_addConstraint (body : ClassBody) (constraint : MemberKey × List String) :
    Quiet (addConstraint body constraint) := by
  have hunknown : ∀ issue ∈ ((constraint.2.map Text.trim).filter
      (!body.machine.hasState ·)).map (ConversionIssue.unknownState constraint.1),
      issue.skippedFrom? = none := by
    intro issue hissue
    obtain ⟨state, -, rfl⟩ := List.mem_map.mp hissue
    rfl
  rw [addConstraint]
  split
  · exact hunknown
  · intro issue hissue
    rcases List.mem_append.mp hissue with hissue | hissue
    · exact hunknown issue hissue
    · rw [List.mem_singleton.mp hissue]
      rfl

theorem contents_addConstraints (list : EntryList) (body : ClassBody)
    (pending : Pending) :
    list.contents (pending.foldlM addConstraint body).value = list.contents body := by
  refine Noted.value_foldlM
    (p := fun after : ClassBody => list.contents after = list.contents body)
      (fun after hafter constraint _ => ?_) rfl
  rw [value_addConstraint]
  split
  · rw [← hafter]
    cases list <;> rfl
  · exact hafter

theorem map_recordsField (record : RawRecord) (key : String) :
    (recordsField record key).map RawValue.record =
      (listField record key).filter fun entry => entry.asRecord?.isSome := by
  rw [recordsField, List.map_filterMap, ← List.filterMap_eq_filter]
  congr 1
  funext entry
  cases entry <;> rfl

/-- Every entry that is looked at is settled: first the states, then the members kind by
kind.  The constraints that waited settle none. -/
theorem settles_readContents (record : RawRecord) (body : ClassBody) :
    Settles (heeded · record) body (readContents record body).value
      (readContents record body).issues := by
  have hstates := settles_foldlM id id settles_addState (listField record "states") body
  have hmembers : ∀ (list : EntryList) {kind : MemberKind}
      {read : RawRecord → String → Noted Member}, list.reader? = some (kind, read) →
      ∀ so : ClassBody × Pending,
      let after := (recordsField record list.key).foldlM (addMember kind read) so
      Settles (only list ((recordsField record list.key).map .record)) so.1
        after.value.1 after.issues :=
    fun _ _ _ hlist so => settles_foldlM Prod.fst .record (settles_addMember hlist) _ so
  have hconstraints := fun (pending : Pending) (body : ClassBody) =>
    settles_nil (contents_addConstraints · body pending)
      (Quiet.foldlM quiet_addConstraint pending body)
  have hall := hstates.append <|
    (hmembers .attributes rfl (_, [])).append <|
    (hmembers .commands rfl _).append <|
    (hmembers .classProperties rfl (_, [])).append <|
    (hmembers .deviceProperties rfl (_, [])).append <|
    hconstraints (readConstrainable record body).2 _
  intro list
  obtain ⟨parts, hparts, haccounts⟩ := hall list
  replace haccounts :
      list.Accounts _ parts (list.skips (readContents record body).issues) :=
    haccounts
  refine ⟨parts, hparts, ?_⟩
  cases list <;> simpa [only, heeded, key, map_recordsField] using haccounts

/-- The issues of sources are about methods and bodies, and tell of no skipped entry. -/
theorem quiet_recoverBodies (sources : OrderedMap String String) (body : ClassBody) :
    Quiet (recoverBodies sources body) := by
  have hmethod : ∀ file fragments found,
      Quiet (addMethod body file fragments found) := by
    intro file fragments found
    rw [addMethod]
    split
    · simp [Quiet, ConversionIssue.skippedFrom?]
    · simp [Quiet, ConversionIssue.skippedFrom?]
    · exact quiet_pure _
  refine Quiet.bind (Quiet.foldlM (fun fragments (source : String × String) =>
    Quiet.foldlM (hmethod source.1) (extractMethods source.2) fragments) _ _)
      fun fragments => ?_
  dsimp only
  split
  · exact quiet_pure fragments
  · intro issue hissue
    obtain ⟨id, -, rfl⟩ := List.mem_map.mp hissue
    rfl

/-- Nothing is skipped but entries of the five lists. -/
theorem skips_convert (desc : LegacyDescription) (settings : Settings) (name : String)
    (language : Language) (list : EntryList) :
    list.skips (convert desc settings name language).issues =
      list.skips (readContents desc.record {
        name, language, metadata := (readMetadata desc.record).value
        isAbstract := flag desc.record "abstract" }).issues := by
  let read := readContents desc.record {
    name, language, metadata := (readMetadata desc.record).value
    isAbstract := flag desc.record "abstract" }
  let recovered : Noted (DeviceClass × Fragments) :=
    if read.value.isAbstract || !settings.recoverLegacyCode then
      pure ({ toClassBody := read.value }, OrderedMap.empty)
    else do return ({ toClassBody := read.value },
      ← recoverBodies desc.sources read.value)
  have hissues : (convert desc settings name language).issues =
      (noteUnknownFields desc.record).issues ++ ((readMetadata desc.record).issues ++
        (read.issues ++ recovered.issues)) := rfl
  have hfields : Quiet (noteUnknownFields desc.record) := by
    intro issue hissue
    obtain ⟨field, -, rfl⟩ := List.mem_map.mp hissue
    rfl
  have hmetadata : Quiet (readMetadata desc.record) :=
    (quiet_readField (fun _ => rfl) _ _ _).bind fun _ => quiet_pure _
  have hrecovered : Quiet recovered := by
    simp only [recovered]
    split
    · exact quiet_pure _
    · exact (quiet_recoverBodies _ _).bind fun _ => quiet_pure _
  rw [hissues, skips_append, skips_append, skips_append, hfields.skips_eq_nil,
    hmetadata.skips_eq_nil, hrecovered.skips_eq_nil, List.nil_append, List.nil_append,
    List.append_nil]

variable {desc : LegacyDescription} {settings : Settings} {conv : Conversion}

/-- What is looked at becomes a part of the class, or an issue tells that it was
skipped. -/
theorem accounts_heeded (h : upgrade desc settings = .ok conv) (list : EntryList) :
    list.Accounts (list.heeded desc.record) (list.contents conv.cls.toClassBody)
      (list.skips conv.issues) := by
  obtain ⟨name, -, hconv, hissues⟩ := exists_convert_of_upgrade h
  rw [value_convert] at hconv
  obtain ⟨parts, hparts, haccounts⟩ := settles_readContents desc.record {
    name, language := (readLanguage desc.record).value
    metadata := (readMetadata desc.record).value
    isAbstract := flag desc.record "abstract" } list
  have hlanguage : Quiet (readLanguage desc.record) :=
    quiet_readField (fun _ => rfl) _ _ _
  have hcontents : list.contents conv.cls.toClassBody = parts := by
    rw [(Prod.mk.inj hconv).1, hparts]
    cases list <;> rfl
  rwa [hcontents, hissues, skips_append, hlanguage.skips_eq_nil, List.nil_append,
    skips_convert]

/-- An upgrade accounts for every entry of a list, by a part of the class or by an issue
of its own, just if the list is that of the states or holds nothing but records.
Entries of any other form in a list of members are dropped, and nothing tells of them.
What is looked at is always accounted for. -/
theorem accounts_upgrade_iff (h : upgrade desc settings = .ok conv) (list : EntryList) :
    let entries := listField desc.record list.key
    let parts := list.contents conv.cls.toClassBody
    list.Accounts (list.heeded desc.record) parts (list.skips conv.issues) ∧
      (list.Accounts entries parts (list.skips conv.issues) ↔
        list = .states ∨ ∀ entry ∈ entries, entry.asRecord?.isSome = true) ∧
      ((list = .states ∨ ∀ entry ∈ entries, entry.asRecord?.isSome = true) →
        entries.length ≤ parts.length + conv.warnings.length) := by
  intro entries parts
  have hheeded := accounts_heeded h list
  have hlist :
      (∀ entry ∈ entries,
        decide (list = .states ∨ entry.asRecord?.isSome = true) = true) ↔
      list = .states ∨ ∀ entry ∈ entries, entry.asRecord?.isSome = true := by
    by_cases hstates : list = .states <;> simp [hstates]
  have hall : list = .states ∨ (∀ entry ∈ entries, entry.asRecord?.isSome = true) →
      list.Accounts entries parts (list.skips conv.issues) := fun hrecords => by
    rwa [heeded, List.filter_eq_self.mpr (hlist.mpr hrecords)] at hheeded
  refine ⟨hheeded, ⟨fun haccounts => hlist.mp ?_, hall⟩, fun hrecords => ?_⟩
  · exact List.length_filter_eq_length_iff.mp
      (hheeded.length_eq.trans haccounts.length_eq.symm)
  · have hlength := (hall hrecords).length_eq
    have hskips : (list.skips conv.issues).length ≤ conv.warnings.length := by
      rw [Conversion.warnings, List.length_map]
      exact List.length_filter_le _ _
    omega

/-- The attribute is listed by its name alone, where a record of it is expected. -/
def listedMotor : LegacyDescription where
  record := [("class_name", .text "Motor"), ("attributes", .list [.text "Speed"])]

/-- Of three records of attributes one is taken, and the upgrade tells of the other two.
Of the attribute that is listed by its name it does not. -/
theorem accounts_upgrade_clutteredMotor :
    (∃ conv, upgrade clutteredMotor {} = .ok conv ∧
      (attributes.contents conv.cls.toClassBody).length = 1 ∧
      attributes.skips conv.issues =
        [.rejectedMember ⟨.attribute, "Speed"⟩ (.duplicateMember ⟨.attribute, "Speed"⟩),
          .namelessMember .attribute] ∧
      attributes.Accounts (listField clutteredMotor.record "attributes")
        (attributes.contents conv.cls.toClassBody) (attributes.skips conv.issues)) ∧
    ∃ conv, upgrade listedMotor {} = .ok conv ∧
      ¬ attributes.Accounts (listField listedMotor.record "attributes")
        (attributes.contents conv.cls.toClassBody) (attributes.skips conv.issues) := by
  constructor
  · obtain ⟨conv, h⟩ : ∃ conv, upgrade clutteredMotor {} = .ok conv := ⟨_, rfl⟩
    have haccounts := (accounts_upgrade_iff h .attributes).2.1.mpr (Or.inr (by decide))
    obtain rfl := Except.ok.inj h
    exact ⟨_, rfl, rfl, by decide +kernel, haccounts⟩
  · obtain ⟨conv, h⟩ : ∃ conv, upgrade listedMotor {} = .ok conv := ⟨_, rfl⟩
    refine ⟨conv, h, fun haccounts => ?_⟩
    rcases (accounts_upgrade_iff h .attributes).2.1.mp haccounts with hlist | hrecords
    · cases hlist
    · exact absurd (hrecords (.text "Speed") List.mem_cons_self) (by decide)

/-- There can be more entries than parts and warnings together: the attribute that is
listed by its name is neither added nor warned about. -/
theorem not_forall_length_le_upgrade :
    ¬ ∀ (desc : LegacyDescription) (settings : Settings) (conv : Conversion)
        (list : EntryList),
      upgrade desc settings = .ok conv →
        (listField desc.record list.key).length ≤
          (list.contents conv.cls.toClassBody).length + conv.warnings.length := by
  intro hall
  obtain ⟨conv, h⟩ : ∃ conv, upgrade listedMotor {} = .ok conv := ⟨_, rfl⟩
  have hlength := hall listedMotor {} conv .attributes h
  obtain rfl := Except.ok.inj h
  exact absurd hlength (by decide +kernel)

end Legacy

end DeviceForge
