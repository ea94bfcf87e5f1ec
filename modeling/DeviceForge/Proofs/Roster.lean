import DeviceForge.Proofs.Device.Editing
import DeviceForge.Proofs.OrderedMap
import DeviceForge.Proofs.Zone.Id
import DeviceForge.Session

/-!
# The identity of members

A session names members, and a name can pass from one member to another.  A
roster follows the members themselves: the ones that a class starts with are
alive under some name or deleted, and the others are fresh.  The record of
renames resolves every zone as the roster does.
-/

namespace DeviceForge

namespace Session

def edit (s : Session) : MemberEdit → Except ModelError Session
  | .add member => s.add member
  | .rename kind old new => s.rename kind old new
  | .remove key => s.remove key

def editAll (s : Session) : List MemberEdit → Session
  | [] => s
  | edit :: rest =>
    match s.edit edit with
    | .ok next => next.editAll rest
    | .error _ => s.editAll rest

end Session

/-- What became of a member that a class started with. -/
inductive Fate where
  | alive (name : String)
  | deleted
  deriving DecidableEq, Repr

/-- What became of the members that a class started with, each under the name
that it had then, and the members that came later. -/
structure Roster where
  fate : MemberKey → Option Fate
  fresh : List MemberKey := []

namespace Roster

def start (cls : DeviceClass) : Roster where
  fate key := if cls.hasMember key then some (.alive key.name) else none

/-- A deleted member comes back under its first name; any other one is fresh. -/
def add (r : Roster) (key : MemberKey) : Roster :=
  if r.fate key = some .deleted then
    { r with fate := fun other => if other = key then some (.alive key.name)
      else r.fate other }
  else { r with fresh := key :: r.fresh }

/-- Whoever has the old name has the new one from now on. -/
def rename (r : Roster) (kind : MemberKind) (old new : String) : Roster where
  fate origin :=
    match r.fate origin with
    | some (.alive name) =>
      if origin.kind = kind ∧ name = old then some (.alive new) else some (.alive name)
    | other => other
  fresh := r.fresh.map fun key => if key = ⟨kind, old⟩ then ⟨kind, new⟩ else key

/-- Whoever has the name is gone. -/
def remove (r : Roster) (key : MemberKey) : Roster where
  fate origin :=
    match r.fate origin with
    | some (.alive name) =>
      if origin.kind = key.kind ∧ name = key.name then some .deleted
        else some (.alive name)
    | other => other
  fresh := r.fresh.filter (· ≠ key)

def edit (r : Roster) : MemberEdit → Roster
  | .add member => r.add ⟨member.kind, member.name⟩
  | .rename kind old new => r.rename kind old new
  | .remove key => r.remove key

/-- The roster after edits of a class, of which the refused ones do not count. -/
def after (r : Roster) (cls : DeviceClass) : List MemberEdit → Roster
  | [] => r
  | edit :: rest =>
    match cls.edit edit with
    | .ok next => (r.edit edit).after next rest
    | .error _ => r.after cls rest

/-- Where a zone of an earlier file belongs. -/
def resolve (r : Roster) (id : ZoneId) : Resolution :=
  match id.slot? with
  | none => .keep id
  | some slot =>
    match r.fate slot.key with
    | none => .keep id
    | some .deleted => .dropped
    | some (.alive name) =>
      if name = slot.name then .keep id else .renamed (.ofSlot (slot.withName name))

def Called (r : Roster) (key origin : MemberKey) : Prop :=
  origin.kind = key.kind ∧ r.fate origin = some (.alive key.name)

def Survives (r : Roster) (origin : MemberKey) : Prop :=
  ∃ name, r.fate origin = some (.alive name)

variable {r : Roster}

/-- No edit makes a roster know of a member that it did not know of. -/
theorem fate_edit_eq_none_iff {edit : MemberEdit} {origin : MemberKey} :
    (r.edit edit).fate origin = none ↔ r.fate origin = none := by
  cases edit with
  | add member =>
      simp only [Roster.edit, add]
      split
      · next hdeleted =>
          by_cases horigin : origin = ⟨member.kind, member.name⟩
          · simp [horigin, hdeleted]
          · simp [horigin]
      · exact Iff.rfl
  | rename kind old new =>
      simp only [Roster.edit, rename]
      split
      · split <;> simp [*]
      · exact Iff.rfl
  | remove key =>
      simp only [Roster.edit, remove]
      split
      · split <;> simp [*]
      · exact Iff.rfl

/-- Renaming gives its member the new name and leaves the others alone. -/
theorem fate_rename_eq_alive_iff {kind : MemberKind} {old new name : String}
    {origin : MemberKey} :
    (r.rename kind old new).fate origin = some (.alive name) ↔
      (r.Called ⟨kind, old⟩ origin ∧ name = new) ∨
        (r.fate origin = some (.alive name) ∧ ¬ r.Called ⟨kind, old⟩ origin) := by
  simp only [rename, Called]
  cases r.fate origin with
  | none => simp
  | some fate =>
      cases fate with
      | deleted => simp
      | alive current =>
          by_cases h : origin.kind = kind ∧ current = old
          · simp [h, eq_comm]
          · simp only [h, if_false, Option.some.injEq, Fate.alive.injEq]
            tauto

/-- Renaming deletes nobody and brings nobody back. -/
theorem fate_rename_eq_deleted_iff {kind : MemberKind} {old new : String}
    {origin : MemberKey} :
    (r.rename kind old new).fate origin = some .deleted ↔
      r.fate origin = some .deleted := by
  simp only [rename]
  cases r.fate origin with
  | none => simp
  | some fate =>
      cases fate with
      | deleted => simp
      | alive current =>
          by_cases h : origin.kind = kind ∧ current = old
          · simp [h]
          · simp [h]

/-- Those who live on are the others, under their names. -/
theorem fate_remove_eq_alive_iff {key origin : MemberKey} {name : String} :
    (r.remove key).fate origin = some (.alive name) ↔
      r.fate origin = some (.alive name) ∧ ¬ r.Called key origin := by
  simp only [remove, Called]
  cases r.fate origin with
  | none => simp
  | some fate =>
      cases fate with
      | deleted => simp
      | alive current =>
          by_cases h : origin.kind = key.kind ∧ current = key.name
          · simp [h]
          · simp only [h, if_false, Option.some.injEq, Fate.alive.injEq]
            tauto

/-- Those who are gone are those who were, and whoever has the name. -/
theorem fate_remove_eq_deleted_iff {key origin : MemberKey} :
    (r.remove key).fate origin = some .deleted ↔
      r.fate origin = some .deleted ∨ r.Called key origin := by
  simp only [remove, Called]
  cases r.fate origin with
  | none => simp
  | some fate =>
      cases fate with
      | deleted => simp
      | alive current =>
          by_cases h : origin.kind = key.kind ∧ current = key.name
          · simp [h]
          · simp [h]

/-- Who has a name now: a member that was there at the start, or a fresh one. -/
def Holds (r : Roster) (key : MemberKey) : Option MemberKey → Prop
  | some origin => r.Called key origin
  | none => key ∈ r.fresh

/-- A member that was there at the start gets its first name back, and any other one is
fresh. -/
theorem holds_add_iff {new key : MemberKey} {who : Option MemberKey} :
    (r.add new).Holds key who ↔
      (key = new ∧ who = if r.fate new = some .deleted then some new else none) ∨
        r.Holds key who := by
  rw [add]
  by_cases hdeleted : r.fate new = some .deleted
  · rw [if_pos hdeleted, if_pos hdeleted]
    cases who with
    | none => simp [Holds]
    | some origin =>
        obtain ⟨kind, name⟩ := key
        obtain ⟨newKind, newName⟩ := new
        by_cases horigin : origin = ⟨newKind, newName⟩
        · subst horigin
          simp [Holds, Called, hdeleted, eq_comm]
        · simp [Holds, Called, horigin]
  · rw [if_neg hdeleted, if_neg hdeleted]
    cases who with
    | none => simp [Holds]
    | some origin => simp [Holds, Called]

/-- A name is handed on with whoever has it, a member of the start or a fresh one. -/
theorem holds_rename_iff {kind : MemberKind} {old new : String} {key : MemberKey}
    {who : Option MemberKey} :
    (r.rename kind old new).Holds key who ↔
      (r.Holds ⟨kind, old⟩ who ∧ key = ⟨kind, new⟩) ∨
        (r.Holds key who ∧ key ≠ ⟨kind, old⟩) := by
  cases who with
  | none =>
      simp only [Holds, rename, List.mem_map]
      constructor
      · rintro ⟨before, hmem, rfl⟩
        by_cases h : before = ⟨kind, old⟩
        · subst h
          simp [hmem]
        · simp [h, hmem]
      · rintro (⟨hmem, rfl⟩ | ⟨hmem, hne⟩)
        · exact ⟨_, hmem, by simp⟩
        · exact ⟨key, hmem, by simp [hne]⟩
  | some origin =>
      obtain ⟨keyKind, name⟩ := key
      simp only [Holds, Called, fate_rename_eq_alive_iff, MemberKey.mk.injEq, ne_eq]
      constructor
      · rintro ⟨rfl, ⟨⟨rfl, hfate⟩, rfl⟩ | ⟨hfate, hother⟩⟩
        · exact Or.inl ⟨⟨rfl, hfate⟩, rfl, rfl⟩
        · refine Or.inr ⟨⟨rfl, hfate⟩, ?_⟩
          rintro ⟨hkind, rfl⟩
          exact hother ⟨hkind, hfate⟩
      · rintro (⟨⟨rfl, hfate⟩, rfl, rfl⟩ | ⟨⟨rfl, hfate⟩, hother⟩)
        · exact ⟨rfl, Or.inl ⟨⟨rfl, hfate⟩, rfl⟩⟩
        · refine ⟨rfl, Or.inr ⟨hfate, ?_⟩⟩
          rintro ⟨hkind, hfate'⟩
          rw [hfate, Option.some.injEq, Fate.alive.injEq] at hfate'
          exact hother ⟨hkind, hfate'⟩

/-- A removed name belongs to nobody. -/
theorem holds_remove_iff {removed key : MemberKey} {who : Option MemberKey} :
    (r.remove removed).Holds key who ↔ r.Holds key who ∧ key ≠ removed := by
  cases who with
  | none => simp [Holds, remove]
  | some origin =>
      obtain ⟨kind, name⟩ := key
      obtain ⟨gone, goneName⟩ := removed
      simp only [Holds, Called, fate_remove_eq_alive_iff, MemberKey.mk.injEq, ne_eq]
      constructor
      · rintro ⟨rfl, hfate, hother⟩
        refine ⟨⟨rfl, hfate⟩, ?_⟩
        rintro ⟨hkind, rfl⟩
        exact hother ⟨hkind, hfate⟩
      · rintro ⟨⟨rfl, hfate⟩, hother⟩
        refine ⟨rfl, hfate, ?_⟩
        rintro ⟨hkind, hfate'⟩
        rw [hfate, Option.some.injEq, Fate.alive.injEq] at hfate'
        exact hother ⟨hkind, hfate'⟩

/-! ## The members of the class -/

/-- The roster accounts for the members of a class: every name belongs to one
of them, and no name is new unless it is an identifier. -/
structure Fits (r : Roster) (body : ClassBody) : Prop where
  unique : body.UniqueNames
  hasMember_iff : ∀ key, body.hasMember key = true ↔ ∃ who, r.Holds key who
  holder_unique : ∀ key who other, r.Holds key who → r.Holds key other → who = other
  identifier : ∀ key who, r.Holds key who →
    who = some key ∨ Name.isIdentifier key.name = true

variable {body next : ClassBody}

/-- At the start every member has its own name. -/
theorem holds_start_iff {cls : DeviceClass} {key : MemberKey} {who : Option MemberKey} :
    (start cls).Holds key who ↔ who = some key ∧ cls.hasMember key = true := by
  cases who with
  | none => simp [Holds, start]
  | some origin =>
      obtain ⟨kind, name⟩ := key
      obtain ⟨originKind, originName⟩ := origin
      simp only [Holds, Called, start, Option.some.injEq, MemberKey.mk.injEq]
      constructor
      · rintro ⟨rfl, hfate⟩
        split at hfate
        · next hmember =>
            simp only [Option.some.injEq, Fate.alive.injEq] at hfate
            subst hfate
            exact ⟨⟨rfl, rfl⟩, hmember⟩
        · exact absurd hfate (by simp)
      · rintro ⟨⟨rfl, rfl⟩, hmember⟩
        exact ⟨rfl, by simp [hmember]⟩

/-- Only one member has a name. -/
theorem Fits.called_iff (h : r.Fits body) {key origin : MemberKey}
    (hcalled : r.Called key origin) (other : MemberKey) :
    r.Called key other ↔ other = origin := by
  constructor
  · intro hother
    exact Option.some.inj
      (h.holder_unique key (some other) (some origin) hother hcalled)
  · rintro rfl
    exact hcalled

theorem Fits.notMem_fresh (h : r.Fits body) {key origin : MemberKey}
    (hcalled : r.Called key origin) : key ∉ r.fresh := fun hmem =>
  absurd (h.holder_unique key none (some origin) hmem hcalled) (by simp)

theorem Fits.not_called (h : r.Fits body) {key : MemberKey} (hfresh : key ∈ r.fresh)
    (origin : MemberKey) : ¬ r.Called key origin := fun hcalled =>
  h.notMem_fresh hcalled hfresh

/-- At the start every name belongs to one member, and none is fresh. -/
theorem Fits.start {cls : DeviceClass} (hcls : cls.UniqueNames) :
    (start cls).Fits cls.toClassBody := by
  constructor
  · exact hcls
  · simp [holds_start_iff]
  · intro key who other hwho hother
    rw [(holds_start_iff.mp hwho).1, (holds_start_iff.mp hother).1]
  · intro key who hwho
    exact Or.inl (holds_start_iff.mp hwho).1

/-- A name that the class accepts as new belongs to nobody yet, so nobody loses it to
the added member. -/
theorem Fits.add {member : Member} (h : r.Fits body)
    (hadd : body.add member = .ok next) :
    (r.add ⟨member.kind, member.name⟩).Fits next := by
  obtain ⟨hname, hnew, -⟩ := ClassBody.add_eq_ok_iff.mp hadd
  have hfree : ∀ who, ¬ r.Holds ⟨member.kind, member.name⟩ who := by
    intro who hwho
    exact hnew (ClassBody.hasMember_iff.mp ((h.hasMember_iff _).mpr ⟨who, hwho⟩))
  constructor
  · exact ClassBody.uniqueNames_of_add h.unique hadd
  · intro key
    rw [ClassBody.hasMember_of_add hadd, h.hasMember_iff]
    simp [holds_add_iff, exists_or]
  · intro key who other hwho hother
    rw [holds_add_iff] at hwho hother
    rcases hwho with ⟨rfl, hwho⟩ | hwho
    · rcases hother with ⟨-, hother⟩ | hother
      · rw [hwho, hother]
      · exact absurd hother (hfree other)
    · rcases hother with ⟨rfl, -⟩ | hother
      · exact absurd hwho (hfree who)
      · exact h.holder_unique key who other hwho hother
  · intro key who hwho
    rw [holds_add_iff] at hwho
    rcases hwho with ⟨rfl, -⟩ | hwho
    · exact Or.inr hname
    · exact h.identifier key who hwho

theorem holds_rename_self_iff {kind : MemberKind} {name : String} {key : MemberKey}
    {who : Option MemberKey} :
    (r.rename kind name name).Holds key who ↔ r.Holds key who := by
  rw [holds_rename_iff]
  by_cases h : key = ⟨kind, name⟩
  · simp [h]
  · simp [h]

/-- The new name belongs to nobody, so it can be handed on. Whoever had the old one is
the only one to change. -/
theorem Fits.rename {kind : MemberKind} {old new : String} (h : r.Fits body)
    (hrename : body.rename kind old new = .ok next) :
    (r.rename kind old new).Fits next := by
  obtain ⟨hname, -, ⟨rfl, rfl⟩ | ⟨hnew, -⟩⟩ := ClassBody.rename_eq_ok_iff.mp hrename
  · constructor
    · exact h.unique
    · simpa [holds_rename_self_iff] using h.hasMember_iff
    · simpa [holds_rename_self_iff] using h.holder_unique
    · simpa [holds_rename_self_iff] using h.identifier
  · have hfree : ∀ who, ¬ r.Holds ⟨kind, new⟩ who := by
      intro who hwho
      exact hnew (ClassBody.hasMember_iff.mp ((h.hasMember_iff _).mpr ⟨who, hwho⟩))
    have hne : old ≠ new := by
      rintro rfl
      exact hnew (ClassBody.rename_eq_ok_iff.mp hrename).2.1
    constructor
    · exact ClassBody.uniqueNames_of_rename h.unique hrename
    · intro key
      rw [ClassBody.hasMember_of_rename h.unique hne hrename, h.hasMember_iff]
      simp only [holds_rename_iff, exists_or, exists_and_right]
      rw [← h.hasMember_iff ⟨kind, old⟩, ClassBody.hasMember_iff]
      simp [(ClassBody.rename_eq_ok_iff.mp hrename).2.1]
    · intro key who other hwho hother
      rw [holds_rename_iff] at hwho hother
      rcases hwho with ⟨hwho, rfl⟩ | ⟨hwho, hkey⟩
      · rcases hother with ⟨hother, -⟩ | ⟨hother, -⟩
        · exact h.holder_unique _ who other hwho hother
        · exact absurd hother (hfree other)
      · rcases hother with ⟨-, rfl⟩ | ⟨hother, -⟩
        · exact absurd hwho (hfree who)
        · exact h.holder_unique key who other hwho hother
    · intro key who hwho
      rw [holds_rename_iff] at hwho
      rcases hwho with ⟨-, rfl⟩ | ⟨hwho, -⟩
      · exact Or.inr hname
      · exact h.identifier key who hwho

theorem Fits.remove {removed : MemberKey} (h : r.Fits body)
    (hremove : body.remove removed = .ok next) : (r.remove removed).Fits next := by
  constructor
  · exact ClassBody.uniqueNames_of_remove h.unique hremove
  · intro key
    rw [ClassBody.hasMember_of_remove h.unique hremove, h.hasMember_iff]
    simp [holds_remove_iff]
  · intro key who other hwho hother
    exact h.holder_unique key who other (holds_remove_iff.mp hwho).1
      (holds_remove_iff.mp hother).1
  · intro key who hwho
    exact h.identifier key who (holds_remove_iff.mp hwho).1

end Roster

/-! ## The record of renames -/

namespace Renames

theorem mem_insertKey_iff {key other : MemberKey} {keys : List MemberKey} :
    other ∈ insertKey key keys ↔ other = key ∨ other ∈ keys := by
  rw [insertKey]
  split
  · next hmem =>
      constructor
      · exact Or.inr
      · rintro (rfl | h)
        · exact hmem
        · exact h
  · simp [or_comm]

/-- The record without the entry of the member that has the name now. -/
def forget (t : Renames) (key : MemberKey) : OrderedMap MemberKey String :=
  match t.origin? key with
  | some origin => t.renamed.erase origin
  | none => t.renamed

theorem rename_of_not_added {t : Renames} {kind : MemberKind} {old new : String}
    (hne : old ≠ new) (hadded : ⟨kind, old⟩ ∉ t.added) :
    t.rename kind old new =
      if (t.origin ⟨kind, old⟩).name = new then
        { t with renamed := t.forget ⟨kind, old⟩ }
      else { t with
        renamed := (t.forget ⟨kind, old⟩).insert (t.origin ⟨kind, old⟩) new } := by
  rw [rename, if_neg hne, if_neg hadded]
  rfl

theorem delete_of_not_added {t : Renames} {key : MemberKey} (hadded : key ∉ t.added) :
    t.delete key =
      { t with
        renamed := t.forget key
        deleted := insertKey (t.origin key) t.deleted } := by
  rw [delete, if_neg hadded]
  rfl

/-- The tables of the record say of every member what the roster says. -/
structure Tracks (t : Renames) (r : Roster) : Prop where
  mem_added_iff : ∀ key, key ∈ t.added ↔ key ∈ r.fresh
  mem_deleted_iff : ∀ key, key ∈ t.deleted ↔ r.fate key = some .deleted
  get?_renamed_iff : ∀ key name, t.renamed.get? key = some name ↔
    r.fate key = some (.alive name) ∧ name ≠ key.name

variable {t : Renames} {r : Roster} {body : ClassBody}

/-- The record finds the member that has a name now. -/
theorem Tracks.origin?_eq (ht : t.Tracks r) (hr : r.Fits body) {key origin : MemberKey}
    (hcalled : r.Called key origin) :
    t.origin? key = if origin = key then none else some origin := by
  have hfound : ∀ e ∈ t.renamed.entries, e.1.kind = key.kind → e.2 = key.name →
      e.1 = origin ∧ key.name ≠ origin.name := by
    intro e he hkind hname
    obtain ⟨hfate, hne⟩ :=
      (ht.get?_renamed_iff e.1 e.2).mp (OrderedMap.get?_eq_some_iff.mpr he)
    rw [hname] at hfate hne
    have heq := hr.holder_unique key (some e.1) (some origin) ⟨hkind, hfate⟩ hcalled
    rw [Option.some.injEq] at heq
    rw [heq] at hne
    exact ⟨heq, hne⟩
  have hname : origin = key ↔ key.name = origin.name := by
    obtain ⟨hkind, -⟩ := hcalled
    obtain ⟨kind, name⟩ := key
    obtain ⟨originKind, originName⟩ := origin
    simp only at hkind
    simp [hkind, eq_comm]
  by_cases hsame : origin = key
  · rw [if_pos hsame, origin?, Option.map_eq_none_iff, List.find?_eq_none]
    intro e he hmatch
    rw [Bool.and_eq_true, beq_iff_eq, beq_iff_eq] at hmatch
    exact (hfound e he hmatch.1 hmatch.2).2 (hname.mp hsame)
  · rw [if_neg hsame, origin?, Option.map_eq_some_iff]
    have hentry : (origin, key.name) ∈ t.renamed.entries := by
      rw [← OrderedMap.get?_eq_some_iff, ht.get?_renamed_iff]
      exact ⟨hcalled.2, fun heq => hsame (hname.mpr heq)⟩
    have hsome := List.find?_isSome
      (p := fun e : MemberKey × String => e.1.kind == key.kind && e.2 == key.name).mpr
      ⟨_, hentry, by simp [hcalled.1]⟩
    obtain ⟨e, he⟩ := Option.isSome_iff_exists.mp hsome
    have hmatch := List.find?_some he
    rw [Bool.and_eq_true, beq_iff_eq, beq_iff_eq] at hmatch
    exact ⟨e, he, (hfound e (List.mem_of_find?_eq_some he) hmatch.1 hmatch.2).1⟩

theorem Tracks.origin_eq (ht : t.Tracks r) (hr : r.Fits body) {key origin : MemberKey}
    (hcalled : r.Called key origin) : t.origin key = origin := by
  rw [Renames.origin, ht.origin?_eq hr hcalled]
  split
  · next hsame => exact hsame.symm
  · rfl

/-- Without the entry of a member, the table has the entries of the others. -/
theorem Tracks.get?_forget (ht : t.Tracks r) (hr : r.Fits body) {key origin : MemberKey}
    (hcalled : r.Called key origin) (other : MemberKey) :
    (t.forget key).get? other = if origin = other then none
      else t.renamed.get? other := by
  rw [forget, ht.origin?_eq hr hcalled]
  by_cases hsame : origin = key
  · rw [if_pos hsame]
    by_cases hother : origin = other
    · rw [if_pos hother, ← hother, Option.eq_none_iff_forall_ne_some]
      intro name hname
      obtain ⟨hfate, hne⟩ := (ht.get?_renamed_iff _ _).mp hname
      rw [hcalled.2, Option.some.injEq, Fate.alive.injEq] at hfate
      exact hne (by rw [← hfate, hsame])
    · rw [if_neg hother]
  · rw [if_neg hsame]
    exact OrderedMap.get?_erase t.renamed origin other

/-- At the start the record is empty, and so the roster says that everybody has the
first name. -/
theorem Tracks.start (cls : DeviceClass) : Tracks {} (.start cls) := by
  constructor
  · simp [Roster.start]
  · intro key
    simp [Roster.start]
  · intro key name
    simp only [OrderedMap.get?_empty, Roster.start]
    split
    · simp [eq_comm]
    · simp

/-- A deleted member that is added again is taken out of the list of the deleted. In all
other cases both sides leave the members of the start alone. -/
theorem Tracks.add (ht : t.Tracks r) (key : MemberKey) :
    (t.add key).Tracks (r.add key) := by
  rw [Renames.add, Roster.add]
  by_cases hdeleted : r.fate key = some .deleted
  · rw [if_pos ((ht.mem_deleted_iff key).mpr hdeleted), if_pos hdeleted]
    constructor
    · exact ht.mem_added_iff
    · intro other
      by_cases hother : other = key
      · simp [hother]
      · simp [hother, ht.mem_deleted_iff]
    · intro other name
      by_cases hother : other = key
      · subst hother
        simp [ht.get?_renamed_iff, hdeleted, eq_comm]
      · simp [hother, ht.get?_renamed_iff]
  · rw [if_neg fun hmem => hdeleted ((ht.mem_deleted_iff key).mp hmem), if_neg hdeleted]
    constructor
    · intro other
      simp [mem_insertKey_iff, ht.mem_added_iff]
    · exact ht.mem_deleted_iff
    · exact ht.get?_renamed_iff

/-- A name that is handed on to itself changes no fate. -/
theorem Tracks.rename_self (ht : t.Tracks r) (kind : MemberKind) (name : String) :
    t.Tracks (r.rename kind name name) := by
  constructor
  · intro key
    rw [ht.mem_added_iff]
    have hholds : (r.rename kind name name).Holds key none ↔ r.Holds key none :=
      Roster.holds_rename_self_iff
    exact hholds.symm
  · intro key
    rw [ht.mem_deleted_iff, Roster.fate_rename_eq_deleted_iff]
  · intro key current
    rw [ht.get?_renamed_iff, Roster.fate_rename_eq_alive_iff]
    by_cases hcalled : r.Called ⟨kind, name⟩ key
    · simp [hcalled, hcalled.2, eq_comm]
    · simp [hcalled]

/-- A fresh name has no entry in the record but that it is fresh. -/
theorem Tracks.rename_fresh (ht : t.Tracks r) (hr : r.Fits body) {kind : MemberKind}
    {old new : String} (hne : old ≠ new) (hfresh : r.Holds ⟨kind, old⟩ none) :
    (t.rename kind old new).Tracks (r.rename kind old new) := by
  have hnobody := hr.not_called hfresh
  rw [Renames.rename, if_neg hne, if_pos ((ht.mem_added_iff _).mpr hfresh)]
  constructor
  · intro key
    have hholds : (r.rename kind old new).Holds key none ↔ _ := Roster.holds_rename_iff
    simp only [Roster.Holds] at hholds hfresh
    simp [mem_insertKey_iff, ht.mem_added_iff, hholds, hfresh]
  · intro key
    rw [ht.mem_deleted_iff, Roster.fate_rename_eq_deleted_iff]
  · intro key name
    rw [ht.get?_renamed_iff, Roster.fate_rename_eq_alive_iff]
    simp [hnobody]

/-- A member of the start gets a new name. The record forgets the entry under the old
name and has one for the new name, unless this is the first name of the member: then no
entry is needed. All other entries belong to other members, whose names are different.
-/
theorem Tracks.rename_called (ht : t.Tracks r) (hr : r.Fits body) {kind : MemberKind}
    {old new : String} (hne : old ≠ new) {origin : MemberKey}
    (hcalled : r.Called ⟨kind, old⟩ origin) :
    (t.rename kind old new).Tracks (r.rename kind old new) := by
  have honly := hr.called_iff hcalled
  have hnotFresh := hr.notMem_fresh hcalled
  have hadded : ⟨kind, old⟩ ∉ t.added :=
    fun hmem => hnotFresh ((ht.mem_added_iff _).mp hmem)
  have htables : (t.rename kind old new).added = t.added ∧
      (t.rename kind old new).deleted = t.deleted ∧
      (t.rename kind old new).renamed = if origin.name = new then t.forget ⟨kind, old⟩
        else (t.forget ⟨kind, old⟩).insert origin new := by
    rw [rename_of_not_added hne hadded, ht.origin_eq hr hcalled]
    split
    · exact ⟨rfl, rfl, rfl⟩
    · exact ⟨rfl, rfl, rfl⟩
  obtain ⟨hadds, hdeletes, hrenames⟩ := htables
  constructor
  · intro key
    have hholds : (r.rename kind old new).Holds key none ↔ _ := Roster.holds_rename_iff
    simp only [Roster.Holds, hnotFresh, false_and, false_or] at hholds
    rw [hadds, ht.mem_added_iff, hholds]
    constructor
    · intro hmem
      exact ⟨hmem, fun heq => hnotFresh (heq ▸ hmem)⟩
    · exact And.left
  · intro key
    rw [hdeletes, ht.mem_deleted_iff, Roster.fate_rename_eq_deleted_iff]
  · intro key name
    have hforget := ht.get?_forget hr hcalled key
    rw [hrenames, Roster.fate_rename_eq_alive_iff, honly]
    by_cases hkey : key = origin
    · subst hkey
      by_cases hback : key.name = new
      · simp [hback, hforget]
      · simp only [hback, if_false, OrderedMap.get?_insert, if_true, Option.some.injEq,
          true_and, not_true_eq_false, and_false, or_false]
        constructor
        · rintro rfl
          exact ⟨rfl, Ne.symm hback⟩
        · rintro ⟨rfl, -⟩
          rfl
    · have hlookup : t.renamed.get? key = some name ↔
          r.fate key = some (.alive name) ∧ name ≠ key.name :=
        ht.get?_renamed_iff key name
      rw [if_neg (Ne.symm hkey)] at hforget
      by_cases hback : origin.name = new
      · simp [hback, hforget, hlookup, hkey]
      · simp [hback, OrderedMap.get?_insert, Ne.symm hkey, hforget, hlookup, hkey]

/-- A fresh member is not in the record, and its renaming leaves none. -/
theorem Tracks.rename (ht : t.Tracks r) (hr : r.Fits body) {kind : MemberKind}
    {old new : String} (hold : body.hasMember ⟨kind, old⟩ = true) :
    (t.rename kind old new).Tracks (r.rename kind old new) := by
  by_cases hne : old = new
  · subst hne
    rw [Renames.rename, if_pos rfl]
    exact ht.rename_self kind old
  · obtain ⟨who, hwho⟩ := (hr.hasMember_iff _).mp hold
    cases who with
    | none => exact ht.rename_fresh hr hne hwho
    | some origin => exact ht.rename_called hr hne hwho

/-- A member of the start is marked as deleted under its first name, and its entry is
forgotten. A fresh one has no entry, and its removal leaves no mark. -/
theorem Tracks.delete (ht : t.Tracks r) (hr : r.Fits body) {key : MemberKey}
    (hkey : body.hasMember key = true) : (t.delete key).Tracks (r.remove key) := by
  obtain ⟨who, hwho⟩ := (hr.hasMember_iff key).mp hkey
  cases who with
  | none =>
      have hnobody := hr.not_called hwho
      rw [Renames.delete, if_pos ((ht.mem_added_iff key).mpr hwho)]
      constructor
      · intro other
        simp [Roster.remove, ht.mem_added_iff]
      · intro other
        simp [Roster.fate_remove_eq_deleted_iff, ht.mem_deleted_iff, hnobody]
      · intro other name
        simp [Roster.fate_remove_eq_alive_iff, ht.get?_renamed_iff, hnobody]
  | some origin =>
      have hcalled : r.Called key origin := hwho
      have honly := hr.called_iff hcalled
      have hnotFresh := hr.notMem_fresh hcalled
      have hadded : key ∉ t.added :=
        fun hmem => hnotFresh ((ht.mem_added_iff key).mp hmem)
      rw [delete_of_not_added hadded, ht.origin_eq hr hcalled]
      constructor
      · intro other
        have hholds : (r.remove key).Holds other none ↔ _ := Roster.holds_remove_iff
        simp only [Roster.Holds] at hholds
        rw [ht.mem_added_iff, hholds]
        constructor
        · intro hmem
          exact ⟨hmem, fun heq => hnotFresh (heq ▸ hmem)⟩
        · exact And.left
      · intro other
        simp [Roster.fate_remove_eq_deleted_iff, ht.mem_deleted_iff,
          mem_insertKey_iff, honly, or_comm]
      · intro other name
        simp only [ht.get?_forget hr hcalled, Roster.fate_remove_eq_alive_iff, honly]
        by_cases hother : origin = other
        · simp [hother]
        · simp [hother, ht.get?_renamed_iff, eq_comm]

def edit (t : Renames) : MemberEdit → Renames
  | .add member => t.add ⟨member.kind, member.name⟩
  | .rename kind old new => t.rename kind old new
  | .remove key => t.delete key

/-- The record resolves every zone as the roster does. -/
theorem Tracks.resolve_eq (ht : t.Tracks r) (id : ZoneId) :
    t.resolve id = r.resolve id := by
  rw [Renames.resolve, Roster.resolve]
  cases id.slot? with
  | none => rfl
  | some slot =>
      have hdeleted := ht.mem_deleted_iff slot.key
      have hrenamed := ht.get?_renamed_iff slot.key
      simp only [MemberSlot.key] at hdeleted hrenamed ⊢
      cases hfate : r.fate ⟨slot.kind, slot.name⟩ with
      | none =>
          have hget : t.renamed.get? ⟨slot.kind, slot.name⟩ = none := by
            rw [Option.eq_none_iff_forall_ne_some]
            simp [hrenamed, hfate]
          simp [hdeleted, hfate, hget]
      | some fate =>
          cases fate with
          | deleted => simp [hdeleted, hfate]
          | alive name =>
              by_cases hname : name = slot.name
              · have hget : t.renamed.get? ⟨slot.kind, slot.name⟩ = none := by
                  rw [Option.eq_none_iff_forall_ne_some]
                  simp [hrenamed, hfate, hname, eq_comm]
                simp [hdeleted, hfate, hget, hname]
              · have hget := (hrenamed name).mpr ⟨hfate, hname⟩
                simp [hdeleted, hfate, hget, hname, MemberSlot.withName]

end Renames

/-! ## Runs of a session -/

namespace Session

/-- The roster accounts for the class, and the record for the roster. -/
structure Follows (s : Session) (r : Roster) : Prop where
  fits : r.Fits s.cls.toClassBody
  tracks : s.renames.Tracks r

variable {s next : Session} {r : Roster}

theorem edit_eq (s : Session) (edit : MemberEdit) :
    s.edit edit = (s.cls.edit edit).map fun cls => ⟨cls, s.renames.edit edit⟩ := by
  cases edit <;> rfl

theorem Follows.start {cls : DeviceClass} (hcls : cls.UniqueNames) :
    Follows ⟨cls, {}⟩ (.start cls) :=
  ⟨.start hcls, .start cls⟩

/-- Class, roster and record take an accepted edit together. -/
theorem Follows.edit (h : s.Follows r) {edit : MemberEdit} {cls : DeviceClass}
    (hedit : s.cls.edit edit = .ok cls) :
    Follows ⟨cls, s.renames.edit edit⟩ (r.edit edit) := by
  obtain ⟨body, hbody, rfl⟩ := DeviceClass.editBody_eq_ok_iff.mp hedit
  cases edit with
  | add member => exact ⟨h.fits.add hbody, h.tracks.add _⟩
  | rename kind old new =>
      have hold : s.cls.hasMember ⟨kind, old⟩ = true :=
        ClassBody.hasMember_iff.mpr (ClassBody.rename_eq_ok_iff.mp hbody).2.1
      exact ⟨h.fits.rename hbody, h.tracks.rename h.fits hold⟩
  | remove key =>
      have hkey := ClassBody.hasMember_iff.mpr (ClassBody.remove_eq_ok_iff.mp hbody).1
      exact ⟨h.fits.remove hbody, h.tracks.delete h.fits hkey⟩

/-- By induction on the edits, of which the refused ones change nothing. -/
theorem Follows.editAll (h : s.Follows r) (edits : List MemberEdit) :
    (s.editAll edits).Follows (r.after s.cls edits) := by
  induction edits generalizing s r with
  | nil => exact h
  | cons edit rest ih =>
      rw [Session.editAll, Roster.after, edit_eq]
      cases hedit : s.cls.edit edit with
      | error error => exact ih h
      | ok cls => exact ih (h.edit hedit)

end Session

namespace Roster

variable {r : Roster} {body : ClassBody}

/-- A zone of a member that is alive goes to the member's name. -/
theorem target?_resolve_of_alive {id : ZoneId} {slot : MemberSlot} {name : String}
    (hslot : id.slot? = some slot) (halive : r.fate slot.key = some (.alive name)) :
    (r.resolve id).target? = some (.ofSlot (slot.withName name)) := by
  rw [resolve, hslot]
  simp only [halive]
  split
  · next hname =>
      rw [hname, Resolution.target?, (ZoneId.eq_ofSlot_of_slot? hslot).1]
      rfl
  · rfl

/-- The parts of a member's zone can be told apart under its name now. -/
theorem Fits.valid_withName (h : r.Fits body) {id : ZoneId} {slot : MemberSlot}
    {name : String} (hslot : id.slot? = some slot)
    (halive : r.fate slot.key = some (.alive name)) : (slot.withName name).Valid := by
  have hvalid := (ZoneId.eq_ofSlot_of_slot? hslot).2
  rcases h.identifier ⟨slot.kind, name⟩ (some slot.key) ⟨rfl, halive⟩ with hsame | hname
  · simp only [MemberSlot.key, Option.some.injEq, MemberKey.mk.injEq, true_and] at hsame
    rw [← hsame]
    exact hvalid
  · exact ⟨Name.ne_empty_of_isIdentifier hname,
      Name.notMem_of_isIdentifier hname (by decide), hvalid.role_ne_empty⟩

/-- A zone of a class stays where it is, and no other one goes there. -/
theorem Fits.target?_eq_iff_of_slot?_eq_none (h : r.Fits body) {id : ZoneId}
    (hid : id.slot? = none) (other : ZoneId) :
    (r.resolve other).target? = some id ↔ other = id := by
  cases hother : other.slot? with
  | none => simp [resolve, hother, Resolution.target?]
  | some slot =>
      have hne : other ≠ id := by
        rintro rfl
        rw [hid] at hother
        exact absurd hother (by simp)
      refine iff_of_false (fun htarget => ?_) hne
      cases hfate : r.fate slot.key with
      | none =>
        exact hne (by simpa [resolve, hother, hfate, Resolution.target?] using htarget)
      | some fate =>
          cases fate with
          | deleted => simp [resolve, hother, hfate, Resolution.target?] at htarget
          | alive name =>
              rw [target?_resolve_of_alive hother hfate, Option.some.injEq] at htarget
              rw [← htarget, ZoneId.slot?_ofSlot (h.valid_withName hother hfate)] at hid
              exact absurd hid (by simp)

/-- Only zones of a member that has the name now go to a zone of that name. -/
theorem Fits.called_of_target? (h : r.Fits body) {id other : ZoneId} {slot : MemberSlot}
    (hslot : id.slot? = some slot)
    (hknown : ∀ slot, other.slot? = some slot → r.fate slot.key ≠ none)
    (htarget : (r.resolve other).target? = some id) :
    ∃ origin, r.Called slot.key origin ∧
      other = .ofSlot (slot.withName origin.name) := by
  cases hother : other.slot? with
  | none =>
      have hsame : other = id := by
        simpa [resolve, hother, Resolution.target?] using htarget
      rw [hsame, hslot] at hother
      exact absurd hother (by simp)
  | some otherSlot =>
      obtain ⟨fate, hfate⟩ := Option.ne_none_iff_exists'.mp (hknown otherSlot hother)
      cases fate with
      | deleted => simp [resolve, hother, hfate, Resolution.target?] at htarget
      | alive name =>
          rw [target?_resolve_of_alive hother hfate, Option.some.injEq,
            (ZoneId.eq_ofSlot_of_slot? hslot).1] at htarget
          have hsame := ZoneId.ofSlot_injective (h.valid_withName hother hfate)
            (ZoneId.eq_ofSlot_of_slot? hslot).2 htarget
          refine ⟨otherSlot.key, ?_, ?_⟩
          · rw [← hsame]
            exact ⟨rfl, hfate⟩
          · rw [← hsame]
            exact (ZoneId.eq_ofSlot_of_slot? hother).1

/-- A zone of a member goes to the zone of the name that the member has now. -/
theorem target?_resolve_of_called {slot : MemberSlot} {origin : MemberKey}
    (hslot : slot.Valid) (hname : Name.isIdentifier origin.name = true)
    (hcalled : r.Called slot.key origin) :
    (r.resolve (.ofSlot (slot.withName origin.name))).target? =
      some (.ofSlot slot) := by
  have hvalid : (slot.withName origin.name).Valid :=
    ⟨Name.ne_empty_of_isIdentifier hname, Name.notMem_of_isIdentifier hname (by decide),
      hslot.role_ne_empty⟩
  have hkey : (slot.withName origin.name).key = origin := by
    rw [MemberSlot.key, MemberSlot.withName,
      ← show origin.kind = slot.kind from hcalled.1]
  have halive : r.fate (slot.withName origin.name).key = some (.alive slot.name) := by
    rw [hkey]
    exact hcalled.2
  rw [target?_resolve_of_alive (ZoneId.slot?_ofSlot hvalid) halive]
  rfl

/-- Zones of two members that are alive never meet. -/
theorem Fits.target?_ne (h : r.Fits body) {id other : ZoneId}
    {slot otherSlot : MemberSlot} (hslot : id.slot? = some slot)
    (hother : other.slot? = some otherSlot) (hne : slot.key ≠ otherSlot.key)
    (halive : r.Survives slot.key) (hotherAlive : r.Survives otherSlot.key) :
    (r.resolve id).target? ≠ (r.resolve other).target? := by
  obtain ⟨name, hname⟩ := halive
  obtain ⟨otherName, hotherName⟩ := hotherAlive
  rw [target?_resolve_of_alive hslot hname, target?_resolve_of_alive hother hotherName]
  intro heq
  have hsame := ZoneId.ofSlot_injective (h.valid_withName hslot hname)
    (h.valid_withName hother hotherName) (Option.some.inj heq)
  simp only [MemberSlot.withName, MemberSlot.mk.injEq] at hsame
  obtain ⟨hkind, rfl, -⟩ := hsame
  have hcalled : r.Called ⟨slot.kind, name⟩ slot.key := ⟨rfl, hname⟩
  have hotherCalled : r.Called ⟨slot.kind, name⟩ otherSlot.key :=
    ⟨hkind.symm, hotherName⟩
  exact hne ((h.called_iff hotherCalled slot.key).mp hcalled)

/-- No zone of a member that is alive goes to a fresh member. -/
theorem Fits.target?_ne_of_fresh (h : r.Fits body) {id other : ZoneId}
    {slot otherSlot : MemberSlot} (hslot : id.slot? = some slot)
    (hother : other.slot? = some otherSlot) (halive : r.Survives slot.key)
    (hfresh : otherSlot.key ∈ r.fresh) : (r.resolve id).target? ≠ some other := by
  obtain ⟨name, hname⟩ := halive
  obtain ⟨hid, hvalid⟩ := ZoneId.eq_ofSlot_of_slot? hother
  rw [target?_resolve_of_alive hslot hname, hid]
  intro heq
  have hsame := ZoneId.ofSlot_injective (h.valid_withName hslot hname) hvalid
    (Option.some.inj heq)
  have hcalled : r.Called otherSlot.key slot.key := by
    rw [← hsame]
    exact ⟨rfl, hname⟩
  exact h.not_called hfresh slot.key hcalled

end Roster

/-- The record of a session follows the members through any edits: it resolves
every zone of the files before them by what became of its member, and no two
members that are alive, of old or new, are given one zone. -/
theorem resolve_editAll {cls : DeviceClass} (hcls : cls.UniqueNames)
    (edits : List MemberEdit) :
    let s := (⟨cls, {}⟩ : Session).editAll edits
    let r := (Roster.start cls).after cls edits
    (∀ id, s.renames.resolve id = r.resolve id) ∧
      (∀ id other slot otherSlot, id.slot? = some slot → other.slot? = some otherSlot →
        slot.key ≠ otherSlot.key → r.Survives slot.key → r.Survives otherSlot.key →
        (s.renames.resolve id).target? ≠ (s.renames.resolve other).target?) ∧
      (∀ id other slot otherSlot, id.slot? = some slot → other.slot? = some otherSlot →
        r.Survives slot.key → otherSlot.key ∈ r.fresh →
        (s.renames.resolve id).target? ≠ some other) ∧
      ∀ key, s.cls.hasMember key = true ↔ ∃ who, r.Holds key who := by
  intro s r
  have h : s.Follows r := (Session.Follows.start hcls).editAll edits
  refine ⟨h.tracks.resolve_eq, ?_, ?_, h.fits.hasMember_iff⟩
  · intro id other slot otherSlot hslot hother hne halive hotherAlive
    rw [h.tracks.resolve_eq, h.tracks.resolve_eq]
    exact h.fits.target?_ne hslot hother hne halive hotherAlive
  · intro id other slot otherSlot hslot hother halive hfresh
    rw [h.tracks.resolve_eq]
    exact h.fits.target?_ne_of_fresh hslot hother halive hfresh

/-- Two commands exchange their names, and a deleted one comes back. -/
theorem resolve_editAll_exchange :
    let cls : DeviceClass :=
      { name := "Motor", language := .cpp,
        commands := [{ name := "On" }, { name := "Off" }, { name := "Stop" }] }
    let edits : List MemberEdit :=
      [.rename .command "On" "Start", .rename .command "Off" "On",
        .rename .command "Start" "Off", .remove ⟨.command, "Stop"⟩,
        .add (.command { name := "On" }), .add (.command { name := "Stop" })]
    let renames := ((⟨cls, {}⟩ : Session).editAll edits).renames
    cls.UniqueNames ∧
      renames.resolve ⟨"command:On:body"⟩ = .renamed ⟨"command:Off:body"⟩ ∧
      renames.resolve ⟨"command:Off:body"⟩ = .renamed ⟨"command:On:body"⟩ ∧
      renames.resolve ⟨"command:Stop:body"⟩ = .keep ⟨"command:Stop:body"⟩ := by
  intro cls edits renames
  have hcls : cls.UniqueNames := by
    intro kind
    cases kind <;> decide
  have h := (resolve_editAll hcls edits).1
  refine ⟨hcls, ?_, ?_, ?_⟩
  · exact (h _).trans (by decide +kernel)
  · exact (h _).trans (by decide +kernel)
  · exact (h _).trans (by decide +kernel)

end DeviceForge
