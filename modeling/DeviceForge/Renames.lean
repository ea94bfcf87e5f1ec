import DeviceForge.Zone.Id
import DeviceForge.OrderedMap

/-!
# Renames and deletions since the last generation

The zones of an earlier file carry the names that members had when it was generated.
Until the next generation a record is kept of what became of those members: which name
each has now, and which are gone. Members added since then own no zones, so renaming or
deleting them never touches the record of the others.
-/

namespace DeviceForge

/-- What becomes of a zone of an earlier file. -/
inductive Resolution where
  | keep (id : ZoneId)
  /-- The member has another name, and the zone another id. -/
  | renamed (id : ZoneId)
  /-- The member is gone. -/
  | dropped
  deriving DecidableEq, Repr

/-- The zone that a zone of an earlier file hands its body to. -/
def Resolution.target? : Resolution → Option ZoneId
  | .keep id => some id
  | .renamed id => some id
  | .dropped => none

structure Renames where
  /-- The name at the last generation, and the name now. -/
  renamed : OrderedMap MemberKey String := .empty
  /-- Members at the last generation that are gone. -/
  deleted : List MemberKey := []
  /-- Members added since the last generation. -/
  added : List MemberKey := []
  deriving DecidableEq

namespace Renames

def isEmpty (r : Renames) : Bool :=
  r.renamed.isEmpty && r.deleted.isEmpty

/-- The name at the last generation of the member that was renamed to the given one. -/
def origin? (r : Renames) (key : MemberKey) : Option MemberKey :=
  (r.renamed.entries.find? fun e => e.1.kind == key.kind && e.2 == key.name).map (·.1)

/-- The name at the last generation of a member that existed then. -/
def origin (r : Renames) (key : MemberKey) : MemberKey :=
  (r.origin? key).getD key

/-- A set as a list without repetition. -/
def insertKey (key : MemberKey) (keys : List MemberKey) : List MemberKey :=
  if key ∈ keys then keys else keys ++ [key]

/-- A member has another name from now on. -/
def rename (r : Renames) (kind : MemberKind) (old new : String) : Renames :=
  if old = new then r
  else if ⟨kind, old⟩ ∈ r.added then
    { r with added := insertKey ⟨kind, new⟩ (r.added.filter (· ≠ ⟨kind, old⟩)) }
  else
    let origin := r.origin ⟨kind, old⟩
    let others := match r.origin? ⟨kind, old⟩ with
      | some key => r.renamed.erase key
      | none => r.renamed
    if origin.name = new then { r with renamed := others }
    else { r with renamed := others.insert origin new }

/-- A member is gone. -/
def delete (r : Renames) (key : MemberKey) : Renames :=
  if key ∈ r.added then { r with added := r.added.filter (· ≠ key) }
  else
    let others := match r.origin? key with
      | some origin => r.renamed.erase origin
      | none => r.renamed
    { r with renamed := others, deleted := insertKey (r.origin key) r.deleted }

/-- A member is there. If one of its name is gone, that one is back with its zones;
otherwise the member is new. -/
def add (r : Renames) (key : MemberKey) : Renames :=
  if key ∈ r.deleted then { r with deleted := r.deleted.filter (· ≠ key) }
  else { r with added := insertKey key r.added }

/-- Where a zone of an earlier file belongs now. -/
def resolve (r : Renames) (id : ZoneId) : Resolution :=
  match id.slot? with
  | none => .keep id
  | some slot =>
    if ⟨slot.kind, slot.name⟩ ∈ r.deleted then .dropped
    else
      match r.renamed.get? ⟨slot.kind, slot.name⟩ with
      | some name => .renamed (ZoneId.ofSlot { slot with name })
      | none => .keep id

end Renames

end DeviceForge
