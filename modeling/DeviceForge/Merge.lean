import DeviceForge.Renames
import DeviceForge.Skeleton
import DeviceForge.Warning
import DeviceForge.Zone.Recovery

/-!
# Merging an earlier file into a skeleton

The zones of the earlier file are placed one after another where the record of renames
says they belong. A zone that moves because its member was renamed wins over one that
stays; otherwise the first one keeps the place. A zone whose place is not in the
skeleton is left out. Everything that is not carried over is reported.
-/

namespace DeviceForge

/-- What happened to a part of the earlier file. -/
inductive MergeIssue where
  | damaged (damage : Damage)
  /-- The member of the zone is gone. -/
  | dropped (id : ZoneId)
  /-- A second zone belongs to a place that is taken. -/
  | collision (target : ZoneId)
  /-- The skeleton has no such zone. -/
  | orphaned (target : ZoneId)
  deriving DecidableEq, Repr

namespace MergeIssue

def message : MergeIssue → String
  | .damaged damage => damage.message
  | .dropped id => s!"zone '{id.text}' dropped: its member was deleted"
  | .collision target =>
    s!"zone '{target.text}' recovered twice; keeping the renamed member's text"
  | .orphaned target =>
    s!"zone '{target.text}' no longer exists; its text was not carried over"

def kind : MergeIssue → WarningKind
  | .damaged _ => .malformedRegion
  | .dropped _ => .droppedZone
  | .collision _ => .renameCollision
  | .orphaned _ => .orphanedZone

def toWarning (file : String) (issue : MergeIssue) : Warning :=
  { kind := issue.kind, message := issue.message, file := some file }

end MergeIssue

structure PlacedZone where
  body : String
  /-- Whether it came there because its member was renamed. -/
  renamed : Bool
  deriving DecidableEq, Repr

/-- The places taken so far, and the issues on the way. -/
structure Placement where
  placed : OrderedMap ZoneId PlacedZone := .empty
  issues : List MergeIssue := []

namespace Placement

def put (p : Placement) (target : ZoneId) (zone : PlacedZone) : Placement :=
  match p.placed.get? target with
  | none => { p with placed := p.placed.insert target zone }
  | some taken =>
    { placed :=
        if zone.renamed && !taken.renamed then p.placed.insert target zone else p.placed
      issues := p.issues ++ [.collision target] }

def add (renames : Renames) (p : Placement) (id : ZoneId) (body : String) : Placement :=
  match renames.resolve id with
  | .dropped => { p with issues := p.issues ++ [.dropped id] }
  | .keep target => p.put target ⟨body, false⟩
  | .renamed target => p.put target ⟨body, true⟩

def ofZones (renames : Renames) (zones : List (ZoneId × String)) : Placement :=
  zones.foldl (fun p zone => p.add renames zone.1 zone.2) {}

/-- The places that a skeleton does not have, in the order of their ids. -/
def orphans (p : Placement) (expected : List ZoneId) : List ZoneId :=
  (p.placed.keys.filter (· ∉ expected)).mergeSort fun a b => decide (a.text ≤ b.text)

end Placement

/-- A file with its zones filled, and what became of the earlier one. -/
structure Merged where
  file : String
  text : String
  issues : List MergeIssue
  deriving DecidableEq, Repr

def Merged.warnings (m : Merged) : List Warning :=
  m.issues.map (·.toWarning m.file)

/-- Fills the zones of a skeleton from the earlier file, if there is one. -/
def merge (skeleton : Skeleton) (prior : Option String) (renames : Renames) : Merged :=
  match prior with
  | none => ⟨skeleton.file, skeleton.renderDefault, []⟩
  | some text =>
    let recovery := recoverZones skeleton.style text
    let placement := Placement.ofZones renames recovery.zones.entries
    { file := skeleton.file
      text := skeleton.render fun id => (placement.placed.get? id).map (·.body)
      issues := recovery.damage.map .damaged ++ placement.issues ++
        (placement.orphans skeleton.zoneIds).map .orphaned }

end DeviceForge
