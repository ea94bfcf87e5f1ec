/-!
# Warnings

What could be resolved in place is reported beside the result. Every stage has its own
type of issues; this is the common form in which they reach the user, with a stable code
for each kind.
-/

namespace DeviceForge

inductive WarningKind where
  /-- A member hides an inherited one and is marked to do so. -/
  | hiddenByOverride
  /-- A member hides an inherited one without the mark. -/
  | implicitOverride
  /-- A state constraint refers to a member or a state that is not there. -/
  | staleStateConstraint
  /-- The marker lines of a file do not pair up. -/
  | malformedRegion
  /-- The member of a zone was deleted. -/
  | droppedZone
  /-- A zone of the earlier file has no place in the new one. -/
  | orphanedZone
  /-- Two zones of the earlier file claim one place. -/
  | renameCollision
  /-- A part of a legacy description was left out or replaced. -/
  | conversionIncomplete
  deriving DecidableEq, Repr

def WarningKind.code : WarningKind → String
  | .hiddenByOverride => "W0001"
  | .implicitOverride => "W0002"
  | .staleStateConstraint => "W0003"
  | .malformedRegion => "W0020"
  | .droppedZone => "W0021"
  | .orphanedZone => "W0022"
  | .renameCollision => "W0023"
  | .conversionIncomplete => "W0040"

structure Warning where
  kind : WarningKind
  message : String
  file : Option String := none
  deriving DecidableEq, Repr

namespace Warning

def code (w : Warning) : String :=
  w.kind.code

/-- The line shown to the user. -/
def text (w : Warning) : String :=
  match w.file with
  | some file => s!"{w.code} [{file}]: {w.message}"
  | none => s!"{w.code}: {w.message}"

end Warning

end DeviceForge
