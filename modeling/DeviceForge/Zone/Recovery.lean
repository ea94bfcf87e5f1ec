import DeviceForge.OrderedMap
import DeviceForge.Text.Lines
import DeviceForge.Zone.Marker

/-!
# Recovering zones from a file

A file is scanned line by line. A line that opens a zone abandons one that is still
open; a line that closes another zone than the open one is passed over; a zone that is
open at the end is abandoned; and an id that was closed before is given up altogether.
All of that is reported as damage, and what is left are the zones with their bodies in
the order of the file.
-/

namespace DeviceForge

/-- A place where the marker lines of a file do not pair up. Lines count from one. -/
inductive Damage where
  /-- Another zone opens before the zone that opened at `openedAt` is closed. -/
  | abandoned (id : ZoneId) (openedAt line : Nat)
  /-- A zone is closed whose id was closed before. -/
  | repeated (id : ZoneId)
  /-- A line closes another zone than the open one. -/
  | mismatched (id : ZoneId) (line : Nat) (opened : ZoneId)
  /-- A line closes a zone while none is open. -/
  | unopened (id : ZoneId) (line : Nat)
  /-- The file ends before the zone is closed. -/
  | unfinished (id : ZoneId) (openedAt : Nat)
  deriving DecidableEq, Repr

def Damage.message : Damage → String
  | .abandoned id openedAt line =>
    s!"zone '{id.text}' opened at line {openedAt} is not closed before line {line}"
  | .repeated id => s!"zone '{id.text}' appears more than once; using its default"
  | .mismatched id line opened =>
    s!"end marker for '{id.text}' at line {line} does not close zone '{opened.text}'"
  | .unopened id line =>
    s!"end marker for '{id.text}' at line {line} has no begin marker"
  | .unfinished id openedAt =>
    s!"zone '{id.text}' opened at line {openedAt} is never closed"

/-- The zones of a file and the damage around them. -/
structure Recovery where
  zones : OrderedMap ZoneId String
  damage : List Damage

structure OpenZone where
  id : ZoneId
  openedAt : Nat
  body : List Char

/-- What a scan knows after some lines. -/
structure Scan where
  zones : OrderedMap ZoneId String := .empty
  /-- The ids that were given up. -/
  repeated : List ZoneId := []
  damage : List Damage := []
  opened : Option OpenZone := none

namespace Scan

def report (s : Scan) (d : Damage) : Scan :=
  { s with damage := s.damage ++ [d] }

/-- Keeps a closed zone, unless its id was closed before. -/
def store (s : Scan) (zone : OpenZone) : Scan :=
  if zone.id ∈ s.repeated then s
  else if s.zones.contains zone.id then
    { s.report (.repeated zone.id) with
      zones := s.zones.erase zone.id
      repeated := zone.id :: s.repeated }
  else { s with zones := s.zones.insert zone.id (String.ofList zone.body) }

/-- A body line, with its line feed. -/
def bodyLine (line : List Char) : List Char :=
  if line.getLast? = some '\n' then line else line ++ ['\n']

/-- Takes in the line with the given number. -/
def step (style : MarkerStyle) (s : Scan) (number : Nat) (line : List Char) : Scan :=
  match style.read? line, s.opened with
  | some (.opens id), none => { s with opened := some ⟨id, number, []⟩ }
  | some (.opens id), some zone =>
    { s.report (.abandoned zone.id zone.openedAt number) with
      opened := some ⟨id, number, []⟩ }
  | some (.closes id), none => s.report (.unopened id number)
  | some (.closes id), some zone =>
    if zone.id = id then { s with opened := none }.store zone
    else s.report (.mismatched id number zone.id)
  | none, none => s
  | none, some zone =>
    { s with opened := some { zone with body := zone.body ++ bodyLine line } }

def run (style : MarkerStyle) (s : Scan) (number : Nat) : List (List Char) → Scan
  | [] => s
  | line :: rest => run style (s.step style number line) (number + 1) rest

/-- What is left at the end of the file. -/
def finish (s : Scan) : Recovery :=
  match s.opened with
  | none => ⟨s.zones, s.damage⟩
  | some zone => ⟨s.zones, s.damage ++ [.unfinished zone.id zone.openedAt]⟩

end Scan

/-- The zones of a text, and the damage in it. -/
def recoverZones (style : MarkerStyle) (text : String) : Recovery :=
  (Scan.run style {} 1 (Text.splitLines text.toList)).finish

end DeviceForge
