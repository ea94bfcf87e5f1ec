import DeviceForge.Device.Language
import DeviceForge.Zone.Id

/-!
# Marker lines

A zone stands between two marker lines that name it. A marker is a comment of the target
language: a block comment, or a line comment that is closed like one. Blanks around a
marker are indentation.

The reader accepts what the writer writes: the blanks removed, a marker line is exactly
the text of `beginMarker` or `endMarker` for an id that is not empty.
-/

namespace DeviceForge

/-- The comments that marker lines are made of. -/
inductive MarkerStyle where
  | block
  | hash
  deriving DecidableEq, Repr

/-- A marker line, with the id of the zone that it opens or closes. -/
inductive Marker where
  | opens (id : ZoneId)
  | closes (id : ZoneId)
  deriving DecidableEq, Repr

namespace MarkerStyle

def ofLanguage (language : Language) : MarkerStyle :=
  if language.hasBlockComments then .block else .hash

def commentStart : MarkerStyle → String
  | .block => "/*"
  | .hash => "#"

def commentEnd : MarkerStyle → String
  | .block => "*/"
  | .hash => "#"

def beginLead : String :=
  "----- PROTECTED REGION ID("

def beginTrail : String :=
  ") ENABLED START -----"

def endLead : String :=
  "----- PROTECTED REGION END("

def endTrail : String :=
  ") -----"

def beginMarker (style : MarkerStyle) (id : ZoneId) : String :=
  style.commentStart ++ beginLead ++ id.text ++ beginTrail ++ style.commentEnd

def endMarker (style : MarkerStyle) (id : ZoneId) : String :=
  style.commentStart ++ endLead ++ id.text ++ endTrail ++ style.commentEnd

/-- What stands between a lead and a trail that do not overlap. -/
def between? (lead trail : String) (cs : List Char) : Option (List Char) :=
  (Text.afterStart? lead.toList cs).bind (Text.beforeEnd? trail.toList)

/-- An id read from a marker, which must not be empty. -/
def idOf? (cs : List Char) : Option ZoneId :=
  if cs.isEmpty then none else some ⟨String.ofList cs⟩

/-- The marker that a line is, if it is one. -/
def read? (style : MarkerStyle) (line : List Char) : Option Marker :=
  match between? style.commentStart style.commentEnd (Text.trimChars line) with
  | none => none
  | some body =>
    match between? beginLead beginTrail body with
    | some id => (idOf? id).map .opens
    | none => ((between? endLead endTrail body).bind idOf?).map .closes

end MarkerStyle

end DeviceForge
