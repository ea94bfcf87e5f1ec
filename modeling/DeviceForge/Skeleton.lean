import DeviceForge.Text.Lines
import DeviceForge.Zone.Marker

/-!
# Skeletons

A skeleton is a generated file before its zones are filled: text that is written anew
every time, and zones with the text that they hold by default. Rendering takes the body
of each zone from outside, or else its default, and puts both markers on lines of their
own.
-/

namespace DeviceForge

inductive Segment where
  | text (content : String)
  /-- A zone with its default body, and the blanks before its markers. -/
  | zone (id : ZoneId) (body indent : String)
  deriving DecidableEq, Repr

structure Skeleton where
  file : String
  style : MarkerStyle
  segments : List Segment := []
  deriving DecidableEq, Repr

namespace Skeleton

/-- Appends text to the last segment if that is text, else as a segment of its own. -/
def appendText (content : String) : List Segment → List Segment
  | [] => [.text content]
  | [.text before] => [.text (before ++ content)]
  | segment :: rest => segment :: appendText content rest

/-- Appends generated text; empty text changes nothing. -/
def pushText (s : Skeleton) (content : String) : Skeleton :=
  if content.isEmpty then s
  else { s with segments := appendText content s.segments }

def pushZone (s : Skeleton) (id : ZoneId) (indent body : String) : Skeleton :=
  { s with segments := s.segments ++ [.zone id (Text.endLine body) indent] }

def zoneIds (s : Skeleton) : List ZoneId :=
  s.segments.filterMap fun
    | .text _ => none
    | .zone id _ _ => some id

/-- The default body of the first zone of an id. -/
def defaultBody? (s : Skeleton) (id : ZoneId) : Option String :=
  s.segments.findSome? fun
    | .text _ => none
    | .zone other body _ => if other = id then some body else none

def zoneChars (style : MarkerStyle) (id : ZoneId) (indent body : String) : List Char :=
  indent.toList ++ (style.beginMarker id).toList ++
    '\n' :: (Text.endLine body).toList ++
    indent.toList ++ (style.endMarker id).toList ++ ['\n']

/-- Whether a line starts after the content, given whether one started before it. -/
def atLineStart (before : Bool) (content : List Char) : Bool :=
  match content.getLast? with
  | none => before
  | some c => c == '\n'

/-- Segments one after another. `fresh` says whether the first one starts a line; a zone
always does. -/
def renderFrom (style : MarkerStyle) (content : ZoneId → Option String) :
    Bool → List Segment → List Char
  | _, [] => []
  | fresh, .text t :: rest =>
    t.toList ++ renderFrom style content (atLineStart fresh t.toList) rest
  | fresh, .zone id body indent :: rest =>
    (if fresh then [] else ['\n']) ++
      zoneChars style id indent ((content id).getD body) ++
      renderFrom style content true rest

def render (s : Skeleton) (content : ZoneId → Option String) : String :=
  String.ofList (renderFrom s.style content true s.segments)

def renderDefault (s : Skeleton) : String :=
  s.render fun _ => none

end Skeleton

end DeviceForge
