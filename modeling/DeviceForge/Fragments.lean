import DeviceForge.OrderedMap
import DeviceForge.Text.Lines
import DeviceForge.Zone.Marker

/-!
# Fragments

Bodies of zones that come from elsewhere than an earlier file. Written out between
markers they have the form of an earlier file, so that an ordinary merge takes them in.
-/

namespace DeviceForge

/-- Bodies by zone id. Every body is empty or ends its last line. -/
abbrev Fragments :=
  OrderedMap ZoneId String

namespace Fragments

def store (f : Fragments) (id : ZoneId) (body : String) : Fragments :=
  f.insert id (Text.endLine body)

/-- Some of the fragments as zones of an earlier file. -/
def priorTextWhere (f : Fragments) (style : MarkerStyle) (wanted : ZoneId → Bool) :
    String :=
  String.join <| (f.entries.filter fun e => wanted e.1).map fun e =>
    style.beginMarker e.1 ++ "\n" ++ e.2 ++ style.endMarker e.1 ++ "\n"

def priorText (f : Fragments) (style : MarkerStyle) : String :=
  f.priorTextWhere style fun _ => true

end Fragments

end DeviceForge
