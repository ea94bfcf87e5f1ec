import DeviceForge.Interface.Basic
import DeviceForge.Source.Layout
import DeviceForge.Text.Escape

/-!
# What an emitter reads

An emitter reads the effective interface of a class, the free text of its body, and the
settings.
-/

namespace DeviceForge

/-- How sources are generated. -/
structure Settings where
  /-- Spaces for each level of indentation. -/
  indentWidth : Nat := 4
  /-- The copyright of a class that names none. -/
  defaultCopyright : Option String := none
  /-- Whether files start with a banner. -/
  emitBanner : Bool := true
  /-- Whether bodies of methods are taken from the sources of a legacy class. -/
  recoverLegacyCode : Bool := true
  deriving DecidableEq, Repr

def Settings.indentUnit (s : Settings) : String :=
  String.ofList (List.replicate s.indentWidth ' ')

structure SourceContext where
  iface : Interface
  body : ClassBody
  settings : Settings

namespace SourceContext

def name (c : SourceContext) : String :=
  c.iface.name

def file (c : SourceContext) (name : String) (style : MarkerStyle) (l : Layout) :
    Skeleton :=
  l.toSkeleton name style c.settings.indentUnit

/-- The copyright of the class, or the one for all classes. -/
def copyright? (c : SourceContext) : Option String :=
  let own := Text.trim c.body.metadata.copyright
  if own.isEmpty then c.settings.defaultCopyright else some own

/-- The title, safe in a comment; a class without one goes by its name. -/
def title (c : SourceContext) : String :=
  let own := Text.trim c.body.metadata.title
  if own.isEmpty then c.name else Text.escapeComment own

def description (c : SourceContext) : List String :=
  Text.lines c.body.metadata.description

end SourceContext

end DeviceForge
