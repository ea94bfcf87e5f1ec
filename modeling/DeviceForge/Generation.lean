import DeviceForge.Fragments
import DeviceForge.Interface.Resolution
import DeviceForge.Merge
import DeviceForge.Source.Cpp
import DeviceForge.Source.EntryPoint
import DeviceForge.Source.Java
import DeviceForge.Source.Python
import DeviceForge.Source.PythonHL
import DeviceForge.Source.Support

/-!
# Generation

A class is resolved, emitted, and merged with the files of the last generation. Earlier
files are read only after the class has been emitted, and all of them before any is
merged, so an error leaves nothing half done. A generation that succeeds has carried out
all pending renames and deletions.
-/

namespace DeviceForge

/-- What is known of a file of the last generation. -/
inductive PriorFile where
  | absent
  | text (content : String)
  | unreadable
  deriving DecidableEq, Repr

abbrev PriorSource :=
  String → PriorFile

def PriorSource.none : PriorSource :=
  fun _ => .absent

def PriorSource.ofFiles (files : OrderedMap String String) : PriorSource :=
  fun name => match files.get? name with
    | some content => .text content
    | Option.none => .absent

inductive GenerationError where
  | model (error : ModelError)
  | unsupported (member : Unsupported)
  /-- A file of the last generation is there but cannot be read. -/
  | unreadable (file : String)
  deriving DecidableEq

/-- The files of a generation, and what there is to report. -/
structure Output where
  files : OrderedMap String String
  warnings : List Warning
  deriving DecidableEq

/-- The files that a class has in a language, if the language can express all its
members. -/
def emit (language : Language) (c : SourceContext) :
    Except Unsupported (List Skeleton) :=
  match c.iface.unsupported? language with
  | some member => .error member
  | none => .ok <| match language with
    | .cpp => Cpp.skeletons c
    | .java => Java.skeletons c
    | .python => Python.skeletons c
    | .pythonHL => PythonHL.skeletons c

/-- The files of a class before merging, and the warnings of its resolution. -/
def skeletons (settings : Settings) (cls : DeviceClass) :
    Except GenerationError (List Skeleton × List Warning) := do
  let (iface, issues) ← cls.resolve.mapError .model
  let files ←
    (emit cls.language ⟨iface, cls.toClassBody, settings⟩).mapError .unsupported
  return (files, issues.map (·.toWarning))

/-- Reads the earlier file of every skeleton, and stops at the first that cannot be
read. -/
def readPriors (prior : PriorSource) :
    List Skeleton → Except GenerationError (List (Skeleton × Option String))
  | [] => .ok []
  | skeleton :: rest =>
    match prior skeleton.file with
    | .unreadable => .error (.unreadable skeleton.file)
    | .absent => (readPriors prior rest).map ((skeleton, none) :: ·)
    | .text content => (readPriors prior rest).map ((skeleton, some content) :: ·)

/-- Adds the fragments for zones of the skeleton that the earlier file does not hold. -/
def withFragments (fragments : Fragments) (skeleton : Skeleton)
    (prior : Option String) : Option String :=
  let present := match prior with
    | some content => (recoverZones skeleton.style content).zones
    | none => .empty
  let extra := fragments.priorTextWhere skeleton.style fun id =>
    skeleton.zoneIds.contains id && !present.contains id
  if extra.isEmpty then prior
  else some (Text.endLine (prior.getD "") ++ extra)

def mergeAll (renames : Renames) (files : List (Skeleton × Option String)) :
    List Merged :=
  files.map fun (skeleton, prior) => merge skeleton prior renames

def outputOf (warnings : List Warning) (merged : List Merged) : Output where
  files := .ofList (merged.map fun m => (m.file, m.text))
  warnings := warnings ++ merged.flatMap (·.warnings)

/-- A fragment for a zone that no file of the class has. -/
def noSlotWarning (id : ZoneId) : Warning :=
  { kind := .conversionIncomplete
    message := s!"recovered body for '{id.text}' has no slot in the generated files" }

/-- The fragments that found no zone in any of the files. -/
def Fragments.leftOver (fragments : Fragments) (files : List Skeleton) : List ZoneId :=
  let slots := files.flatMap (·.zoneIds)
  fragments.keys.filter (· ∉ slots)

/-- Generates the files of a class, with fragments in the zones that earlier files do
not provide. The result holds the renames that are still pending, which are none. -/
def generateWithFragments (settings : Settings) (cls : DeviceClass)
    (fragments : Fragments) (prior : PriorSource) (renames : Renames) :
    Except GenerationError (Output × Renames) := do
  let (files, warnings) ← skeletons settings cls
  let priors ← readPriors prior files
  let merged := mergeAll renames <| priors.map fun (skeleton, content) =>
    (skeleton, withFragments fragments skeleton content)
  let output := outputOf warnings merged
  return ({ output with
    warnings := output.warnings ++ (fragments.leftOver files).map noSlotWarning }, {})

/-- Generates the files of a class. The result holds the renames that are still pending,
which are none. -/
def generate (settings : Settings) (cls : DeviceClass) (prior : PriorSource)
    (renames : Renames) : Except GenerationError (Output × Renames) := do
  let (files, warnings) ← skeletons settings cls
  let priors ← readPriors prior files
  return (outputOf warnings (mergeAll renames priors), {})

def generateServer (settings : Settings) (server : Server) (prior : PriorSource) :
    Except GenerationError Output := do
  let files ← (EntryPoint.skeletons server settings).mapError .model
  let priors ← readPriors prior files
  return outputOf [] (mergeAll {} priors)

end DeviceForge
