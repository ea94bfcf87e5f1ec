import DeviceForge.Device.Editing
import DeviceForge.Generation

/-!
# Editing sessions

A session is a class that is being edited, together with the renames and deletions that
the next generation has to carry out in the files of the last one. A step that fails has
no next session, so class and record stay as they were.
-/

namespace DeviceForge

structure Session where
  cls : DeviceClass
  renames : Renames := {}

namespace Session

def add (s : Session) (member : Member) : Except ModelError Session :=
  (s.cls.add member).map fun cls => ⟨cls, s.renames.add ⟨member.kind, member.name⟩⟩

def rename (s : Session) (kind : MemberKind) (old new : String) :
    Except ModelError Session :=
  (s.cls.rename kind old new).map fun cls => ⟨cls, s.renames.rename kind old new⟩

def remove (s : Session) (key : MemberKey) : Except ModelError Session :=
  (s.cls.remove key).map fun cls => ⟨cls, s.renames.delete key⟩

def addAncestor (s : Session) (ancestor : DeviceClass) : Except ModelError Session :=
  (s.cls.addAncestor ancestor).map ({ s with cls := · })

def inheritFrom (s : Session) (parent : DeviceClass) : Except ModelError Session :=
  (s.cls.inheritFrom parent).map ({ s with cls := · })

def setLanguage (s : Session) (language : Language) : Except ModelError Session :=
  (s.cls.setLanguage language).map ({ s with cls := · })

/-- Generates the class, and carries out what is pending. -/
def generate (s : Session) (settings : Settings) (prior : PriorSource) :
    Except GenerationError (Output × Session) :=
  (DeviceForge.generate settings s.cls prior s.renames).map fun (output, renames) =>
    (output, { s with renames })

end Session

end DeviceForge
