import DeviceForge.Text.Blank
import DeviceForge.Text.Case

/-!
# Target languages and licenses

Both are closed sets with a label each. A label is read without regard to the blanks
around it and to the case of its ASCII letters.
-/

namespace DeviceForge

inductive Language where
  | cpp
  | java
  /-- Python with the classic device interface. -/
  | python
  /-- Python with the declarative device interface. -/
  | pythonHL
  deriving DecidableEq, Repr, Inhabited

namespace Language

def all : List Language :=
  [.cpp, .java, .python, .pythonHL]

def label : Language → String
  | .cpp => "Cpp"
  | .java => "Java"
  | .python => "Python"
  | .pythonHL => "PythonHL"

def ofLabel? (text : String) : Option Language :=
  all.find? fun l => Text.sameIgnoringCase l.label (Text.trim text)

/-- Whether the language writes block comments, and not only line comments. -/
def hasBlockComments : Language → Bool
  | .cpp | .java => true
  | .python | .pythonHL => false

end Language

inductive License where
  | gpl
  | lgpl
  | apache
  | mit
  | unlicensed
  deriving DecidableEq, Repr, Inhabited

namespace License

def all : List License :=
  [.gpl, .lgpl, .apache, .mit, .unlicensed]

def label : License → String
  | .gpl => "GPL"
  | .lgpl => "LGPL"
  | .apache => "APACHE"
  | .mit => "MIT"
  | .unlicensed => "none"

def ofLabel? (text : String) : Option License :=
  all.find? fun l => Text.sameIgnoringCase l.label (Text.trim text)

end License

end DeviceForge
