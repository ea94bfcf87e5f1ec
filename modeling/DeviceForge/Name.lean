import DeviceForge.Text.Blank
import DeviceForge.Text.Case

/-!
# Identifiers

Names of classes, members and states start with an ASCII letter and go on with ASCII
letters, digits and underscores. A class name may be typed as several words: every word
gets its first character in upper case and the words are put together. Members keep the
spelling of their author.
-/

namespace DeviceForge

/-- Why a name is no identifier. -/
inductive NameFault where
  | empty
  | firstCharacter
  | character (c : Char)
  deriving DecidableEq

def NameFault.message : NameFault → String
  | .empty => "name is empty"
  | .firstCharacter => "first character must be a letter"
  | .character c => s!"character '{c}' is not authorized"

namespace Name

def isInnerChar (c : Char) : Bool :=
  c.isAlphanum || c == '_'

/-- What is wrong with a name, found at the leftmost bad character. -/
def faultOf : List Char → Option NameFault
  | [] => some .empty
  | c :: rest =>
    if c.isAlpha then (rest.find? (!isInnerChar ·)).map .character
    else some .firstCharacter

def fault? (name : String) : Option NameFault :=
  faultOf name.toList

def isIdentifier (name : String) : Bool :=
  (fault? name).isNone

/-- The words of a text put together, each with its first character in upper case. -/
def join (text : String) : String :=
  String.ofList <| (Text.words text).flatMap fun
    | [] => []
    | c :: rest => Text.uppercase c ++ rest

/-- Whether an underscore goes before an upper case letter, seen with its neighbours: it
starts a word after a lower case letter or a digit, and it is the last capital of a run
before a lower case letter. -/
def startsWord (previous : Option Char) (next : Option Char) : Bool :=
  match previous with
  | none => false
  | some p => p.isLower || p.isDigit || (p.isUpper && next.any Char.isLower)

/-- Lower case words with underscores between them, read after the character `previous`.
-/
def snakeChars (previous : Option Char) : List Char → List Char
  | [] => []
  | c :: rest =>
    let tail := snakeChars (some c) rest
    if c.isUpper then
      if startsWord previous rest.head? then '_' :: c.toLower :: tail
      else c.toLower :: tail
    else c :: tail

/-- `GetPosition` becomes `get_position`, and `ReadADCValue` becomes `read_adc_value`.
-/
def snakeCase (name : String) : String :=
  String.ofList (snakeChars none name.toList)

end Name

end DeviceForge
