import DeviceForge.Text.Blank
import DeviceForge.Text.Case

/-!
# Data types

The types of attribute values, command arguments and properties. Which of them an
attribute or a property may carry is decided here; the spelling in a target language
belongs to its emitter.
-/

namespace DeviceForge

inductive DataType where
  | boolean
  | short
  | ushort
  | long
  | ulong
  | long64
  | ulong64
  | float
  | double
  | string
  | uchar
  | state
  | enum
  | encoded
  | void
  | shortArray
  | longArray
  | doubleArray
  | stringArray
  | booleanArray
  | charArray
  deriving DecidableEq, Repr

namespace DataType

def all : List DataType :=
  [.boolean, .short, .ushort, .long, .ulong, .long64, .ulong64, .float, .double,
    .string, .uchar, .state, .enum, .encoded, .void, .shortArray, .longArray,
    .doubleArray, .stringArray, .booleanArray, .charArray]

def bareLabel : DataType → String
  | .boolean => "Boolean"
  | .short => "Short"
  | .ushort => "UShort"
  | .long => "Long"
  | .ulong => "ULong"
  | .long64 => "Long64"
  | .ulong64 => "ULong64"
  | .float => "Float"
  | .double => "Double"
  | .string => "String"
  | .uchar => "UChar"
  | .state => "State"
  | .enum => "Enum"
  | .encoded => "Encoded"
  | .void => "Void"
  | .shortArray => "VarShortArray"
  | .longArray => "VarLongArray"
  | .doubleArray => "VarDoubleArray"
  | .stringArray => "VarStringArray"
  | .booleanArray => "VarBooleanArray"
  | .charArray => "VarCharArray"

def label (t : DataType) : String :=
  "Dev" ++ t.bareLabel

/-- Reads a label. The `Dev` before it may be missing, and the case of the rest does not
count. -/
def ofLabel? (text : String) : Option DataType :=
  let chars := Text.trimChars text.toList
  let bare := match chars with
    | 'D' :: 'e' :: 'v' :: rest => rest
    | other => other
  all.find? fun t => Text.sameIgnoringCase t.bareLabel (String.ofList bare)

/-- Sequence types, for arguments and properties. -/
def isArray : DataType → Bool
  | .shortArray | .longArray | .doubleArray | .stringArray | .booleanArray
  | .charArray => true
  | _ => false

/-- An attribute carries single values; its format adds the dimensions. -/
def isAttributeType (t : DataType) : Bool :=
  !t.isArray && t != .void

def isPropertyType : DataType → Bool
  | .state | .enum | .encoded | .void | .charArray => false
  | _ => true

end DataType

end DeviceForge
