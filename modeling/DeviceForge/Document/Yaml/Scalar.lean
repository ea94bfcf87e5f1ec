import DeviceForge.Decimal.Reading
import DeviceForge.Text.Cut

/-!
# Scalars of YAML

What a scalar means depends on how it is written. A plain one can be null, a truth value
or a number, and is a text otherwise. Digits after a leading zero are a text. Any other
scalar is its text. A tag decides the meaning of a scalar by itself, and the text then
has to fit it.
-/

namespace DeviceForge.Yaml

inductive ScalarStyle where
  | plain
  | quoted
  /-- A block of lines that keeps its line ends. -/
  | literal
  /-- A block of lines that are joined. -/
  | folded
  deriving DecidableEq

structure Scalar where
  text : String
  style : ScalarStyle := .plain
  tag : Option String := none
  deriving DecidableEq

inductive Meaning where
  | null
  | bool (b : Bool)
  | integer (n : Int)
  | decimal (x : Float)
  | text (s : String)

def nullTag : String :=
  "tag:yaml.org,2002:null"

def boolTag : String :=
  "tag:yaml.org,2002:bool"

def integerTag : String :=
  "tag:yaml.org,2002:int"

def decimalTag : String :=
  "tag:yaml.org,2002:float"

def isLocalTag (tag : String) : Bool :=
  tag.toList.head? == some '!'

namespace Scalar

def isNullWord (text : String) : Bool :=
  text ∈ ["~", "null", "Null", "NULL"]

def boolOf? (text : String) : Option Bool :=
  if text ∈ ["true", "True", "TRUE"] then some true
  else if text ∈ ["false", "False", "FALSE"] then some false
  else none

/-- More than one digit with a zero first, after at most one sign. -/
def hasLeadingZero (text : List Char) : Bool :=
  match (Decimal.signed text).2 with
  | '0' :: rest => !rest.isEmpty && rest.all Char.isDigit
  | _ => false

/-- The number that an unsigned text writes in hexadecimal, octal, binary or decimal
digits. -/
def magnitude? (text : List Char) : Option Nat :=
  match text with
  | '0' :: 'x' :: digits => Decimal.ofBase? 16 digits
  | '0' :: 'o' :: digits => Decimal.ofBase? 8 digits
  | '0' :: 'b' :: digits => Decimal.ofBase? 2 digits
  | digits => Decimal.ofBase? 10 digits

def integer? (text : List Char) : Option Int :=
  if hasLeadingZero text then none
  else
    let (negative, body) := Decimal.signed text
    match magnitude? body with
    | none => none
    | some n =>
      if negative then if n ≤ Nat.pow 2 127 then some (-n) else none
      else if n < Nat.pow 2 128 then some n else none

/-- The decimal that a text writes, infinities and the absence of a number included. -/
def decimal? (text : List Char) : Option Float :=
  let (negative, body) := Decimal.signed text
  if String.ofList body ∈ [".inf", ".Inf", ".INF"] then
    some (if negative then -(1.0 / 0.0) else 1.0 / 0.0)
  else if String.ofList text ∈ [".nan", ".NaN", ".NAN"] then some (0.0 / 0.0)
  else
    match (Decimal.unsigned? body).filter Float.isFinite with
    | some x => some (if negative then -x else x)
    | none => none

/-- The decimal that a plain text writes without a tag. -/
def plainDecimal? (text : List Char) : Option Float :=
  if hasLeadingZero text then none else decimal? text

def plainMeaning (text : String) : Meaning :=
  if text.isEmpty || isNullWord text then .null
  else
    match boolOf? text, integer? text.toList, plainDecimal? text.toList with
    | some b, _, _ => .bool b
    | none, some n, _ => .integer n
    | none, none, some x => .decimal x
    | none, none, none => .text text

/-- The meaning of a scalar, unless its text does not fit its tag or the tag is a local
one. -/
def meaning? (s : Scalar) : Option Meaning :=
  match s.tag with
  | none => some (if s.style = .plain then plainMeaning s.text else .text s.text)
  | some tag =>
    if tag = boolTag then (boolOf? s.text).map .bool
    else if tag = integerTag then (integer? s.text.toList).map .integer
    else if tag = decimalTag then (decimal? s.text.toList).map .decimal
    else if tag = nullTag then if isNullWord s.text then some .null else none
    else if isLocalTag tag then none
    else some (.text s.text)

/-- Whether a whole number fits 64 bits, with a sign bit if it is negative. -/
def fits64 (n : Int) : Bool :=
  -Int.pow 2 63 ≤ n && n < Int.pow 2 64

/-- Whether a scalar is read as the kind of a tag: a plain one always, and a literal one
with just this tag. -/
def isReadAs (s : Scalar) (tag : String) : Bool :=
  s.style = .plain || (s.style = .literal && s.tag == some tag)

/-- A whole number of 64 bits. A minus may not stand before it, not even before zero. -/
def nat64? (s : Scalar) : Option Nat :=
  if !s.isReadAs integerTag || s.text.toList.head? == some '-' then none
  else
    match integer? s.text.toList with
    | some n => if n < Int.pow 2 64 then some n.toNat else none
    | none => none

def bool? (s : Scalar) : Option Bool :=
  if s.isReadAs boolTag then boolOf? s.text else none

/-- The text of a scalar, or nothing where it means null. -/
def textOrNull? (s : Scalar) : Option (Option String) :=
  if s.style = .plain then
    match s.tag with
    | none => some (if s.text.isEmpty || isNullWord s.text then none else some s.text)
    | some tag =>
      if tag = nullTag then if isNullWord s.text then some none else none
      else some (some s.text)
  else some (some s.text)

end Scalar

end DeviceForge.Yaml
