import DeviceForge.Decimal.Reading

/-!
# Numerals of JSON

A numeral is kept as it is written. As a float it is read in one step of scaling: the
digits are gathered into a number while it fits 64 bits, the others are dropped, and the
gathered number is multiplied or divided by one power of ten. The value can therefore
differ in its last bits from the nearest float.
-/

namespace DeviceForge.Json

structure Numeral where
  negative : Bool
  whole : List Char
  fraction : List Char := []
  exponent : Option Int := none
  deriving DecidableEq

namespace Numeral

/-- The digits before the point: a zero that stands alone, or digits without a leading
zero. -/
def isWhole (digits : List Char) : Bool :=
  match digits with
  | [] => false
  | [_] => true
  | first :: _ => first != '0'

def exponent? (text : List Char) : Option (Option Int) :=
  if text.isEmpty then some none else (Decimal.exponent? Decimal.ofDigits text).map some

/-- Reads a numeral. A point needs digits on both sides. -/
def read? (text : List Char) : Option Numeral :=
  let (negative, body) := match text with
    | '-' :: rest => (true, rest)
    | other => (false, other)
  let whole := body.takeWhile Char.isDigit
  if !isWhole whole then none
  else
    match body.dropWhile Char.isDigit with
    | '.' :: rest =>
      let fraction := rest.takeWhile Char.isDigit
      if fraction.isEmpty then none
      else (exponent? (rest.dropWhile Char.isDigit)).map
        (⟨negative, whole, fraction, ·⟩)
    | rest => (exponent? rest).map (⟨negative, whole, [], ·⟩)

/-- The value of an unsigned numeral of 64 bits without point and exponent. -/
def nat64? (x : Numeral) : Option Nat :=
  if x.negative || !x.fraction.isEmpty || x.exponent.isSome then none
  else Decimal.natBelow? UInt64.size x.whole

/-- Appends digits to a number as long as it fits 64 bits. Returned with the digits left
over. -/
def gather (n : Nat) : List Char → Nat × List Char
  | [] => (n, [])
  | c :: rest =>
    let next := 10 * n + Decimal.digitValue c
    if next < UInt64.size then gather next rest else (n, c :: rest)

def maxPower : Nat :=
  308

def power (exponent : Nat) : Float :=
  Float.ofScientific 1 false exponent

/-- A number of 64 bits times a power of ten, unless that is too large. Two divisions by
the largest power leave nothing of such a number. -/
def scaled? (significand : Nat) (exponent : Int) : Option Float :=
  let x := significand.toUInt64.toFloat
  if significand = 0 then some x
  else if maxPower < exponent then none
  else if 0 ≤ exponent then
    let product := x * power exponent.toNat
    if product.isInf then none else some product
  else if -maxPower ≤ exponent then some (x / power (-exponent).toNat)
  else if -2 * maxPower ≤ exponent then
    some (x / power maxPower / power (-exponent - maxPower).toNat)
  else some 0

/-- The numeral as a float, unless it is too large for one. -/
def float? (x : Numeral) : Option Float :=
  let (head, dropped) := gather 0 x.whole
  let (significand, unused) := gather head x.fraction
  let places : Int := x.fraction.length - unused.length
  let magnitude? := scaled? significand (dropped.length - places + x.exponent.getD 0)
  magnitude?.map fun magnitude => if x.negative then -magnitude else magnitude

end Numeral

end DeviceForge.Json
