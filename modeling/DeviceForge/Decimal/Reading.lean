import DeviceForge.Text.Case

/-!
# Reading numbers

Digits are read by their value. A decimal number has a sign, digits with at most one
point, and an exponent; at least one digit stands beside the point. Its value is the
binary64 number nearest to it, which is infinite beyond the largest finite one.
-/

namespace DeviceForge.Decimal

def digitValue (c : Char) : Nat :=
  c.toNat - '0'.toNat

def ofDigits (digits : List Char) : Nat :=
  digits.foldl (fun n c => 10 * n + digitValue c) 0

def digitOf? (base : Nat) (c : Char) : Option Nat :=
  let lower := c.toLower
  let value? :=
    if c.isDigit then some (digitValue c)
    else if 'a' ≤ lower ∧ lower ≤ 'f' then some (lower.toNat - 'a'.toNat + 10)
    else none
  value?.filter (· < base)

/-- The number that digits of a base write. There has to be a digit. -/
def ofBase? (base : Nat) (digits : List Char) : Option Nat :=
  if digits.isEmpty then none
  else digits.foldlM (fun n c => (digitOf? base c).map (base * n + ·)) 0

def hex? (digits : List Char) : Option Nat :=
  ofBase? 16 digits

/-- A whole number below a bound, written in digits, with a plus sign allowed before
them. -/
def natBelow? (bound : Nat) (text : List Char) : Option Nat :=
  let digits := match text with
    | '+' :: rest => rest
    | other => other
  if digits.isEmpty || !digits.all Char.isDigit then none
  else if ofDigits digits < bound then some (ofDigits digits) else none

def nat32? (text : List Char) : Option Nat :=
  natBelow? UInt32.size text

/-- A sign before a number: whether it is a minus, and what follows. -/
def signed : List Char → Bool × List Char
  | '-' :: rest => (true, rest)
  | '+' :: rest => (false, rest)
  | rest => (false, rest)

def exponent? (valueOf : List Char → Nat) : List Char → Option Int
  | [] => some 0
  | c :: rest =>
    if c = 'e' ∨ c = 'E' then
      let (negative, digits) := signed rest
      if digits.isEmpty || !digits.all Char.isDigit then none
      else some (if negative then -(valueOf digits) else valueOf digits)
    else none

/-- A number from which on the digits of an exponent do not count any more. -/
def exponentBound : Nat :=
  65536

def boundedDigits (digits : List Char) : Nat :=
  digits.foldl (fun n c => if n < exponentBound then 10 * n + digitValue c else n) 0

/-- `digits * 10 ^ exponent` as a float, where `length` counts the digits from the first
one that is not zero. Exponents far outside the range of the format are decided without
computing the power. -/
def scaled (digits length : Nat) (exponent : Int) : Float :=
  if digits = 0 ∨ exponent + length < -400 then 0.0
  else if 400 < exponent + length then 1.0 / 0.0
  else if 0 ≤ exponent then Float.ofScientific digits false exponent.toNat
  else Float.ofScientific digits true (-exponent).toNat

/-- The value of a decimal number without a sign. Zeros in front do not change it. -/
def unsigned? (text : List Char) : Option Float :=
  let whole := text.takeWhile Char.isDigit
  let (fraction, rest) := match text.dropWhile Char.isDigit with
    | '.' :: rest => (rest.takeWhile Char.isDigit, rest.dropWhile Char.isDigit)
    | rest => ([], rest)
  let significant := (whole ++ fraction).dropWhile (· = '0')
  if whole.isEmpty && fraction.isEmpty then none
  else (exponent? boundedDigits rest).map fun e =>
    scaled (ofDigits significant) significant.length (e - fraction.length)

/-- The value of a decimal number, which may also be spelled as infinite or as no
number. -/
def read? (text : String) : Option Float :=
  let (negative, body) := signed text.toList
  let lower := body.map Char.toLower
  let magnitude :=
    if lower = "inf".toList ∨ lower = "infinity".toList then some (1.0 / 0.0)
    else if lower = "nan".toList then some (0.0 / 0.0)
    else unsigned? body
  magnitude.map fun x => if negative then -x else x

end DeviceForge.Decimal
