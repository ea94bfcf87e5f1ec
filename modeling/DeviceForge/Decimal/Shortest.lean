/-!
# The shortest decimal of a binary number

A finite binary64 number is `significand * 2 ^ exponent`. All reals nearer to it than to
any other number of the format read back as it; they form an interval, whose ends belong
to it exactly when the significand is even. The text of the number is the decimal of
that interval with the fewest digits, and of several such decimals the nearest. It is
written positionally, however large or small the number is.

The search tests grids of spacing `10 ^ k` from coarse to fine. A grid has a point in
the interval only if one of the two neighbours of the number on that grid is such a
point, so two tests for each grid are enough. Everything is exact arithmetic on natural
numbers.
-/

namespace DeviceForge.Decimal

/-- A positive finite binary64 number, `significand * 2 ^ exponent`. -/
structure Magnitude where
  significand : Nat
  exponent : Int

/-- The parts of a float: whether it is negative, and its magnitude unless it is not
finite. -/
inductive Parts where
  | nan
  | infinite (negative : Bool)
  | finite (negative : Bool) (magnitude : Magnitude)

def partsOf (x : Float) : Parts :=
  let bits := x.toBits.toNat
  let negative := bits / Nat.pow 2 63 == 1
  let biased := bits / Nat.pow 2 52 % Nat.pow 2 11
  let fraction := bits % Nat.pow 2 52
  if biased = 2047 then
    if fraction = 0 then .infinite negative else .nan
  else if biased = 0 then .finite negative ⟨fraction, -1074⟩
  else .finite negative ⟨fraction + Nat.pow 2 52, Int.ofNat biased - 1075⟩

structure Ratio where
  num : Nat
  den : Nat

def ratioOnGrid (n : Nat) (e k : Int) : Ratio :=
  ⟨n * Nat.pow 2 e.toNat * Nat.pow 10 (-k).toNat,
    Nat.pow 2 (-e).toNat * Nat.pow 10 k.toNat⟩

/-- The number nearest to a magnitude on the grid of spacing `10 ^ k` that still reads
back as it. The upper neighbour wins a tie. -/
def nearestOnGrid? (m : Magnitude) (k : Int) : Option Nat :=
  let even := m.significand % 2 == 0
  let value := ratioOnGrid (4 * m.significand) (m.exponent - 2) k
  let gapBelow := if m.significand = Nat.pow 2 52 ∧ -1074 < m.exponent then 1 else 2
  let low := ratioOnGrid (4 * m.significand - gapBelow) (m.exponent - 2) k
  let high := ratioOnGrid (4 * m.significand + 2) (m.exponent - 2) k
  let below := value.num / value.den
  let above := below + 1
  let belowFits := low.num < below * low.den || (even && low.num == below * low.den)
  let aboveFits := above * high.den < high.num || (even && above * high.den == high.num)
  if belowFits && aboveFits then
    if 2 * (value.num % value.den) < value.den then some below else some above
  else if belowFits then some below
  else if aboveFits then some above
  else none

/-- Tests grids from coarse to fine; `steps` bounds how many. -/
def searchGrids (m : Magnitude) : Nat → Int → Nat × Int
  | 0, k => ((ratioOnGrid m.significand m.exponent k).num /
      (ratioOnGrid m.significand m.exponent k).den, k)
  | steps + 1, k =>
    match nearestOnGrid? m k with
    | some digits => (digits, k)
    | none => searchGrids m steps (k - 1)

/-- The shortest decimal `digits * 10 ^ k` of a positive magnitude. The first grid is
coarser than the number, and seventeen digits always suffice. -/
def shortest (m : Magnitude) : Nat × Int :=
  searchGrids m 24 (((m.significand.log2 : Int) + m.exponent) * 30103 / 100000 + 2)

def positional (digits : Nat) (k : Int) : List Char :=
  let ds := Nat.toDigits 10 digits
  if 0 ≤ k then ds ++ List.replicate k.toNat '0'
  else
    let places := (-k).toNat
    if places < ds.length then
      ds.take (ds.length - places) ++ '.' :: ds.drop (ds.length - places)
    else '0' :: '.' :: List.replicate (places - ds.length) '0' ++ ds

def magnitudeText (m : Magnitude) : List Char :=
  if m.significand = 0 then ['0'] else positional (shortest m).1 (shortest m).2

def text (x : Float) : String :=
  match partsOf x with
  | .nan => "NaN"
  | .infinite negative => if negative then "-inf" else "inf"
  | .finite negative m =>
    String.ofList (if negative then '-' :: magnitudeText m else magnitudeText m)

end DeviceForge.Decimal
