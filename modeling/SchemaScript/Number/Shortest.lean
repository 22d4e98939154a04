import SchemaScript.Number.Binary64
import SchemaScript.Number.Integer

/-!
# The shortest decimal of a floating point number

A floating point number is written with the fewest digits that are read back as the same
number. The decimals that are read back form an interval around the number; of all grids
of multiples of a power of ten the coarsest one that has a point in this interval gives the
fewest digits, and of several points on it the one nearest to the number counts. Two points
can be equally near; which one is taken then is part of the form of writing.

The digits are laid out in two ways: positionally, however large or small the number, and
with an exponent of ten behind a digit, a period and the other digits.
-/

namespace SchemaScript
namespace Number

/-- Decimal digits and the power of ten they are multiplied by. -/
structure Digits where
  digits : Nat
  power : Int
  deriving DecidableEq, Repr

/-- The interval of the decimals that are read as one number, as multiples of
`2 ^ (exponent - 2)`, and whether its ends belong to it. -/
structure RoundingInterval where
  low : Nat
  middle : Nat
  high : Nat
  closed : Bool

/-- The rounding interval of a number. Below a power of two the numbers lie twice as close
as above it. -/
def roundingInterval (x : Binary64) : RoundingInterval where
  low := if x.mantissa = 1 <<< 52 ∧ Binary64.minExponent < x.exponent then 4 * x.mantissa - 1
    else 4 * x.mantissa - 2
  middle := 4 * x.mantissa
  high := 4 * x.mantissa + 2
  closed := x.mantissa % 2 == 0

/-- Whether `n` lies in the interval, `unit` making one unit of the interval. -/
def RoundingInterval.contains (i : RoundingInterval) (unit n : Nat) : Bool :=
  if i.closed then i.low * unit ≤ n && n ≤ i.high * unit
  else i.low * unit < n && n < i.high * unit

/-- Which of two neighbouring grid points is taken when both are equally near. -/
inductive Tie where
  /-- The one with an even last digit. -/
  | even
  /-- The larger one. -/
  | larger
  deriving DecidableEq, Repr

/-- The point taken of `below` and `below + 1`. -/
def Tie.pick (tie : Tie) (below : Nat) : Nat :=
  match tie with
  | even => if below % 2 = 0 then below else below + 1
  | larger => below + 1

/-- The multiple of `step` nearest to the middle of the interval among those inside it,
counted in steps. All lengths are counted in a unit of which `unit` make one unit of the
interval. -/
def gridPoint? (tie : Tie) (i : RoundingInterval) (unit step : Nat) : Option Nat :=
  let below := i.middle * unit / step
  let above := below + 1
  let belowIn := i.contains unit (below * step)
  let aboveIn := i.contains unit (above * step)
  if belowIn && aboveIn then
    let distBelow := i.middle * unit - below * step
    let distAbove := above * step - i.middle * unit
    if distBelow < distAbove then some below
    else if distAbove < distBelow then some above
    else some (tie.pick below)
  else if belowIn then some below
  else if aboveIn then some above
  else none

/-- The point of the grid of multiples of `10 ^ power` nearest to the number, if one lies in
its rounding interval. -/
def onGrid? (tie : Tie) (x : Binary64) (power : Int) : Option Nat :=
  let e := x.exponent - 2
  let unit := (if 0 ≤ power then 1 else Binary64.tenTo (-power).toNat) <<< e.toNat
  let step := (if 0 ≤ power then Binary64.tenTo power.toNat else 1) <<< (-e).toNat
  gridPoint? tie (roundingInterval x) unit step

/-- The first grid point found, from the power `n - 1100` downwards. -/
def coarsest (tie : Tie) (x : Binary64) : Nat → Digits
  | 0 => ⟨0, 0⟩
  | n + 1 =>
    let power : Int := (n : Int) - 1100
    match onGrid? tie x power with
    | some d => ⟨d, power⟩
    | none => coarsest tie x n

/-- The shortest decimal that is read as the number, without its sign. -/
def shortest (tie : Tie) (x : Binary64) : Digits :=
  if x.mantissa = 0 then ⟨0, 0⟩ else coarsest tie x 1411

/-- Zeros in a row. -/
def zeros (n : Nat) : List Char :=
  List.replicate n '0'

/-- A decimal without an exponent and without a fraction that is zero. -/
def Digits.positional (d : Digits) : List Char :=
  let ds := Number.digits d.digits
  if 0 ≤ d.power then ds ++ zeros d.power.toNat
  else
    let places := (-d.power).toNat
    if places < ds.length then
      ds.take (ds.length - places) ++ '.' :: ds.drop (ds.length - places)
    else '0' :: '.' :: zeros (places - ds.length) ++ ds

/-- A decimal with one digit in front of the period and a signed exponent. -/
def Digits.scientific (d : Digits) : List Char :=
  let ds := Number.digits d.digits
  let exponent := (ds.length : Int) - 1 + d.power
  let body := match ds with
    | [] => []
    | [c] => [c]
    | c :: cs => c :: '.' :: cs
  body ++ 'e' :: (if 0 ≤ exponent then '+' else '-') :: Number.digits exponent.natAbs

/-- The sign of a number as text. -/
def signText (negative : Bool) : List Char :=
  if negative then ['-'] else []

/-- A number without an exponent; whole numbers have no fraction, and of two equally near
decimals the larger one is written. -/
def plainText (x : Binary64) : List Char :=
  signText x.negative ++ (if x.isZero then ['0'] else (shortest .larger x).positional)

/-- A number as it is written in structured data: positional, always with a fraction, if
the first digit stands between the fifth place behind the period and the sixteenth in front
of it, and with an exponent otherwise. Of two equally near decimals the one with an even
last digit is written. -/
def dataText (x : Binary64) : List Char :=
  signText x.negative ++
    if x.isZero then ['0', '.', '0']
    else
      let d := shortest .even x
      let exponent := ((Number.digits d.digits).length : Int) - 1 + d.power
      if -5 ≤ exponent ∧ exponent < 16 then
        if 0 ≤ d.power then d.positional ++ ['.', '0'] else d.positional
      else d.scientific

end Number
end SchemaScript
