/-!
# Binary floating point numbers

A finite number with 53 binary digits, as an exact value: a mantissa times a power of two
no smaller than `2 ^ (-1074)`. Every operation computes its exact result as a fraction and
rounds it once, to the nearest such number, and of two equally near ones to the one with
the even mantissa. A result too large to be represented is no result.
-/

namespace SchemaScript

/-- A finite floating point number, `mantissa * 2 ^ exponent` with a sign. -/
structure Binary64 where
  negative : Bool
  mantissa : Nat
  exponent : Int
  deriving DecidableEq, Repr

namespace Binary64

/-- The least exponent. -/
def minExponent : Int := -1074

/-- The largest exponent. -/
def maxExponent : Int := 971

/-- The whole number nearest to a fraction, a half going to the even neighbour. -/
def nearest (num den : Nat) : Nat :=
  let q := num / den
  let r := num % den
  if 2 * r < den then q
  else if den < 2 * r then q + 1
  else if q % 2 = 0 then q else q + 1

/-- The largest `k` with `2 ^ k ≤ num / den`, for positive numbers. -/
def binaryMagnitude (num den : Nat) : Int :=
  let k : Int := (num.log2 : Int) - den.log2
  let reached := if 0 ≤ k then den <<< k.toNat ≤ num else den ≤ num <<< (-k).toNat
  if reached then k else k - 1

/-- A fraction times a power of two, rounded to a whole number. -/
def nearestScaled (num den : Nat) (e : Int) : Nat :=
  if 0 ≤ e then nearest num (den <<< e.toNat) else nearest (num <<< (-e).toNat) den

/-- The number nearest to a fraction, unless it is too large. -/
def ofRatio? (negative : Bool) (num den : Nat) : Option Binary64 :=
  if num = 0 then some ⟨negative, 0, minExponent⟩
  else
    let e := max (binaryMagnitude num den - 52) minExponent
    let m := nearestScaled num den e
    let rounded : Binary64 := if m = 1 <<< 53 then ⟨negative, 1 <<< 52, e + 1⟩ else ⟨negative, m, e⟩
    if rounded.exponent ≤ maxExponent then some rounded else none

/-- The numerator of the number without its sign. -/
def numerator (x : Binary64) : Nat :=
  if 0 ≤ x.exponent then x.mantissa <<< x.exponent.toNat else x.mantissa

/-- The denominator of the number. -/
def denominator (x : Binary64) : Nat :=
  if 0 ≤ x.exponent then 1 else 1 <<< (-x.exponent).toNat

/-- Whether the number is zero, of either sign. -/
def isZero (x : Binary64) : Bool :=
  x.mantissa == 0

/-- The number of the other sign. -/
def neg (x : Binary64) : Binary64 :=
  { x with negative := !x.negative }

/-- The product of two numbers. -/
def mul? (x y : Binary64) : Option Binary64 :=
  ofRatio? (x.negative != y.negative) (x.numerator * y.numerator)
    (x.denominator * y.denominator)

/-- The quotient of two numbers, the second one not zero. -/
def div? (x y : Binary64) : Option Binary64 :=
  ofRatio? (x.negative != y.negative) (x.numerator * y.denominator)
    (x.denominator * y.numerator)

/-- A power of ten. -/
def tenTo (n : Nat) : Nat :=
  Nat.pow 10 n

/-- The number nearest to `digits * 10 ^ power`, unless it is too large. Powers far beyond
the range of these numbers are decided by the count of digits alone. -/
def ofDecimal? (negative : Bool) (digits : Nat) (power : Int) : Option Binary64 :=
  let magnitude := ((Nat.toDigits 10 digits).length : Int) + power
  if digits = 0 ∨ magnitude < -400 then some ⟨negative, 0, minExponent⟩
  else if 400 < magnitude then none
  else if 0 ≤ power then ofRatio? negative (digits * tenTo power.toNat) 1
  else ofRatio? negative digits (tenTo (-power).toNat)

end Binary64
end SchemaScript
