import SchemaScript.Number.Binary64
import SchemaScript.Number.Integer

/-!
# Decimal numbers as text

The numbers a default or a cell may spell: an optional sign, digits with at most one
period among or around them, and an optional exponent with a sign of its own. At least one
digit has to stand in front of the exponent.
-/

namespace SchemaScript
namespace Number

/-- A decimal as it is spelled: `digits * 10 ^ power` with a sign. -/
structure Decimal where
  negative : Bool
  digits : Nat
  power : Int
  deriving DecidableEq, Repr

/-- The sign a text begins with, and the text behind it. -/
def splitSign (cs : List Char) : Bool × List Char :=
  match cs with
  | '-' :: rest => (true, rest)
  | '+' :: rest => (false, rest)
  | rest => (false, rest)

/-- The exponent that a text consists of; no text at all is the exponent zero. -/
def exponent? (cs : List Char) : Option Int :=
  match cs with
  | [] => some 0
  | c :: rest => if c = 'e' ∨ c = 'E' then integer? rest else none

/-- The decimal that a text spells. -/
def decimal? (cs : List Char) : Option Decimal :=
  let signed := splitSign cs
  let whole := signed.2.takeWhile Char.isDigit
  let behind := signed.2.dropWhile Char.isDigit
  let fraction := match behind with
    | '.' :: rest => rest.takeWhile Char.isDigit
    | _ => []
  let tail := match behind with
    | '.' :: rest => rest.dropWhile Char.isDigit
    | _ => behind
  if whole ++ fraction = [] then none
  else (exponent? tail).map fun e => ⟨signed.1, ofDigits (whole ++ fraction), e - fraction.length⟩

/-- The floating point number nearest to the decimal that a text spells, unless it is too
large. -/
def float? (cs : List Char) : Option Binary64 :=
  (decimal? cs).bind fun d => Binary64.ofDecimal? d.negative d.digits d.power

end Number
end SchemaScript
