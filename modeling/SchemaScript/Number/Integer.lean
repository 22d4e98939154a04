/-!
# Integers as text

Reading of whole numbers: an optional sign, at least one ASCII digit, nothing else. A
reader for a range refuses numbers outside it.
-/

namespace SchemaScript
namespace Number

/-- The number that a run of ASCII digits spells. -/
def ofDigits (digits : List Char) : Nat :=
  digits.foldl (fun n c => 10 * n + (c.toNat - '0'.toNat)) 0

/-- A number without a sign. -/
def natural? (cs : List Char) : Option Nat :=
  if cs ≠ [] ∧ cs.all Char.isDigit then some (ofDigits cs) else none

/-- A number with an optional sign. -/
def integer? (cs : List Char) : Option Int :=
  match cs with
  | '+' :: ds => (natural? ds).map Int.ofNat
  | '-' :: ds => (natural? ds).map fun n => -Int.ofNat n
  | ds => (natural? ds).map Int.ofNat

/-- A number as a word of 32 bits, unless it is too large. -/
def toWord32? (n : Nat) : Option UInt32 :=
  if n < UInt32.size then some n.toUInt32 else none

/-- A number of 32 bits without a sign; a plus sign may stand in front. -/
def word32? (cs : List Char) : Option UInt32 :=
  let digits := match cs with
    | '+' :: ds => ds
    | ds => ds
  (natural? digits).bind toWord32?

/-- A number of 64 bits with an optional sign. -/
def signed64? (cs : List Char) : Option Int :=
  (integer? cs).filter fun n => -0x8000000000000000 ≤ n && n < 0x8000000000000000

/-- The longest beginning of a text that is a sign and digits, or either alone. -/
def signedDigits (cs : List Char) : List Char :=
  match cs with
  | [] => []
  | c :: ds =>
    if c.isDigit ∨ c = '-' ∨ c = '+' then c :: ds.takeWhile Char.isDigit else []

/-- The decimal digits of a number. -/
def digits (n : Nat) : List Char :=
  Nat.toDigits 10 n

end Number
end SchemaScript
