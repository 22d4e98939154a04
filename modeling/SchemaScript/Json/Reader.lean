import SchemaScript.Json.Basic
import SchemaScript.Number.Integer
import SchemaScript.Text.Delimited
import SchemaScript.Token.Literal

/-!
# Reading structured data

The reader takes one value from a text with nothing but blanks around it. It is strict:
no control characters in strings, no leading zeros, no trailing commas.

## Numbers

A whole number that fits 64 bits, with or without a sign, stays whole. Any other number,
and minus zero, is a floating point number computed from its first digits: those that fit
64 bits, rounded, then multiplied or divided by a rounded power of ten. Each of the two
steps rounds, so the result may differ from the nearest number in its last digit.

## Depth

At most `maxDepth` brackets may be open at once. What stands in a bracket beyond is
unrepresentable.
-/

namespace SchemaScript
namespace Json

/-- The number of brackets that may be open at once. -/
def maxDepth : Nat := 127

/-- The blanks of the data format. -/
def isSpace (c : Char) : Bool :=
  c == ' ' || c == '\n' || c == '\t' || c == '\r'

/-- Drops the blanks a text begins with. -/
def skipSpace (cs : List Char) : List Char :=
  cs.dropWhile isSpace

/-! ## Strings -/

/-- A piece of a string: a character, or a code unit given by four hexadecimal digits. -/
inductive StringUnit where
  | char (c : Char)
  | code (n : Nat)

/-- The character that a backslash and a letter stand for. -/
def simpleEscape? (c : Char) : Option Char :=
  [('"', '"'), ('\\', '\\'), ('/', '/'), ('b', Char.ofNat 8), ('f', Char.ofNat 12),
    ('n', '\n'), ('r', '\r'), ('t', '\t')].lookup c

/-- The pieces of a string up to its closing quote. -/
def stringUnits? : List Char → Option (List StringUnit × List Char)
  | [] => none
  | '"' :: cs => some ([], cs)
  | '\\' :: 'u' :: a :: b :: c :: d :: cs =>
    match Token.hexValue? [a, b, c, d], stringUnits? cs with
    | some n, some r => some (.code n :: r.1, r.2)
    | _, _ => none
  | '\\' :: c :: cs =>
    match simpleEscape? c, stringUnits? cs with
    | some e, some r => some (.char e :: r.1, r.2)
    | _, _ => none
  | c :: cs =>
    if c.toNat < 0x20 ∨ c = '\\' then none
    else (stringUnits? cs).map fun r => (.char c :: r.1, r.2)

/-- Whether the code unit is the first half of a surrogate pair. -/
def isHighSurrogate (n : Nat) : Bool :=
  0xD800 ≤ n && n ≤ 0xDBFF

/-- Whether the code unit is the second half of a surrogate pair. -/
def isLowSurrogate (n : Nat) : Bool :=
  0xDC00 ≤ n && n ≤ 0xDFFF

/-- The characters that pieces of a string stand for. Half of a surrogate pair stands for
none. -/
def decodeUnits? : List StringUnit → Option (List Char)
  | [] => some []
  | .char c :: us => (decodeUnits? us).map (c :: ·)
  | .code n :: us =>
    if isHighSurrogate n then
      match us with
      | .code m :: rest =>
        if isLowSurrogate m then
          (decodeUnits? rest).map
            (Char.ofNat (0x10000 + (n - 0xD800) * 0x400 + (m - 0xDC00)) :: ·)
        else none
      | _ => none
    else if isLowSurrogate n then none
    else (decodeUnits? us).map (Char.ofNat n :: ·)

/-! ## Numbers -/

/-- The largest whole number kept. -/
def maxNatural : Nat := UInt64.size - 1

/-- Appends digits to a number as long as it fits 64 bits. Answers the number and the
digits left. -/
def takeSignificant (n : Nat) : List Char → Nat × List Char
  | [] => (n, [])
  | c :: cs =>
    let m := 10 * n + (c.toNat - '0'.toNat)
    if m ≤ maxNatural then takeSignificant m cs else (n, c :: cs)

/-- A number times a power of ten, at most `10 ^ 308` in each step. -/
def scaleFloat (x : Binary64) (power : Int) : Option Binary64 :=
  if power.natAbs ≤ 308 then
    (Binary64.ofDecimal? false 1 power.natAbs).bind fun p =>
      if 0 ≤ power then x.mul? p else x.div? p
  else if x.isZero then some x
  else if 0 ≤ power then none
  else
    ((Binary64.ofDecimal? false 1 308).bind x.div?).bind fun y => scaleFloat y (power + 308)
termination_by power.natAbs
decreasing_by omega

/-- The floating point number with the given significant digits and power of ten. -/
def floatOf (negative : Bool) (significant : Nat) (power : Int) : Option JsonNumber :=
  (Binary64.ofRatio? false significant 1).bind fun x =>
    (scaleFloat x power).map fun y => .float (if negative then y.neg else y)

/-- The number of a sign, whole digits, the digits of a fraction and an exponent. The
fraction is `none` where no period stands. -/
def numberOf? (negative : Bool) (whole : List Char) (fraction : Option (List Char))
    (exponent : Option Int) : Option JsonNumber :=
  let head := takeSignificant 0 whole
  match fraction, exponent with
  | none, none =>
    if head.2 ≠ [] then floatOf negative head.1 head.2.length
    else if !negative then some (.integer head.1)
    else if head.1 = 0 ∨ 0x8000000000000000 < head.1 then floatOf true head.1 0
    else some (.integer (-head.1))
  | _, _ =>
    let digits := fraction.getD []
    let all := takeSignificant head.1 digits
    let used := digits.length - all.2.length
    floatOf negative all.1 ((head.2.length : Int) - used + exponent.getD 0)

/-- The whole part of a number: one zero, or digits that do not begin with it. -/
def wholePart? (cs : List Char) : Option (List Char × List Char) :=
  match cs with
  | '0' :: rest => if rest.head?.any Char.isDigit then none else some (['0'], rest)
  | _ =>
    let digits := cs.takeWhile Char.isDigit
    if digits.isEmpty then none else some (digits, cs.dropWhile Char.isDigit)

/-- The fraction of a number, if a period follows. -/
def fractionPart? (cs : List Char) : Option (Option (List Char) × List Char) :=
  match cs with
  | '.' :: rest =>
    let digits := rest.takeWhile Char.isDigit
    if digits.isEmpty then none else some (some digits, rest.dropWhile Char.isDigit)
  | _ => some (none, cs)

/-- The exponent of a number, if its letter follows. -/
def exponentPart? (cs : List Char) : Option (Option Int × List Char) :=
  match cs with
  | c :: rest =>
    if c = 'e' ∨ c = 'E' then
      let signed := match rest with
        | '-' :: r => (true, r)
        | '+' :: r => (false, r)
        | r => (false, r)
      let digits := signed.2.takeWhile Char.isDigit
      let value : Int := Number.ofDigits digits
      if digits.isEmpty then none
      else some (some (if signed.1 then -value else value), signed.2.dropWhile Char.isDigit)
    else some (none, cs)
  | [] => some (none, [])

/-- A number behind its sign. -/
def number? (negative : Bool) (cs : List Char) : Option (Json × List Char) :=
  (wholePart? cs).bind fun whole =>
    (fractionPart? whole.2).bind fun fraction =>
      (exponentPart? fraction.2).map fun exponent =>
        (((numberOf? negative whole.1 fraction.1 exponent.1).map Json.number).getD
          .unrepresentable, exponent.2)

/-! ## Values -/

/-- A string behind its opening quote. -/
def stringValue? (cs : List Char) : Option (Option String × List Char) :=
  (stringUnits? cs).map fun r => ((decodeUnits? r.1).map String.ofList, r.2)

/-- A value in brackets, `depth` brackets being open around it, or an unrepresentable one if
those are too many. -/
def nested (depth : Nat) (j : Json) : Json :=
  if depth < maxDepth then j else .unrepresentable

mutual
/-- The value a text begins with, `depth` brackets being open. The first argument bounds
the number of steps. -/
def value? (fuel depth : Nat) (cs : List Char) : Option (Json × List Char) :=
  match fuel with
  | 0 => none
  | fuel + 1 =>
    match skipSpace cs with
    | 'n' :: 'u' :: 'l' :: 'l' :: rest => some (.null, rest)
    | 't' :: 'r' :: 'u' :: 'e' :: rest => some (.bool true, rest)
    | 'f' :: 'a' :: 'l' :: 's' :: 'e' :: rest => some (.bool false, rest)
    | '"' :: rest =>
      (stringValue? rest).map fun r => ((r.1.map Json.string).getD .unrepresentable, r.2)
    | '-' :: rest => number? true rest
    | '[' :: rest =>
      match skipSpace rest with
      | ']' :: behind => some (nested depth (.array []), behind)
      | inside =>
        (items? fuel (depth + 1) inside).map fun r => (nested depth (.array r.1), r.2)
    | '{' :: rest =>
      match skipSpace rest with
      | '}' :: behind => some (nested depth (.object []), behind)
      | inside =>
        (fields? fuel (depth + 1) inside).map fun r =>
          (nested depth ((r.1.map Json.object).getD .unrepresentable), r.2)
    | rest => number? false rest

/-- The items of an array up to its closing bracket. -/
def items? (fuel depth : Nat) (cs : List Char) : Option (List Json × List Char) :=
  match fuel with
  | 0 => none
  | fuel + 1 =>
    match value? fuel depth cs with
    | none => none
    | some (j, rest) =>
      match skipSpace rest with
      | ',' :: more => (items? fuel depth more).map fun r => (j :: r.1, r.2)
      | ']' :: behind => some ([j], behind)
      | _ => none

/-- The fields of an object up to its closing bracket; no fields at all if one of the names
denotes no text. -/
def fields? (fuel depth : Nat) (cs : List Char) :
    Option (Option (List (String × Json)) × List Char) :=
  match fuel with
  | 0 => none
  | fuel + 1 =>
    match skipSpace cs with
    | '"' :: inside =>
      match stringValue? inside with
      | none => none
      | some (name, rest) =>
        match skipSpace rest with
        | ':' :: behind =>
          match value? fuel depth behind with
          | none => none
          | some (j, rest) =>
            match skipSpace rest with
            | ',' :: more =>
              (fields? fuel depth more).map fun r =>
                (name.bind fun n => r.1.map fun fs => (n, j) :: fs, r.2)
            | '}' :: behind => some (name.map fun n => [(n, j)], behind)
            | _ => none
        | _ => none
    | _ => none
end

/-- The value that a text denotes. -/
def ofText? (text : String) : Option Json :=
  match value? (2 * text.toList.length + 2) 0 text.toList with
  | some (j, rest) => if (skipSpace rest).isEmpty then some j else none
  | none => none

end Json
end SchemaScript
