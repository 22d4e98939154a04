import SchemaScript.Number.Decimal
import SchemaScript.Number.Shortest
import SchemaScript.Text.AsciiCase
import SchemaScript.Text.Blank
import SchemaScript.Text.Delimited

/-!
# Literals

What the text of a default or cell is worth when it has to become a literal of some type:
its casts are dropped, its quotes taken off, and what is left is read as a truth value, a
whole number or a number with a fraction. A text that is no number counts as zero.
-/

namespace SchemaScript
namespace Literal

/-! ## Casts -/

/-- Whether the name of a type in a cast may begin with the character. Case is folded over
all alphabets, hence the long s and the Kelvin sign. -/
def isCastStart (c : Char) : Bool :=
  c.isAlpha || c == '_' || c == 'ſ' || c == Char.ofNat 0x212A

/-- Whether the name of a type in a cast may go on with the character. -/
def isCastPart (c : Char) : Bool :=
  isCastStart c || c.isDigit || c == ' '

/-- Drops sizes in parentheses, if a text begins with them. -/
def dropSizes (cs : List Char) : List Char :=
  match cs with
  | '(' :: inside =>
    match inside.dropWhile fun c => c.isDigit || c == ',' || c == ' ' with
    | ')' :: behind => behind
    | _ => cs
  | _ => cs

/-- Drops the brackets of an array type, if a text begins with them. -/
def dropBrackets (cs : List Char) : List Char :=
  (Text.stripStart? ['[', ']'] cs).getD cs

/-- What follows a cast in a text that begins with it. -/
def behindCast? (cs : List Char) : Option (List Char) :=
  match cs with
  | ':' :: ':' :: c :: rest =>
    if isCastStart c then some (dropBrackets (dropSizes (rest.dropWhile isCastPart))) else none
  | _ => none

theorem dropSizes_suffix (cs : List Char) : dropSizes cs <:+ cs := by
  unfold dropSizes
  split
  · rename_i inside
    split
    · rename_i behind h
      have hs := List.dropWhile_suffix (l := inside) fun c => c.isDigit || c == ',' || c == ' '
      rw [h] at hs
      exact ((List.suffix_cons _ _).trans hs).trans (List.suffix_cons _ _)
    · exact List.suffix_refl _
  · exact List.suffix_refl _

theorem dropBrackets_suffix (cs : List Char) : dropBrackets cs <:+ cs := by
  unfold dropBrackets
  cases h : Text.stripStart? ['[', ']'] cs with
  | none => exact List.suffix_refl _
  | some rest => exact Text.stripStart?_suffix h

theorem length_behindCast?_lt {cs rest : List Char} (h : behindCast? cs = some rest) :
    rest.length < cs.length := by
  unfold behindCast? at h
  split at h
  · rename_i c inside
    split at h
    · cases h
      have hs := ((dropBrackets_suffix _).trans (dropSizes_suffix _)).trans
        (List.dropWhile_suffix (l := inside) isCastPart)
      have := hs.length_le
      simp only [List.length_cons]
      omega
    · cases h
  · cases h

/-- Removes all casts. -/
def removeCasts (cs : List Char) : List Char :=
  match cs with
  | [] => []
  | c :: cs =>
    match _h : behindCast? (c :: cs) with
    | some rest => removeCasts rest
    | none => c :: removeCasts cs
termination_by cs.length
decreasing_by
  · exact length_behindCast?_lt _h
  · simp

/-- A text without casts and without blanks around it. -/
def stripCasts (s : String) : String :=
  String.ofList (Text.trim (removeCasts s.toList))

/-! ## Quotes -/

/-- The text between single quotes, doubled quotes inside made one. -/
def unquote? (s : String) : Option String :=
  match s.toList with
  | '\'' :: rest =>
    if rest.getLast? = some '\'' then
      some (String.ofList (Text.undouble '\'' rest.dropLast))
    else none
  | _ => none

/-! ## Values -/

/-- The words for the truth value true. -/
def trueWords : List String :=
  ["true", "1", "yes", "on"]

/-- The truth value of a text. -/
def isTruthy (s : String) : Bool :=
  trueWords.any (Text.sameIgnoringCase · (Text.trimmed s))

/-- The whole number of a text: the number it spells, or the one it begins with, or zero.
Numbers beyond 64 bits count as zero. -/
def integerOf (s : String) : Int :=
  let cs := Text.trim s.toList
  match Number.signed64? cs with
  | some n => n
  | none => (Number.signed64? (Number.signedDigits cs)).getD 0

/-- The number that a text spells, written without an exponent, or zero. -/
def floatText (s : String) : String :=
  match Number.float? (Text.trim s.toList) with
  | some x => String.ofList (Number.plainText x)
  | none => "0"

/-- Whether the character may stand in a number. -/
def isNumberChar (c : Char) : Bool :=
  c.isDigit || c == '-' || c == '+' || c == '.' || c == 'e' || c == 'E'

/-- Whether the text spells a number, blanks around it aside. -/
def isNumeric (s : String) : Bool :=
  let cs := Text.trim s.toList
  !cs.isEmpty && cs.all isNumberChar && (Number.float? cs).isSome

/-- Whether the text asks for the current time by a call that SQLite does not know. -/
def callsNow (s : String) : Bool :=
  Text.containsIgnoringCase s "now("

/-- Whether the text is the word for null. -/
def isNullWord (s : String) : Bool :=
  Text.sameIgnoringCase s "null"

end Literal
end SchemaScript
