import SchemaScript.Text.AsciiCase
import SchemaScript.Text.Delimited

/-!
# Tidying a script

Before a script is cut into statements it loses what only tools put into it. A byte order
mark at its beginning is dropped and line ends become single newlines. Then each line is
tidied by itself, so that the lines keep their numbers:

* the collation that PostgreSQL dumps attach to text columns is removed,
* a line that only says `GO` becomes a semicolon,
* a line that begins with a number sign becomes empty.
-/

namespace SchemaScript
namespace Script

/-- Whether the character is a space or a tab. -/
def isIndent (c : Char) : Bool :=
  c == ' ' || c == '\t'

/-- Drops a byte order mark. -/
def dropByteOrderMark : List Char → List Char
  | [] => []
  | c :: cs => if c.toNat = 0xFEFF then cs else c :: cs

/-- Makes each carriage return with a newline behind it one newline. -/
def singleNewlines : List Char → List Char
  | [] => []
  | [c] => [c]
  | c :: d :: cs =>
    if c = '\r' ∧ d = '\n' then '\n' :: singleNewlines cs else c :: singleNewlines (d :: cs)

/-- The lines of a text, without the newlines between them. -/
def lines : List Char → List (List Char)
  | [] => [[]]
  | c :: cs =>
    if c = '\n' then [] :: lines cs
    else
      match lines cs with
      | [] => [[c]]
      | l :: ls => (c :: l) :: ls

/-- The text with the given lines. -/
def unlines : List (List Char) → List Char
  | [] => []
  | [l] => l
  | l :: ls => l ++ '\n' :: unlines ls

/-- What follows a text in another one, the case of ASCII letters aside. -/
def stripIgnoringCase? (start cs : List Char) : Option (List Char) :=
  if Text.startsWithIgnoringCase cs start then some (cs.drop start.length) else none

/-- Drops at least one space or tab. -/
def dropIndent? (cs : List Char) : Option (List Char) :=
  if cs.head?.any isIndent then some (cs.dropWhile isIndent) else none

/-- What follows the default collation, with the indent in front of it, at the beginning of a
text. -/
def behindCollation? (cs : List Char) : Option (List Char) :=
  (dropIndent? cs).bind fun cs =>
    (stripIgnoringCase? "COLLATE".toList cs).bind fun cs =>
      (dropIndent? cs).bind fun cs => stripIgnoringCase? "pg_catalog.\"default\"".toList cs

theorem behindCollation?_length {cs rest : List Char} (h : behindCollation? cs = some rest) :
    rest.length < cs.length := by
  simp only [behindCollation?, Option.bind_eq_some_iff] at h
  obtain ⟨a, ha, b, hb, c, hc, hd⟩ := h
  have h1 : a.length ≤ cs.length := by
    simp only [dropIndent?] at ha
    split at ha
    · cases ha; exact (List.dropWhile_suffix _).length_le
    · cases ha
  have h2 : b.length ≤ a.length := by
    simp only [stripIgnoringCase?] at hb
    split at hb
    · cases hb; simp
    · cases hb
  have h3 : c.length < b.length := by
    simp only [dropIndent?] at hc
    cases b with
    | nil => simp at hc
    | cons x xs =>
      split at hc
      · rename_i hx
        cases hc
        have hx' : isIndent x = true := by simpa using hx
        simp only [List.dropWhile_cons, hx', if_true]
        exact Nat.lt_succ_of_le (List.dropWhile_suffix _).length_le
      · cases hc
  have h4 : rest.length ≤ c.length := by
    simp only [stripIgnoringCase?] at hd
    split at hd
    · cases hd; simp
    · cases hd
  omega

/-- Removes default collations from a line. -/
def removeCollation (cs : List Char) : List Char :=
  match cs with
  | [] => []
  | c :: cs =>
    match _h : behindCollation? (c :: cs) with
    | some rest => removeCollation rest
    | none => c :: removeCollation cs
termination_by cs.length
decreasing_by
  · exact behindCollation?_length _h
  · simp

/-- Whether the line only says `GO`, perhaps with a semicolon. -/
def isBatchEnd (line : List Char) : Bool :=
  match stripIgnoringCase? "GO".toList (line.dropWhile isIndent) with
  | none => false
  | some rest =>
    match rest.dropWhile isIndent with
    | ';' :: behind => behind.all isIndent
    | behind => behind.isEmpty

/-- Whether the line is a comment behind a number sign. -/
def isHashComment (line : List Char) : Bool :=
  (line.dropWhile isIndent).head? == some '#'

/-- A line without what tools put into it. -/
def tidyLine (line : List Char) : List Char :=
  let plain := removeCollation line
  if isBatchEnd plain then [';']
  else if isHashComment plain then []
  else plain

/-- A script without what tools put into it. -/
def tidyChars (cs : List Char) : List Char :=
  unlines ((lines (singleNewlines (dropByteOrderMark cs))).map tidyLine)

/-- A script without what tools put into it. -/
def tidy (script : String) : String :=
  String.ofList (tidyChars script.toList)

end Script
end SchemaScript
