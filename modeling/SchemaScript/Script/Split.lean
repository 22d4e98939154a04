import SchemaScript.Token.Scan

/-!
# Cutting a script into statements

A script is cut at its delimiter, a semicolon unless a directive line changes it, wherever it
stands outside quotes and comments. The scanner goes through the script character by
character and knows what it is in the middle of (`Mode`); a quote written twice closes and
opens again, and comments in brackets do not nest.

A directive is a line that begins with the word `DELIMITER` and a space or tab, and it counts
only while nothing but blanks and comments has been read since the last delimiter. The word
behind it is the new delimiter.

What stands between two delimiters is a statement if it has content: any token but blanks
and comments. A text that cannot be tokenized has content unless it is blank. The line of a
statement is the one on which its first character stands that is not blank.
-/

namespace SchemaScript

/-- A statement of a script. -/
structure Statement where
  /-- The text without the delimiter and without blanks around it. -/
  text : String
  /-- The line on which the text begins, counted from one. -/
  line : Nat
  deriving DecidableEq, Repr

namespace Script

/-- Whether a text holds anything besides blanks and comments. -/
def hasContent (cs : List Char) : Bool :=
  match Token.tokenize cs with
  | none => !Text.allBlank cs
  | some ts => ts.any fun t => !t.isBlank

/-- The number of newlines in a text. -/
def countNewlines (cs : List Char) : Nat :=
  cs.count '\n'

/-- What a scanner is in the middle of. -/
inductive Mode where
  | normal
  | singleQuoted
  | doubleQuoted
  | backticked
  | lineComment
  | blockComment
  deriving DecidableEq, Repr

/-- A text that ends statements. It is not empty. -/
structure Delimiter where
  first : Char
  more : List Char
  deriving DecidableEq, Repr

namespace Delimiter

/-- The characters of a delimiter. -/
def chars (d : Delimiter) : List Char :=
  d.first :: d.more

/-- The delimiter in force where no directive has been met. -/
def semicolon : Delimiter :=
  ⟨';', []⟩

end Delimiter

/-- A scanner on its way through a script. -/
structure Scanner where
  delimiter : Delimiter := .semicolon
  mode : Mode := .normal
  /-- Whether only blanks have been read on this line. -/
  atLineStart : Bool := true
  /-- What has been read since the last delimiter, the last character first. -/
  pending : List Char := []
  /-- The line on which the pending text begins. -/
  firstLine : Nat := 1
  /-- The line of the next character. -/
  line : Nat := 1
  deriving DecidableEq, Repr

namespace Scanner

/-- What has been read since the last delimiter. -/
def text (s : Scanner) : List Char :=
  s.pending.reverse

/-- The statement that the pending text makes up, if it has content. -/
def statement? (s : Scanner) : Option Statement :=
  if hasContent s.text then
    some
      { text := String.ofList (Text.trim s.text)
        line := s.firstLine + countNewlines (s.text.takeWhile Text.isBlank) }
  else none

/-- The scanner behind a delimiter or directive. -/
def restart (s : Scanner) : Scanner :=
  { s with pending := [], firstLine := s.line }

/-- The scanner behind a character, its mode aside. -/
def push (s : Scanner) (c : Char) : Scanner :=
  { s with
    pending := c :: s.pending
    line := if c = '\n' then s.line + 1 else s.line
    atLineStart := c == '\n' || (Text.isBlank c && s.atLineStart) }

/-- The scanner behind a comment bracket, which makes up no line and, if it opens, ends the
beginning of one. -/
def pushBracket (s : Scanner) (c d : Char) (mode : Mode) : Scanner :=
  { s with
    pending := d :: c :: s.pending
    mode
    atLineStart := s.atLineStart && mode != .blockComment }

/-- The mode behind a character read in normal mode. -/
def openedBy (c : Char) (cs : List Char) : Mode :=
  if c = '-' ∧ cs.head? = some '-' then .lineComment
  else if c = '\'' then .singleQuoted
  else if c = '"' then .doubleQuoted
  else if c = '\x60' then .backticked
  else .normal

/-- The character that ends a mode. Comments in brackets end at two. -/
def closer? : Mode → Option Char
  | .singleQuoted => some '\''
  | .doubleQuoted => some '"'
  | .backticked => some '\x60'
  | .lineComment => some '\n'
  | .normal | .blockComment => none

/-- Whether a text begins with the word of a directive. -/
def isDirective (cs : List Char) : Bool :=
  let line := cs.dropWhile fun c => c == ' ' || c == '\t'
  Text.startsWithIgnoringCase line "DELIMITER ".toList ||
    Text.startsWithIgnoringCase line "DELIMITER\t".toList

/-- Whether a directive counts here. -/
def expectsDirective (s : Scanner) : Bool :=
  s.mode == .normal && s.atLineStart && !hasContent s.text

/-- The delimiter that a directive line asks for. -/
def newDelimiter? (line : List Char) : Option Delimiter :=
  match Text.words line with
  | _ :: (c :: cs) :: _ => some ⟨c, cs⟩
  | _ => none

/-- The scanner behind a directive line. A line without a delimiter is passed over. -/
def direct (s : Scanner) (line : List Char) : Scanner :=
  match newDelimiter? line with
  | some d => { s.restart with delimiter := d }
  | none => s

/-- What one step does: a statement it ends, the scanner behind it, and the text left. -/
structure Step where
  emitted : Option Statement
  scanner : Scanner
  rest : List Char

/-- A step in normal mode. -/
def stepNormal (s : Scanner) (c : Char) (cs : List Char) : Step :=
  match Text.stripStart? s.delimiter.chars (c :: cs) with
  | some rest => ⟨s.statement?, { s.restart with atLineStart := false }, rest⟩
  | none =>
    if c = '/' ∧ cs.head? = some '*' then ⟨none, s.pushBracket c '*' .blockComment, cs.tail⟩
    else ⟨none, { s.push c with mode := openedBy c cs }, cs⟩

/-- A step inside a quote or comment. -/
def stepInside (s : Scanner) (c : Char) (cs : List Char) : Step :=
  if s.mode = .blockComment ∧ c = '*' ∧ cs.head? = some '/' then
    ⟨none, s.pushBracket c '/' .normal, cs.tail⟩
  else if closer? s.mode = some c then ⟨none, { s.push c with mode := .normal }, cs⟩
  else ⟨none, s.push c, cs⟩

/-- One step: a directive line, a delimiter, a comment bracket, or a single character. -/
def step (s : Scanner) (c : Char) (cs : List Char) : Step :=
  if isDirective (c :: cs) && s.expectsDirective then
    ⟨none, s.direct (c :: cs.takeWhile (· != '\n')), cs.dropWhile (· != '\n')⟩
  else if s.mode = .normal then s.stepNormal c cs
  else s.stepInside c cs

theorem stepNormal_rest_suffix (s : Scanner) (c : Char) (cs : List Char) :
    (s.stepNormal c cs).rest <:+ cs := by
  unfold stepNormal
  split
  · rename_i rest h
    have := Text.stripStart?_eq_some_iff.1 h
    exact ⟨s.delimiter.more, (List.cons.inj this).2.symm⟩
  · split
    · exact List.tail_suffix cs
    · exact List.suffix_refl _

theorem stepInside_rest_suffix (s : Scanner) (c : Char) (cs : List Char) :
    (s.stepInside c cs).rest <:+ cs := by
  unfold stepInside
  split
  · exact List.tail_suffix cs
  · split
    · exact List.suffix_refl _
    · exact List.suffix_refl _

/-- A step takes at least one character. -/
theorem step_rest_suffix (s : Scanner) (c : Char) (cs : List Char) :
    (s.step c cs).rest <:+ cs := by
  unfold step
  split
  · exact List.dropWhile_suffix _
  · split
    · exact stepNormal_rest_suffix s c cs
    · exact stepInside_rest_suffix s c cs

/-- The statements that a scanner finds in a text. -/
def statements (s : Scanner) (cs : List Char) : List Statement :=
  match cs with
  | [] => s.statement?.toList
  | c :: cs =>
    (s.step c cs).emitted.toList ++ statements (s.step c cs).scanner (s.step c cs).rest
termination_by cs.length
decreasing_by exact Nat.lt_succ_of_le (step_rest_suffix s c cs).length_le

end Scanner

/-- The statements of a script, in order. -/
def statements (script : String) : List Statement :=
  ({} : Scanner).statements script.toList

end Script
end SchemaScript
