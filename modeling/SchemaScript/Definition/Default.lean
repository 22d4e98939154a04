import SchemaScript.Schema.Basic
import SchemaScript.Token.Reader

/-!
# Default clauses

The value behind the word `DEFAULT` is kept as text: a string keeps its quotes, a bare word
and a call without arguments are written in upper case, other calls and expressions in
parentheses as they stand, and the casts behind the value are kept. Parentheses around the
whole of an expression are taken off.

What the text means for the column is decided afterwards (`DefaultClause.ofText`): null, cast
or not, is no literal, and the next value of a sequence makes the column count up.
-/

namespace SchemaScript

/-- What a default clause says about its column. -/
inductive DefaultClause where
  | declared (value : DefaultValue)
  /-- The next value of a sequence. -/
  | sequence
  /-- Nothing. -/
  | blank
  deriving DecidableEq, Repr

namespace DefaultClause

open Reader

/-! ## Parentheses around an expression -/

/-- Whether the parenthesis that closes the last of `depth` open ones is the last character.
Parentheses in strings do not count. -/
def closesAtEnd (depth : Nat) (inString : Bool) : List Char → Bool
  | [] => false
  | c :: cs =>
    if c = '\'' then closesAtEnd depth (!inString) cs
    else if c = '(' ∧ inString = false then closesAtEnd (depth + 1) inString cs
    else if c = ')' ∧ inString = false then
      if depth ≤ 1 then cs.isEmpty else closesAtEnd (depth - 1) inString cs
    else closesAtEnd depth inString cs

/-- Takes off the parentheses that enclose the whole text, and the blanks around it. -/
def stripParens (cs : List Char) : List Char :=
  match _h : Text.trim cs with
  | [] => []
  | c :: rest =>
    if c = '(' ∧ rest.getLast? = some ')' ∧ closesAtEnd 1 false rest then
      stripParens rest.dropLast
    else c :: rest
termination_by cs.length
decreasing_by
  have h := Text.length_trim_le cs
  rw [_h] at h
  simp only [List.length_cons, List.length_dropLast] at h ⊢
  omega

/-! ## The value -/

/-- The arguments of a call without the parentheses around them. -/
def bareArguments (cs : List Char) : List Char :=
  Text.trim (((cs.dropWhile (· == '(')).reverse.dropWhile (· == ')')).reverse)

/-- The tokens in parentheses behind a word, blanks between them aside. -/
def callArguments : Reader (List Token) := do
  skipBlanks
  let .true ← seesMark .openParen | fail
  parenthesized

/-- A default that begins with a bare word, read behind it: the word itself, or a call. -/
def wordValue (w : String) : Reader String := do
  match ← attempt callArguments with
  | none => return Text.upper w
  | some group =>
    let arguments := Token.printAll group
    if (bareArguments arguments).isEmpty then
      return Text.upper w ++ "()"
    else
      return w ++ String.ofList arguments

/-- A default that begins with the given token. A sign without a number, and a token that no
default begins with, are taken and give no default. -/
def valueOf (t : Token) : Reader String :=
  match t with
  | .mark .openParen => do
    return String.ofList (stripParens (Token.printAll (← parenthesized)))
  | .mark .minus => do
    advancePastBlanks
    return "-" ++ (← number)
  | .mark .plus => do
    advancePastBlanks
    number
  | .number text => do
    advance
    return text
  | .literal .plain value | .literal .national value | .literal .escaped value => do
    advance
    return Text.enclose '\'' value
  | .word w => do
    advance
    wordValue w
  | _ => do
    advance
    fail

/-- The words that may follow the first word of a type in a cast. -/
def castWords : List String :=
  ["VARYING", "PRECISION", "WITH", "WITHOUT", "TIME", "ZONE"]

/-- A further word of the type in a cast. -/
def castWord : Reader String := do
  skipBlanks
  token fun t => if castWords.any t.isWord then t.bareWord? else none

/-- Appends a further word of the type in a cast. -/
def castWordRound (text : String) : Reader (String ⊕ String) := do
  match ← attempt castWord with
  | some w => return .inl (text ++ " " ++ w)
  | none => return .inr text

/-- Two colons, blanks in front of and behind them aside. -/
def castMark : Reader Unit := do
  skipBlanks
  mark .cast

/-- Appends a cast. -/
def castRound (text : String) : Reader (String ⊕ String) := do
  match ← attempt castMark with
  | none => return .inr text
  | some () =>
    match ← possibly name with
    | none => return .inr text
    | some type => return .inl (← loop castWordRound (text ++ "::" ++ type))

/-- The text of a default with its casts, read behind the word `DEFAULT`. -/
def text : Reader String := do
  let t ← ofOption (← peek)
  loop castRound (← valueOf t)

/-! ## Its meaning -/

/-- Whether a text is null with a cast behind it. -/
def isNullCast (cs : List Char) : Bool :=
  Text.startsWithIgnoringCase cs "NULL::".toList && 6 < cs.length

/-- What the text of a default says. -/
def ofText (text : String) : DefaultClause :=
  let cs := Text.trim text.toList
  if Text.foldCase cs == ['n', 'u', 'l', 'l'] || isNullCast cs then .declared .null
  else if Text.startsWithIgnoringCase cs "nextval(".toList then .sequence
  else if cs.isEmpty then .blank
  else .declared (.literal (String.ofList cs))

/-- A default clause, read behind the word `DEFAULT`. -/
def reader : Reader DefaultClause := do
  match ← possibly text with
  | some t => return ofText t
  | none => return .blank

end DefaultClause
end SchemaScript
