import SchemaScript.Text.AsciiCase
import SchemaScript.Text.Doubling
import SchemaScript.Text.FullUpper

/-!
# Tokens of a script

A statement is read as a list of tokens. Every token has a text form, `Token.print`,
which is what a reader sees when a run of tokens is put together again: the items of a
table body and the expressions behind `DEFAULT` are cut out as runs of tokens and pass on
as text.

The text form is close to what was read but not the same. A string literal holds its
value with the escapes already undone, and only plain and national strings double their
quotes again; a quoted name is written between its quotes as it stands; the operator `!=`
is written `<>`.
-/

namespace SchemaScript

/-- The quotes a name can stand in. Square brackets are tokens of their own. -/
inductive NameQuote where
  | double
  | backtick
  deriving DecidableEq, Repr

/-- The quotes a string literal with a letter in front can stand in. -/
inductive StringQuote where
  | single
  | double
  deriving DecidableEq, Repr

/-- The kinds of string literals. -/
inductive LiteralForm where
  /-- Plain quotes. -/
  | plain
  /-- The letter `N` in front: doubled quotes and backslash escapes. -/
  | national
  /-- The letter `E` in front: backslash escapes with code points. -/
  | escaped
  /-- The letter `U` and an ampersand in front: code points after a backslash. -/
  | codePoints
  /-- The letter `X` in front, or hexadecimal digits after `0x`. -/
  | hex
  /-- The letter `B` in front. -/
  | bytes (quote : StringQuote)
  /-- The letter `R` in front; three quotes on either side if `triple`. -/
  | raw (triple : Bool) (quote : StringQuote)
  /-- Between two equal tags in dollar signs. -/
  | dollar (tag : String)
  deriving DecidableEq, Repr

/-- Tokens that only separate others. -/
inductive Blank where
  | space
  | tab
  | newline
  /-- The text after two hyphens, with the newline that ends it. -/
  | lineComment (text : String)
  /-- The text between the outermost comment brackets. -/
  | blockComment (text : String)
  deriving DecidableEq, Repr

/-- Punctuation that the grammar of statements gives a meaning to. -/
inductive Mark where
  | openParen
  | closeParen
  | comma
  | period
  /-- Two colons in front of a type: a cast. -/
  | cast
  | openBracket
  | closeBracket
  | plus
  | minus
  | semicolon
  deriving DecidableEq, Repr

/-- A token of a script. -/
inductive Token where
  | blank (kind : Blank)
  /-- A name or keyword without quotes. -/
  | word (text : String)
  | quotedWord (quote : NameQuote) (text : String)
  | number (text : String)
  | literal (form : LiteralForm) (value : String)
  | mark (kind : Mark)
  /-- Any other operator, placeholder or character. -/
  | sign (text : String)
  deriving DecidableEq, Repr

namespace NameQuote

/-- The character that opens and closes the name. -/
def char : NameQuote → Char
  | double => '"'
  | backtick => '\x60'

end NameQuote

namespace StringQuote

/-- The character that opens and closes the literal. -/
def char : StringQuote → Char
  | single => '\''
  | double => '"'

end StringQuote

namespace Blank

/-- The text form of a blank. -/
def print : Blank → List Char
  | space => [' ']
  | tab => ['\t']
  | newline => ['\n']
  | lineComment text => '-' :: '-' :: text.toList
  | blockComment text => '/' :: '*' :: text.toList ++ ['*', '/']

end Blank

namespace Mark

/-- The text form of a punctuation mark. -/
def print : Mark → List Char
  | openParen => ['(']
  | closeParen => [')']
  | comma => [',']
  | period => ['.']
  | cast => [':', ':']
  | openBracket => ['[']
  | closeBracket => [']']
  | plus => ['+']
  | minus => ['-']
  | semicolon => [';']

end Mark

namespace LiteralForm

/-- What stands in front of the value. -/
def opening : LiteralForm → List Char
  | plain => ['\'']
  | national => ['N', '\'']
  | escaped => ['E', '\'']
  | codePoints => ['U', '&', '\'']
  | hex => ['X', '\'']
  | bytes q => ['B', q.char]
  | raw false q => ['R', q.char]
  | raw true q => ['R', q.char, q.char, q.char]
  | dollar tag => '$' :: tag.toList ++ ['$']

/-- What stands behind the value. -/
def closing : LiteralForm → List Char
  | bytes q => [q.char]
  | raw false q => [q.char]
  | raw true q => [q.char, q.char, q.char]
  | dollar tag => '$' :: tag.toList ++ ['$']
  | plain | national | escaped | codePoints | hex => ['\'']

/-- The value as it stands between opening and closing. Quotes are doubled in plain and
national strings only. -/
def body (form : LiteralForm) (value : String) : List Char :=
  match form with
  | plain | national => Text.double '\'' value.toList
  | _ => value.toList

end LiteralForm

namespace Token

/-- The text form of a token. -/
def print : Token → List Char
  | blank kind => kind.print
  | word text => text.toList
  | quotedWord quote text => quote.char :: text.toList ++ [quote.char]
  | number text => text.toList
  | literal form value => form.opening ++ form.body value ++ form.closing
  | mark kind => kind.print
  | sign text => text.toList

/-- The text form of a run of tokens. -/
def printAll (ts : List Token) : List Char :=
  ts.flatMap print

/-- Whether the token only separates others. -/
def isBlank : Token → Bool
  | blank _ => true
  | _ => false

/-- Whether the token is the bare word `keyword`, compared in full upper case. -/
def isKeyword (keyword : String) : Token → Bool
  | word text => Text.fullUpper text == keyword
  | _ => false

/-- Whether the token is the bare word `w`, the case of ASCII letters aside. -/
def isWord (w : String) : Token → Bool
  | word text => Text.sameIgnoringCase text w
  | _ => false

/-- Whether the token is the punctuation mark `kind`. -/
def isMark (kind : Mark) : Token → Bool
  | mark k => k == kind
  | _ => false

/-- The text of a word, quoted or not. -/
def wordText? : Token → Option String
  | word text | quotedWord _ text => some text
  | _ => none

/-- The text of a word without quotes. -/
def bareWord? : Token → Option String
  | word text => some text
  | _ => none

/-- The value of a string literal of one of the three kinds that stand for text. -/
def stringValue? : Token → Option String
  | literal .plain value | literal .national value | literal .escaped value => some value
  | _ => none

/-- The text of a number. -/
def numberText? : Token → Option String
  | number text => some text
  | _ => none

@[simp] theorem printAll_nil : printAll [] = [] := rfl

@[simp] theorem printAll_cons (t : Token) (ts : List Token) :
    printAll (t :: ts) = t.print ++ printAll ts := rfl

@[simp] theorem printAll_append (a b : List Token) :
    printAll (a ++ b) = printAll a ++ printAll b := by
  simp [printAll]

end Token
end SchemaScript
