import SchemaScript.Text.Alphabetic
import SchemaScript.Text.Blank
import SchemaScript.Token.Literal

/-!
# Cutting a text into tokens

`scan?` reads one token from the front of a text and `tokenize` all of them. A text has no
tokens at all when one of its strings, quoted names or block comments is not closed, or
when an escape in a string denotes no character.

Comments run from two hyphens to the end of the line, or between comment brackets, which
nest. A number sign opens no comment here: a script loses its `#` lines before it is read
(`Script.tidy`).

The main statement is that a scanned token leaves a shorter text (`length_lt_of_scan?`),
so that tokenizing ends.
-/

namespace SchemaScript
namespace Token

open Text (isAlphabetic isNumeric quoted? upTo? stripStart?)

/-! ## Words and literals -/

/-- Whether a bare word may begin with the character. -/
def isWordStart (c : Char) : Bool :=
  isAlphabetic c || c == '_'

/-- Whether a bare word may go on with the character. -/
def isWordPart (c : Char) : Bool :=
  isAlphabetic c || c.isDigit || c == '@' || c == '$' || c == '#' || c == '_'

/-- A bare word that begins with `start` and goes on as far as it can. -/
def scanWord (start cs : List Char) : Token × List Char :=
  (word (String.ofList (start ++ cs.takeWhile isWordPart)), cs.dropWhile isWordPart)

/-- A quoted name, read behind its opening quote. -/
def scanQuotedWord? (quote : NameQuote) (cs : List Char) : Option (Token × List Char) :=
  (quoted? quote.char cs).map fun r => (quotedWord quote (String.ofList r.1), r.2)

/-- The kind of string literal that the letter `c` and the quotes behind it open, and the
text behind those quotes. -/
def literalStart? (c : Char) (cs : List Char) : Option (LiteralForm × List Char) :=
  match c.toLower, cs with
  | 'b', '\'' :: rest => some (.bytes .single, rest)
  | 'b', '"' :: rest => some (.bytes .double, rest)
  | 'r', '\'' :: '\'' :: '\'' :: rest => some (.raw true .single, rest)
  | 'r', '"' :: '"' :: '"' :: rest => some (.raw true .double, rest)
  | 'r', '\'' :: rest => some (.raw false .single, rest)
  | 'r', '"' :: rest => some (.raw false .double, rest)
  | 'n', '\'' :: rest => some (.national, rest)
  | 'e', '\'' :: rest => some (.escaped, rest)
  | 'u', '&' :: '\'' :: rest => some (.codePoints, rest)
  | 'x', '\'' :: rest => some (.hex, rest)
  | _, _ => none

/-- The value of a literal, read behind what opens it, and the text behind what closes
it. -/
def literalValue? (form : LiteralForm) (cs : List Char) : Option (List Char × List Char) :=
  match form with
  | .plain => quoted? '\'' cs
  | .national | .hex => backslashed? cs
  | .escaped => escaped? cs
  | .codePoints => codePoints? cs
  | .bytes q => quoted? q.char cs
  | .raw false q => quoted? q.char cs
  | .raw true q => upTo? [q.char, q.char, q.char] cs
  | .dollar tag => upTo? ('$' :: tag.toList ++ ['$']) cs

/-- A string literal, read behind what opens it. -/
def scanLiteral? (form : LiteralForm) (cs : List Char) : Option (Token × List Char) :=
  (literalValue? form cs).map fun r => (literal form (String.ofList r.1), r.2)

/-! ## Comments -/

/-- A line comment, read behind its two hyphens, with the newline that ends it. -/
def scanLineComment (cs : List Char) : Token × List Char :=
  let line := cs.takeWhile (· != '\n')
  match cs.dropWhile (· != '\n') with
  | [] => (blank (.lineComment (String.ofList line)), [])
  | c :: rest => (blank (.lineComment (String.ofList (line ++ [c]))), rest)

/-- The text up to where a block comment and the `depth` comments around it are closed. -/
def blockComment? (depth : Nat) : List Char → Option (List Char × List Char)
  | [] => none
  | [_] => none
  | c :: d :: cs =>
    if c = '/' ∧ d = '*' then
      (blockComment? (depth + 1) cs).map fun r => (c :: d :: r.1, r.2)
    else if c = '*' ∧ d = '/' then
      match depth with
      | 0 => some ([], cs)
      | depth + 1 => (blockComment? depth cs).map fun r => (c :: d :: r.1, r.2)
    else (blockComment? depth (d :: cs)).map fun r => (c :: r.1, r.2)

/-- A block comment, read behind its opening bracket. -/
def scanBlockComment? (cs : List Char) : Option (Token × List Char) :=
  (blockComment? 0 cs).map fun r => (blank (.blockComment (String.ofList r.1)), r.2)

/-! ## Numbers and operators -/

/-- The sign an exponent may have. -/
def exponentSign : List Char → List Char
  | [] => []
  | c :: _ => if c = '+' ∨ c = '-' then [c] else []

/-- The exponent a text begins with, if digits follow its letter and sign. -/
def exponent : List Char → List Char × List Char
  | [] => ([], [])
  | e :: cs =>
    let sign := exponentSign cs
    let behind := cs.drop sign.length
    let digits := behind.takeWhile Char.isDigit
    if (e = 'e' ∨ e = 'E') ∧ digits ≠ [] then
      (e :: sign ++ digits, behind.dropWhile Char.isDigit)
    else ([], e :: cs)

/-- Drops a letter `L`, which may end a number and is not kept. -/
def dropLongMark : List Char → List Char
  | [] => []
  | c :: cs => if c = 'L' then cs else c :: cs

/-- The fraction of a number: a period with the digits behind it. -/
def fraction : List Char → List Char × List Char
  | [] => ([], [])
  | c :: cs =>
    if c = '.' then (c :: cs.takeWhile Char.isDigit, cs.dropWhile Char.isDigit) else ([], c :: cs)

/-- A number behind its whole part: fraction and exponent. A period without digits around
it is a punctuation mark. -/
def scanFraction (whole cs : List Char) : Token × List Char :=
  let part := fraction cs
  if whole ++ part.1 = ['.'] then (mark .period, part.2)
  else
    let power := exponent part.2
    (number (String.ofList (whole ++ part.1 ++ power.1)), dropLongMark power.2)

/-- A number, or the hexadecimal literal that `0x` opens. -/
def scanNumber (cs : List Char) : Token × List Char :=
  let whole := cs.takeWhile Char.isDigit
  let rest := cs.dropWhile Char.isDigit
  match whole, rest with
  | ['0'], 'x' :: hex =>
    (literal .hex (String.ofList (hex.takeWhile isHexDigit)), hex.dropWhile isHexDigit)
  | _, _ => scanFraction whole rest

/-- Operators and punctuation with the tokens they are read as. Of two spellings with a
common beginning the longer one comes first. -/
def operators : List (List Char × Token) :=
  [(['('], mark .openParen), ([')'], mark .closeParen), ([','], mark .comma),
    ([';'], mark .semicolon), (['['], mark .openBracket), ([']'], mark .closeBracket),
    (['+'], mark .plus), (['-', '>', '>'], sign "->>"), (['-', '>'], sign "->"),
    (['-'], mark .minus), ([':', ':'], mark .cast), ([':', '='], sign ":="),
    ([':'], sign ":"), (['='  , '>'], sign "=>"), (['=', '='], sign "=="), (['='], sign "="),
    (['!', '='], sign "<>"), (['!', '!'], sign "!!"), (['!', '~', '~', '*'], sign "!~~*"),
    (['!', '~', '~'], sign "!~~"), (['!', '~', '*'], sign "!~*"), (['!', '~'], sign "!~"),
    (['<', '=', '>'], sign "<=>"), (['<', '='], sign "<="), (['<', '>'], sign "<>"),
    (['<', '<'], sign "<<"), (['<', '@'], sign "<@"), (['<'], sign "<"),
    (['>', '='], sign ">="), (['>', '>'], sign ">>"), (['>'], sign ">"),
    (['/', '/'], sign "//"), (['|', '/'], sign "|/"), (['|', '|', '/'], sign "||/"),
    (['|', '|'], sign "||"), (['&', '&'], sign "&&"), (['^', '@'], sign "^@"),
    (['~', '~', '*'], sign "~~*"), (['~', '~'], sign "~~"), (['~', '*'], sign "~*"),
    (['#', '-'], sign "#-"), (['#', '>', '>'], sign "#>>"), (['#', '>'], sign "#>"),
    (['@', '>'], sign "@>"), (['@', '?'], sign "@?")]

/-- The operator or punctuation mark a text begins with. -/
def scanOperator? (cs : List Char) : Option (Token × List Char) :=
  operators.findSome? fun entry => (stripStart? entry.1 cs).map (entry.2, ·)

/-- A number sign, alone or with the word it begins. The character behind it belongs to
the word whatever it is. -/
def scanNumberSign (cs : List Char) : Token × List Char :=
  match cs with
  | [] => (sign "#", [])
  | c :: rest => if c = ' ' then (sign "#", cs) else scanWord ['#', c] rest

/-- An at sign, one or two, alone or with the word they begin. The character behind them
belongs to the word whatever it is, quotes behind a single one excepted. -/
def scanAtSign (cs : List Char) : Token × List Char :=
  match cs with
  | [] => (sign "@", [])
  | c :: rest =>
    if c = '@' then
      match rest with
      | [] => (sign "@@", [])
      | d :: more => if d = ' ' then (sign "@@", rest) else scanWord ['@', '@', d] more
    else if c = ' ' ∨ c = '\'' ∨ c = '"' ∨ c = '\x60' then (sign "@", cs)
    else scanWord ['@', c] rest

/-- What a dollar sign begins: a string between two equal tags, or a placeholder. -/
def scanDollar? (cs : List Char) : Option (Token × List Char) :=
  let tag := cs.takeWhile fun c => isAlphabetic c || isNumeric c || c == '_'
  match cs.drop tag.length with
  | '$' :: rest => scanLiteral? (.dollar (String.ofList tag)) rest
  | rest => some (sign (String.ofList ('$' :: tag)), rest)

/-- A token that begins with none of the characters of words, strings, names and
numbers. -/
def scanSign? (c : Char) (cs : List Char) : Option (Token × List Char) :=
  match scanOperator? (c :: cs) with
  | some r => some r
  | none =>
    if c = '#' then some (scanNumberSign cs)
    else if c = '@' then some (scanAtSign cs)
    else if c = '?' then
      some (sign (String.ofList ('?' :: cs.takeWhile isNumeric)), cs.dropWhile isNumeric)
    else if c = '$' then scanDollar? cs
    else if Text.isBlank c then some (blank .space, cs)
    else some (sign (String.ofList [c]), cs)

/-! ## One token, all tokens -/

/-- Drops the newline behind a carriage return. -/
def dropNewline : List Char → List Char
  | [] => []
  | c :: cs => if c = '\n' then cs else c :: cs

/-- A space, tab or line end. -/
def scanBlank? (c : Char) (cs : List Char) : Option (Token × List Char) :=
  if c = ' ' then some (blank .space, cs)
  else if c = '\t' then some (blank .tab, cs)
  else if c = '\n' then some (blank .newline, cs)
  else if c = '\r' then some (blank .newline, dropNewline cs)
  else none

/-- A bare word, or the string literal that its first letter opens. -/
def scanLetter? (c : Char) (cs : List Char) : Option (Token × List Char) :=
  match literalStart? c cs with
  | some (form, rest) => scanLiteral? form rest
  | none => some (scanWord [c] cs)

/-- A token that begins with neither a blank nor a letter. -/
def scanOther? (c : Char) (cs : List Char) : Option (Token × List Char) :=
  if c = '\'' then scanLiteral? .plain cs
  else if c = '"' then scanQuotedWord? .double cs
  else if c = '\x60' then scanQuotedWord? .backtick cs
  else if c.isDigit ∨ c = '.' then some (scanNumber (c :: cs))
  else if c = '-' ∧ cs.head? = some '-' then some (scanLineComment cs.tail)
  else if c = '/' ∧ cs.head? = some '*' then scanBlockComment? cs.tail
  else scanSign? c cs

/-- The token a text begins with, and the text behind it. -/
def scan? : List Char → Option (Token × List Char)
  | [] => none
  | c :: cs =>
    match scanBlank? c cs with
    | some r => some r
    | none => if isWordStart c then scanLetter? c cs else scanOther? c cs

/-! ## What is left is shorter -/

theorem literalStart?_suffix {c : Char} {cs : List Char} {r : LiteralForm × List Char}
    (h : literalStart? c cs = some r) : r.2 <:+ cs := by
  unfold literalStart? at h
  split at h
  case h_11 => simp at h
  all_goals
    cases h
    simp [List.suffix_cons_iff]

theorem literalValue?_suffix {form : LiteralForm} {cs : List Char} {r : List Char × List Char}
    (h : literalValue? form cs = some r) : r.2 <:+ cs := by
  unfold literalValue? at h
  split at h
  · exact Text.quoted?_suffix h
  · exact backslashed?_suffix h
  · exact backslashed?_suffix h
  · exact escaped?_suffix h
  · exact codePoints?_suffix h
  · exact Text.quoted?_suffix h
  · exact Text.quoted?_suffix h
  · exact Text.upTo?_suffix h
  · exact Text.upTo?_suffix h

theorem scanLiteral?_suffix {form : LiteralForm} {cs : List Char} {r : Token × List Char}
    (h : scanLiteral? form cs = some r) : r.2 <:+ cs := by
  obtain ⟨v, hv, rfl⟩ := Option.map_eq_some_iff.1 h
  exact literalValue?_suffix hv

theorem scanQuotedWord?_suffix {quote : NameQuote} {cs : List Char} {r : Token × List Char}
    (h : scanQuotedWord? quote cs = some r) : r.2 <:+ cs := by
  obtain ⟨v, hv, rfl⟩ := Option.map_eq_some_iff.1 h
  exact Text.quoted?_suffix hv

theorem scanWord_suffix (start cs : List Char) : (scanWord start cs).2 <:+ cs :=
  List.dropWhile_suffix _

theorem scanLineComment_suffix (cs : List Char) : (scanLineComment cs).2 <:+ cs := by
  simp only [scanLineComment]
  split
  · exact List.nil_suffix
  · rename_i c rest h
    have := List.dropWhile_suffix (l := cs) (· != '\n')
    rw [h] at this
    exact (List.suffix_cons _ _).trans this

theorem blockComment?_suffix {depth : Nat} {cs : List Char} {r : List Char × List Char}
    (h : blockComment? depth cs = some r) : r.2 <:+ cs := by
  fun_induction blockComment? depth cs generalizing r with
  | case1 => simp at h
  | case2 => simp at h
  | case3 depth c d cs _ ih =>
    obtain ⟨r', hr', rfl⟩ := Option.map_eq_some_iff.1 h
    exact (ih hr').trans ((List.suffix_cons _ _).trans (List.suffix_cons _ _))
  | case4 => cases h; exact (List.suffix_cons _ _).trans (List.suffix_cons _ _)
  | case5 c d cs _ _ depth ih =>
    obtain ⟨r', hr', rfl⟩ := Option.map_eq_some_iff.1 h
    exact (ih hr').trans ((List.suffix_cons _ _).trans (List.suffix_cons _ _))
  | case6 depth c d cs _ _ ih =>
    obtain ⟨r', hr', rfl⟩ := Option.map_eq_some_iff.1 h
    exact (ih hr').trans (List.suffix_cons _ _)

theorem scanBlockComment?_suffix {cs : List Char} {r : Token × List Char}
    (h : scanBlockComment? cs = some r) : r.2 <:+ cs := by
  obtain ⟨v, hv, rfl⟩ := Option.map_eq_some_iff.1 h
  exact blockComment?_suffix hv

theorem exponent_suffix (cs : List Char) : (exponent cs).2 <:+ cs := by
  unfold exponent
  split
  · exact List.suffix_refl _
  · simp only
    split
    · exact ((List.dropWhile_suffix _).trans (List.drop_suffix _ _)).trans
        (List.suffix_cons _ _)
    · exact List.suffix_refl _

theorem dropLongMark_suffix (cs : List Char) : dropLongMark cs <:+ cs := by
  unfold dropLongMark
  split
  · exact List.suffix_refl _
  · split
    · exact List.suffix_cons _ _
    · exact List.suffix_refl _

theorem fraction_suffix (cs : List Char) : (fraction cs).2 <:+ cs := by
  unfold fraction
  split
  · exact List.suffix_refl _
  · split
    · exact (List.dropWhile_suffix _).trans (List.suffix_cons _ _)
    · exact List.suffix_refl _

theorem scanFraction_suffix (whole cs : List Char) : (scanFraction whole cs).2 <:+ cs := by
  simp only [scanFraction]
  split
  · exact fraction_suffix cs
  · exact (dropLongMark_suffix _).trans ((exponent_suffix _).trans (fraction_suffix cs))

/-- A number that begins with a digit or a period takes that character. -/
theorem scanNumber_suffix {c : Char} (cs : List Char) (h : c.isDigit ∨ c = '.') :
    (scanNumber (c :: cs)).2 <:+ cs := by
  by_cases hc : c.isDigit
  · have hw : (c :: cs).dropWhile Char.isDigit = cs.dropWhile Char.isDigit := by
      simp [hc]
    simp only [scanNumber, hw]
    have hs := List.dropWhile_suffix (l := cs) Char.isDigit
    split
    · rename_i hex _ hx
      rw [hx] at hs
      exact (List.dropWhile_suffix _).trans ((List.suffix_cons _ _).trans hs)
    · exact (scanFraction_suffix _ _).trans hs
  · have hp : c = '.' := h.resolve_left hc
    subst hp
    have ht : ('.' :: cs).takeWhile Char.isDigit = [] := by simp
    have hd : ('.' :: cs).dropWhile Char.isDigit = '.' :: cs := by simp
    simp only [scanNumber, ht, hd]
    have hf : (fraction ('.' :: cs)).2 <:+ cs := by
      simp only [fraction, if_true]
      exact List.dropWhile_suffix _
    simp only [scanFraction]
    split
    · exact hf
    · exact (dropLongMark_suffix _).trans ((exponent_suffix _).trans hf)

/-- Every operator is spelled with at least one character. -/
theorem operators_ne_nil : ∀ entry ∈ operators, entry.1 ≠ [] := by
  decide

theorem scanOperator?_suffix {c : Char} {cs : List Char} {r : Token × List Char}
    (h : scanOperator? (c :: cs) = some r) : r.2 <:+ cs := by
  obtain ⟨entry, he, hr⟩ := List.exists_of_findSome?_eq_some h
  obtain ⟨rest, hs, rfl⟩ := Option.map_eq_some_iff.1 hr
  have hne := operators_ne_nil entry he
  have happ := Text.stripStart?_eq_some_iff.1 hs
  cases hx : entry.1 with
  | nil => exact absurd hx hne
  | cons d ds =>
    rw [hx, List.cons_append] at happ
    exact ⟨ds, (List.cons.inj happ).2.symm⟩

theorem scanNumberSign_suffix (cs : List Char) : (scanNumberSign cs).2 <:+ cs := by
  unfold scanNumberSign
  split
  · exact List.suffix_refl _
  · split
    · exact List.suffix_refl _
    · exact (scanWord_suffix _ _).trans (List.suffix_cons _ _)

theorem scanAtSign_suffix (cs : List Char) : (scanAtSign cs).2 <:+ cs := by
  unfold scanAtSign
  split
  · exact List.suffix_refl _
  · split
    · split
      · exact List.suffix_cons _ _
      · split
        · exact List.suffix_cons _ _
        · exact (scanWord_suffix _ _).trans
            ((List.suffix_cons _ _).trans (List.suffix_cons _ _))
    · split
      · exact List.suffix_refl _
      · exact (scanWord_suffix _ _).trans (List.suffix_cons _ _)

theorem scanDollar?_suffix {cs : List Char} {r : Token × List Char}
    (h : scanDollar? cs = some r) : r.2 <:+ cs := by
  simp only [scanDollar?] at h
  split at h
  · rename_i rest hx
    refine (scanLiteral?_suffix h).trans ((List.suffix_cons '$' rest).trans ?_)
    exact hx ▸ List.drop_suffix _ cs
  · cases h
    exact List.drop_suffix _ cs

theorem scanSign?_suffix {c : Char} {cs : List Char} {r : Token × List Char}
    (h : scanSign? c cs = some r) : r.2 <:+ cs := by
  unfold scanSign? at h
  split at h
  · rename_i r' hr
    cases h
    exact scanOperator?_suffix hr
  split at h
  · cases h; exact scanNumberSign_suffix cs
  split at h
  · cases h; exact scanAtSign_suffix cs
  split at h
  · cases h; exact List.dropWhile_suffix _
  split at h
  · exact scanDollar?_suffix h
  split at h
  · cases h; exact List.suffix_refl _
  · cases h; exact List.suffix_refl _

theorem dropNewline_suffix (cs : List Char) : dropNewline cs <:+ cs := by
  unfold dropNewline
  split
  · exact List.suffix_refl _
  · split
    · exact List.suffix_cons _ _
    · exact List.suffix_refl _

theorem scanBlank?_suffix {c : Char} {cs : List Char} {r : Token × List Char}
    (h : scanBlank? c cs = some r) : r.2 <:+ cs := by
  unfold scanBlank? at h
  split at h
  · cases h; exact List.suffix_refl _
  split at h
  · cases h; exact List.suffix_refl _
  split at h
  · cases h; exact List.suffix_refl _
  split at h
  · cases h; exact dropNewline_suffix cs
  · cases h

theorem scanLetter?_suffix {c : Char} {cs : List Char} {r : Token × List Char}
    (h : scanLetter? c cs = some r) : r.2 <:+ cs := by
  unfold scanLetter? at h
  split at h
  · rename_i hl
    exact (scanLiteral?_suffix h).trans (literalStart?_suffix hl)
  · cases h; exact scanWord_suffix _ _

theorem scanOther?_suffix {c : Char} {cs : List Char} {r : Token × List Char}
    (h : scanOther? c cs = some r) : r.2 <:+ cs := by
  unfold scanOther? at h
  split at h
  · exact scanLiteral?_suffix h
  split at h
  · exact scanQuotedWord?_suffix h
  split at h
  · exact scanQuotedWord?_suffix h
  split at h
  · rename_i hd
    cases h
    exact scanNumber_suffix cs hd
  split at h
  · cases h
    exact (scanLineComment_suffix _).trans (List.tail_suffix cs)
  split at h
  · exact (scanBlockComment?_suffix h).trans (List.tail_suffix cs)
  · exact scanSign?_suffix h

/-- A scanned token takes at least the first character. -/
theorem suffix_of_scan? {c : Char} {cs : List Char} {r : Token × List Char}
    (h : scan? (c :: cs) = some r) : r.2 <:+ cs := by
  simp only [scan?] at h
  split at h
  · rename_i hb
    cases h
    exact scanBlank?_suffix hb
  split at h
  · exact scanLetter?_suffix h
  · exact scanOther?_suffix h

theorem length_lt_of_scan? {cs : List Char} {r : Token × List Char}
    (h : scan? cs = some r) : r.2.length < cs.length := by
  cases cs with
  | nil => simp [scan?] at h
  | cons c cs => exact Nat.lt_succ_of_le (suffix_of_scan? h).length_le

/-- All tokens of a text, or nothing if some part of it is no token. -/
def tokenize (cs : List Char) : Option (List Token) :=
  match cs with
  | [] => some []
  | c :: cs =>
    match _h : scan? (c :: cs) with
    | none => none
    | some (t, rest) => (tokenize rest).map (t :: ·)
termination_by cs.length
decreasing_by exact length_lt_of_scan? _h

@[simp] theorem tokenize_nil : tokenize [] = some [] := by
  rw [tokenize]

/-- Tokenizing reads the first token and goes on behind it. -/
theorem tokenize_of_scan? {cs rest : List Char} {t : Token} (h : scan? cs = some (t, rest)) :
    tokenize cs = (tokenize rest).map (t :: ·) := by
  cases cs with
  | nil => simp [scan?] at h
  | cons c cs =>
    rw [tokenize]
    split
    · rename_i hn; rw [h] at hn; cases hn
    · rename_i hs; rw [h] at hs; cases hs; rfl

/-- A text whose beginning is no token has no tokens. -/
theorem tokenize_eq_none {c : Char} {cs : List Char} (h : scan? (c :: cs) = none) :
    tokenize (c :: cs) = none := by
  rw [tokenize]
  split
  · rfl
  · rename_i hs; rw [h] at hs; cases hs

end Token
end SchemaScript
