import Mathlib.Logic.Function.Defs
import SchemaScript.Dialect
import SchemaScript.Text.Delimited

/-!
# What string literals say

The engines read their strings by two rules. Between plain quotes a doubled quote stands for one
and all other characters for themselves (`Text.quoted?`). In MySQL and MariaDB, and in PostgreSQL
behind the letter `E`, a backslash moreover gives the character behind it another meaning
(`Text.escaped?`); what meaning differs, but a backslash behind a backslash stands for itself in
both.

The string literal of a text is read in its dialect as this text, and it ends where it was made to
end (`Dialect.readString?_stringLiteral`). Nothing else about the meanings is used, so this holds
for an engine with other escapes as well (`Dialect.readStringBy?_stringLiteral`), and what a literal
was made of can be told from any text that begins with it (`Dialect.stringLiteral_decodable`).

A text in plain quotes is read as itself, too, unless it has a backslash that MySQL takes for an
escape (`Dialect.readString?_enclose`).
-/

namespace SchemaScript

namespace Text

/-- The value of a quoted text with escapes, read behind the opening quote: a doubled quote stands
for one, a single quote ends the text, and a backslash gives the character behind it the meaning
that the rule has for it. -/
def escaped? (rule : Char → Option (List Char)) : List Char → Option (List Char × List Char)
  | [] => none
  | [c] => if c = '\'' then some ([], []) else none
  | c :: d :: cs =>
    if c = '\'' then
      if d = '\'' then (escaped? rule cs).map fun r => ('\'' :: r.1, r.2) else some ([], d :: cs)
    else if c = '\\' then
      (rule d).bind fun text => (escaped? rule cs).map fun r => (text ++ r.1, r.2)
    else (escaped? rule (d :: cs)).map fun r => (c :: r.1, r.2)

variable (rule : Char → Option (List Char))

theorem escaped?_cons_of_ne {c : Char} (hquote : c ≠ '\'') (hslash : c ≠ '\\') (cs : List Char) :
    escaped? rule (c :: cs) = (escaped? rule cs).map fun r => (c :: r.1, r.2) := by
  cases cs with
  | nil => simp [escaped?, hquote]
  | cons d cs => rw [escaped?, if_neg hquote, if_neg hslash]

/-- A text with its quotes and backslashes doubled is read back, whatever follows it, as long as no
further quote does. -/
theorem escaped?_double (hrule : rule '\\' = some ['\\']) (v rest : List Char)
    (h : rest.head? ≠ some '\'') :
    escaped? rule (double '\\' (double '\'' v) ++ '\'' :: rest) = some (v, rest) := by
  induction v with
  | nil =>
    cases rest with
    | nil => simp [escaped?]
    | cons d rest =>
      have hd : d ≠ '\'' := by simpa using h
      simp [escaped?, hd]
  | cons c v ih =>
    by_cases hquote : c = '\''
    · subst hquote
      simp [double, escaped?, ih]
    by_cases hslash : c = '\\'
    · subst hslash
      simp [double, escaped?, hrule, ih]
    · rw [double_cons_of_ne hquote, double_cons_of_ne hslash, List.cons_append,
        escaped?_cons_of_ne rule hquote hslash, ih]
      rfl

/-- Without backslashes it is enough to double the quotes. -/
theorem escaped?_double_of_notMem (hrule : rule '\\' = some ['\\']) {v : List Char}
    (hv : '\\' ∉ v) {rest : List Char} (h : rest.head? ≠ some '\'') :
    escaped? rule (double '\'' v ++ '\'' :: rest) = some (v, rest) := by
  have hread := escaped?_double rule hrule v rest h
  rwa [double_comm (by decide), double_eq_self hv] at hread

end Text

namespace Dialect

/-- What a backslash with the character behind it stands for in MySQL. In front of the wildcards of
patterns the backslash is kept. -/
def mySqlEscape : Char → Option (List Char)
  | '0' => some ['\x00']
  | 'b' => some ['\x08']
  | 'n' => some ['\n']
  | 'r' => some ['\r']
  | 't' => some ['\t']
  | 'Z' => some ['\x1a']
  | '%' => some ['\\', '%']
  | '_' => some ['\\', '_']
  | c => some [c]

/-- What a backslash with the character behind it stands for in PostgreSQL. A code point has more
than one character behind the backslash, and is not read here. -/
def postgreSqlEscape (c : Char) : Option (List Char) :=
  match c with
  | 'b' => some ['\x08']
  | 'f' => some ['\x0c']
  | 'n' => some ['\n']
  | 'r' => some ['\r']
  | 't' => some ['\t']
  | 'x' | 'u' | 'U' => none
  | _ => if c.isDigit then none else some [c]

/-- The value of the string that a text begins with, and what stands behind it, where a backslash
in a string with escapes has the meaning of the rule. -/
def readStringBy? (d : Dialect) (rule : Char → Option (List Char)) :
    List Char → Option (List Char × List Char)
  | '\'' :: cs => if d.isMySqlFamily then Text.escaped? rule cs else Text.quoted? '\'' cs
  | c :: '\'' :: cs =>
    if d = postgresql ∧ (c = 'E' ∨ c = 'e') then Text.escaped? rule cs else none
  | _ => none

/-- What a backslash means to the engine. -/
def escapeRule (d : Dialect) : Char → Option (List Char) :=
  if d.isMySqlFamily then mySqlEscape else postgreSqlEscape

/-- To every engine a backslash behind a backslash is one backslash. -/
theorem escapeRule_backslash (d : Dialect) : d.escapeRule '\\' = some ['\\'] := by
  cases d <;> rfl

/-- The value of the string that a text begins with, as the engine reads it, and what stands behind
the string. -/
def readString? (d : Dialect) : List Char → Option (List Char × List Char) :=
  d.readStringBy? d.escapeRule

/-- A string literal is read as the text it was made of, whatever a backslash means in front of
other characters than itself. -/
theorem readStringBy?_stringLiteral (d : Dialect) {rule : Char → Option (List Char)}
    (hrule : rule '\\' = some ['\\']) (s : String) {rest : List Char}
    (h : rest.head? ≠ some '\'') :
    d.readStringBy? rule ((d.stringLiteral s).toList ++ rest) = some (s.toList, rest) := by
  have hplain := Text.quoted?_double s.toList rest h
  have hescaped := Text.escaped?_double rule hrule s.toList rest h
  cases d with
  | postgresql => simpa [readStringBy?, escapesBackslash] using hescaped
  | mysql | mariadb => simpa [readStringBy?, escapesBackslash, isMySqlFamily] using hescaped
  | sqlite | sqlserver => simpa [readStringBy?, escapesBackslash, isMySqlFamily] using hplain

/-- **A string literal denotes the text it was made of**, and ends in front of anything but a
quote. -/
theorem readString?_stringLiteral (d : Dialect) (s : String) {rest : List Char}
    (h : rest.head? ≠ some '\'') :
    d.readString? ((d.stringLiteral s).toList ++ rest) = some (s.toList, rest) :=
  d.readStringBy?_stringLiteral d.escapeRule_backslash s h

/-- Texts that begin with literals are the same only if the literals were made of the same text and
the same follows them. -/
theorem eq_of_stringLiteral_append (d : Dialect) {s s' : String} {rest rest' : List Char}
    (h : rest.head? ≠ some '\'') (h' : rest'.head? ≠ some '\'')
    (heq : (d.stringLiteral s).toList ++ rest = (d.stringLiteral s').toList ++ rest') :
    s = s' ∧ rest = rest' := by
  have hread := d.readString?_stringLiteral s h
  rw [heq, d.readString?_stringLiteral s' h', Option.some_inj, Prod.mk.injEq] at hread
  exact ⟨String.toList_injective hread.1.symm, hread.2.symm⟩

/-- **String literals are decodable and end by themselves.** With any text behind it that does not
begin with a quote, the literal of a text is read as exactly this text, and reading stops behind the
literal; of the strings with escapes only this is used, that a backslash behind a backslash stands
for itself. So texts that begin with literals tell the literals and what follows them apart, and
different texts have different literals. -/
theorem stringLiteral_decodable (d : Dialect) :
    (∀ rule : Char → Option (List Char), rule '\\' = some ['\\'] →
      ∀ (v : String) (w : List Char), w.head? ≠ some '\'' →
        d.readStringBy? rule ((d.stringLiteral v).toList ++ w) = some (v.toList, w)) ∧
    (∀ (v v' : String) (w w' : List Char), w.head? ≠ some '\'' → w'.head? ≠ some '\'' →
      (d.stringLiteral v).toList ++ w = (d.stringLiteral v').toList ++ w' → v = v' ∧ w = w') ∧
    Function.Injective d.stringLiteral := by
  refine ⟨fun rule hrule v w hw => d.readStringBy?_stringLiteral hrule v hw,
    fun v v' w w' hw hw' heq => d.eq_of_stringLiteral_append hw hw' heq, fun v v' heq => ?_⟩
  have hend : ([] : List Char).head? ≠ some '\'' := by simp
  exact (d.eq_of_stringLiteral_append hend hend (by rw [heq])).1

/-- A backslash and a quote next to each other, and behind the literal the end of a statement. -/
theorem readStringBy?_postgresql :
    postgreSqlEscape '\\' = some ['\\'] ∧ [';', '-', '-'].head? ≠ some '\'' ∧
    postgresql.stringLiteral "\\' OR ''" = "E'\\\\'' OR '''''" ∧
    postgresql.readStringBy? postgreSqlEscape
        ((postgresql.stringLiteral "\\' OR ''").toList ++ [';', '-', '-']) =
      some ("\\' OR ''".toList, [';', '-', '-']) :=
  ⟨rfl, by decide, by decide,
    (stringLiteral_decodable postgresql).1 postgreSqlEscape rfl "\\' OR ''" _ (by decide)⟩

/-- A text in plain quotes denotes itself, unless a backslash in it is an escape. -/
theorem readString?_enclose {d : Dialect} {s : String}
    (hs : d.isMySqlFamily = true → '\\' ∉ s.toList) {rest : List Char}
    (h : rest.head? ≠ some '\'') :
    d.readString? ((Text.enclose '\'' s).toList ++ rest) = some (s.toList, rest) := by
  have htext : (Text.enclose '\'' s).toList ++ rest =
      '\'' :: (Text.double '\'' s.toList ++ '\'' :: rest) := by
    simp
  rw [htext, readString?, readStringBy?]
  split
  · rename_i hd
    exact Text.escaped?_double_of_notMem _ d.escapeRule_backslash (hs hd) h
  · exact Text.quoted?_double s.toList rest h

end Dialect
end SchemaScript
