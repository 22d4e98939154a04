import Mathlib.Data.List.DropRight
import SchemaScript.Proofs.Token.Filler
import SchemaScript.Script.Kind

/-!
# Comments in front of a statement

The kind of a statement that can be tokenized is read off its tokens, from the first that is not
blank, so blanks and comments in front make no difference (`StatementKind.ofText_of_tokens`). The
kind of any other statement is told by its first words. There a comment counts for a word, so a
statement that would create a table is of no interest with a comment in front. This is the only
exception (`StatementKind.ofText_append_iff_of_isFiller`).
-/

namespace SchemaScript
namespace StatementKind

open Token

/-- Tokens are read from the first that is not blank. -/
theorem run_reader_dropWhile (ts : List Token) :
    reader.run (ts.dropWhile isBlank) = reader.run ts := by
  have hfirst : Reader.skipBlanks.run (ts.dropWhile isBlank) =
      (some (), ts.dropWhile isBlank) := by
    rw [Reader.run_skipBlanks, List.dropWhile_idempotent]
  rw [reader, Reader.run_bind_of_some hfirst, Reader.run_bind_of_some (Reader.run_skipBlanks ts)]

theorem ofText_of_tokensBehindBlanks? {s : String} {ts : List Token}
    (h : tokensBehindBlanks? s.toList = some ts) :
    ofText s = (reader.run ts).1.getD .other := by
  obtain ⟨us, hus, rfl⟩ := Option.map_eq_some_iff.1 h
  rw [ofText, hus, run_reader_dropWhile]

theorem ofText_of_none {s : String} (h : tokensBehindBlanks? s.toList = none) :
    ofText s = if looksLikeCreateTable s.toList then .createTable else .other := by
  rw [ofText, Option.map_eq_none_iff.1 h]

/-! ## The first word -/

/-- Filler is blank, or the first word in it is a comment. -/
theorem exists_comment_of_isFiller {a : List Char} (h : IsFiller a)
    (ha : Text.allBlank a = false) : ∃ blanks c rest, a = blanks ++ c :: rest ∧
      Text.allBlank blanks = true ∧ (c = '-' ∨ c = '/') := by
  induction h with
  | nil => cases ha
  | @blank c a hc _ ih =>
    rw [Text.allBlank, List.all_cons, hc, Bool.true_and] at ha
    obtain ⟨blanks, d, rest, rfl, hblanks, hd⟩ := ih ha
    refine ⟨c :: blanks, d, rest, rfl, ?_, hd⟩
    rw [Text.allBlank, List.all_cons, hc, Bool.true_and]
    exact hblanks
  | lineComment => exact ⟨[], '-', _, rfl, rfl, Or.inl rfl⟩
  | blockComment => exact ⟨[], '/', _, rfl, rfl, Or.inr rfl⟩

/-- A text whose first word is a comment does not look like a statement. -/
theorem looksLikeCreateTable_append {a : List Char} (h : IsFiller a)
    (ha : Text.allBlank a = false) (cs : List Char) : looksLikeCreateTable (a ++ cs) = false := by
  obtain ⟨blanks, c, rest, rfl, hblanks, hc⟩ := exists_comment_of_isFiller h ha
  have hsolid : Text.isBlank c = false := by rcases hc with rfl | rfl <;> rfl
  obtain ⟨w, ws, hwords⟩ := Text.exists_words_cons hsolid (rest ++ cs)
  have hword : (Text.foldCase (c :: w) == "create".toList) = false := by
    rw [Text.foldCase_cons, beq_eq_false_iff_ne]
    intro hx
    have hfirst : c.toLower = 'c' := (List.cons.inj hx).1
    rcases hc with rfl | rfl <;> revert hfirst <;> decide
  rw [looksLikeCreateTable, List.append_assoc, Text.words_append_of_allBlank hblanks,
    List.cons_append, hwords]
  simp only [hword, Bool.false_and]

/-! ## The kind of a statement -/

/-- **Comments in front of a statement matter exactly if it cannot be tokenized.** Blanks and
comments in front of a text leave its kind as it is, unless there is a comment in them and the text
cannot be tokenized but begins like a statement that creates a table. In that case it is of no
interest with the comment, and creates a table without it. -/
theorem ofText_append_iff_of_isFiller {comments : String} (h : IsFiller comments.toList)
    (s : String) :
    (ofText (comments ++ s) = ofText s ↔
      tokenize s.toList ≠ none ∨ Text.allBlank comments.toList = true ∨
        looksLikeCreateTable s.toList = false) ∧
    (tokenize s.toList = none → Text.allBlank comments.toList = false →
      ofText (comments ++ s) = .other) := by
  have htokens : tokensBehindBlanks? (comments ++ s).toList = tokensBehindBlanks? s.toList := by
    rw [String.toList_append, tokensBehindBlanks?_append h]
  cases hs : tokensBehindBlanks? s.toList with
  | some ts =>
    have hsome : tokenize s.toList ≠ none := by
      intro hnone
      rw [tokensBehindBlanks?, hnone] at hs
      cases hs
    refine ⟨iff_of_true ?_ (Or.inl hsome), fun hnone => absurd hnone hsome⟩
    rw [ofText_of_tokensBehindBlanks? hs, ofText_of_tokensBehindBlanks? (htokens.trans hs)]
  | none =>
    have hnone : tokenize s.toList = none := Option.map_eq_none_iff.1 hs
    rw [ofText_of_none hs, ofText_of_none (htokens.trans hs), String.toList_append]
    cases hblank : Text.allBlank comments.toList with
    | true =>
      rw [looksLikeCreateTable, Text.words_append_of_allBlank hblank, ← looksLikeCreateTable]
      simp
    | false =>
      rw [looksLikeCreateTable_append h hblank]
      simp only [hnone]
      cases looksLikeCreateTable s.toList <;> simp

/-- A comment in a comment, with a quote, behind a comment and in front of a blank line. -/
def nestedComments : String :=
  "-- a;\n/* b /* c */ ' */\n\n"

theorem ofText_append_nestedComments : IsFiller nestedComments.toList ∧
    ofText (nestedComments ++ "CREATE TABLE t (a INT)") = .createTable ∧
    ofText (nestedComments ++ "CREATE TABLE t (a TEXT DEFAULT 'x") = .other := by
  have hfiller : IsFiller ("-- a;\n/* b /* c */ ' */\n".toList ++ ['\n']) :=
    tokensBehindBlanks?_eq_some_nil_iff.1 (by decide +kernel)
  have h : IsFiller nestedComments.toList := hfiller
  refine ⟨h, ?_, ?_⟩
  · rw [(ofText_append_iff_of_isFiller h _).1.2 (Or.inl (by decide +kernel))]
    decide +kernel
  · exact (ofText_append_iff_of_isFiller h _).2 (by decide +kernel) (by decide +kernel)

/-- A line comment in front of a statement whose string is not closed. -/
theorem ofText_append_unclosed : IsFiller "-- c\n".toList ∧
    ofText "CREATE TABLE t (a TEXT DEFAULT 'x" = .createTable ∧
    ofText ("-- c\n" ++ "CREATE TABLE t (a TEXT DEFAULT 'x") = .other := by
  refine ⟨?_, by decide +kernel, by decide +kernel⟩
  have hbody : '\n' ∉ " c".toList := by decide
  exact .lineComment hbody .nil

end StatementKind
end SchemaScript
