import SchemaScript.Proofs.Script.Content
import SchemaScript.Proofs.Script.Legible
import SchemaScript.Proofs.Script.Run

/-!
# A text that is not cut

A text with a semicolon on a line behind it is one statement, the text without the blanks around
it, if the modes it leads through end in normal mode or in a comment that the line ends. This
is the only way: a text that leads into quotes takes the semicolon in, and where a semicolon
ends a statement inside the text, neither part is the whole.

A text without semicolons among its tokens goes this way if they are legible.
-/

namespace SchemaScript
namespace Script

open Token Mode

/-- The modes in which a newline closes what is open are normal mode and that of a comment up to
the end of the line. In the others a newline and a semicolon change nothing. -/
theorem behind?_newline (mode : Mode) :
    ((mode = .normal ∨ mode = .lineComment) ∧ mode.behind? ['\n'] = some .normal) ∨
      (mode ≠ .normal ∧ mode ≠ .lineComment ∧ mode.behind? ['\n', ';'] = some mode) := by
  cases mode <;>
    simp [Mode.behind?, Scanner.openedBy, Scanner.closer?]

section OneStatement

variable {script : String} {ts : List Token}

/-- A text that leads back to normal mode at the end of its line is one statement. -/
theorem texts_of_behind? {mode : Mode} (hts : tokenize script.toList = some ts)
    (hcontent : ∃ t ∈ ts, t.isBlank = false)
    (hplain : Undirected [] (script.toList ++ ['\n', ';']))
    (h : normal.behind? script.toList = some mode)
    (hmode : mode = .normal ∨ mode = .lineComment) :
    (statements (script ++ "\n;")).map Statement.text = [Text.trimmed script] := by
  have hclose : mode.behind? ['\n'] = some .normal := by
    rcases behind?_newline mode with ⟨-, hn⟩ | ⟨h1, h2, -⟩
    · exact hn
    · rcases hmode with hmode | hmode
      · exact absurd hmode h1
      · exact absurd hmode h2
  obtain ⟨s, hs, hrun⟩ := Scanner.exists_isBehind h (s := {}) ['\n', ';'] rfl rfl
    Scanner.isFresh_start.atWord (by simp [isSettled]) hplain
  have htext : s.text = script.toList := hs.text
  have hplain' : Undirected s.text (['\n'] ++ [';']) := hs.undirected hplain
  obtain ⟨s', hs', hrun'⟩ := Scanner.exists_isBehind hclose (s := s) [';'] hs.delimiter
    hs.mode hs.atWord (by simp [isSettled]) hplain'
  have htext' : s'.text = script.toList ++ ['\n'] := by rw [hs'.text, htext]
  have hsemi := Scanner.statements_semicolon [] hs'.delimiter hs'.mode hs'.atWord
    (hs'.undirected hplain')
  have hstatement : s'.statement?.map Statement.text = some (Text.trimmed script) := by
    rw [Scanner.statement?, htext',
      if_pos (hasContent_newline (hasContent_of_tokenize hts hcontent))]
    simp only [Option.map_some, Text.trim_append_blank (show Text.isBlank '\n' = true from rfl)]
    rfl
  have hrest : Scanner.statements { s'.restart with atLineStart := false } [] = [] := by
    rw [Scanner.statements_nil, Scanner.statement?_of_text_eq_nil rfl]
    rfl
  have hall : statements (script ++ "\n;") = s'.statement?.toList := by
    rw [statements, String.toList_append]
    refine (hrun.trans (hrun'.trans hsemi)).trans ?_
    rw [hrest, List.append_nil]
  obtain ⟨st, hst, hst'⟩ := Option.map_eq_some_iff.1 hstatement
  rw [hall, hst, Option.toList_some, List.map_singleton, hst']

/-- A text that leads into quotes or a comment takes the semicolon behind it in. -/
theorem texts_ne_of_open {mode : Mode}
    (hplain : Undirected [] (script.toList ++ ['\n', ';']))
    (h : normal.behind? script.toList = some mode)
    (hmode : mode ≠ .normal ∧ mode ≠ .lineComment) :
    (statements (script ++ "\n;")).map Statement.text ≠ [Text.trimmed script] := by
  have hopen : mode.behind? ['\n', ';'] = some mode := by
    rcases behind?_newline mode with ⟨h1 | h1, -⟩ | ⟨-, -, hn⟩
    · exact absurd h1 hmode.1
    · exact absurd h1 hmode.2
    · exact hn
  obtain ⟨s, hs, hrun⟩ := Scanner.exists_isBehind h (s := {}) ['\n', ';'] rfl rfl
    Scanner.isFresh_start.atWord (by simp [isSettled]) hplain
  have htext : s.text = script.toList := hs.text
  obtain ⟨s', hs', hrun'⟩ := Scanner.exists_isBehind hopen (s := s) [] hs.delimiter
    hs.mode hs.atWord (by simp) (hs.undirected hplain)
  have hall : statements (script ++ "\n;") = s'.statement?.toList := by
    rw [statements, String.toList_append, ← Scanner.statements_nil]
    exact hrun.trans hrun'
  rw [hall]
  intro hx
  obtain ⟨st, hst, htrim⟩ := List.map_eq_singleton_iff.1 hx
  have hmem : st ∈ s'.statement?.toList := by
    rw [hst]
    exact List.mem_singleton.2 rfl
  have hsolid := Scanner.solid_of_statement? (Option.mem_toList.1 hmem)
  rw [htrim, Text.toList_trimmed, Text.solid_trim, hs'.text, htext, Text.solid_append] at hsolid
  have hone : Text.solid ['\n', ';'] = 1 := by decide
  omega

/-- A text in which a statement ends falls apart there. -/
theorem texts_ne_of_none (hts : tokenize script.toList = some ts)
    (hsemi : mark .semicolon ∉ ts)
    (hplain : Undirected [] (script.toList ++ ['\n', ';']))
    (h : normal.behind? script.toList = none) :
    (statements (script ++ "\n;")).map Statement.text ≠ [Text.trimmed script] := by
  obtain ⟨a, b, hab, ha⟩ := exists_of_behind?_eq_none h
  rw [hab, List.append_assoc] at hplain
  obtain ⟨s, hs, hrun⟩ := Scanner.exists_isBehind ha (s := {})
    (';' :: b ++ ['\n', ';']) rfl rfl Scanner.isFresh_start.atWord (by simp [isSettled]) hplain
  have htext : s.text = a := hs.text
  have hcut := Scanner.statements_semicolon (b ++ ['\n', ';']) hs.delimiter hs.mode
    hs.atWord (hs.undirected hplain)
  have hall : statements (script ++ "\n;") = s.statement?.toList ++
      Scanner.statements { s.restart with atLineStart := false } (b ++ ['\n', ';']) := by
    rw [statements, String.toList_append, hab, List.append_assoc]
    exact hrun.trans hcut
  rw [hall]
  intro hx
  have hscript : Text.solid script.toList = Text.solid a + 1 + Text.solid b := by
    rw [hab, Text.solid_append, Text.solid_cons_of_not rfl]
    omega
  rw [List.map_append] at hx
  rcases List.append_eq_singleton_iff.1 hx with ⟨hnone, hrest⟩ | ⟨hsome, -⟩
  · -- what stands in front of the semicolon would be blank
    obtain ⟨st, hst, htrim⟩ := List.map_eq_singleton_iff.1 hrest
    have hlater : st ∈ Scanner.statements { s.restart with atLineStart := false }
        (b ++ ['\n', ';']) := by
      rw [hst]
      exact List.mem_singleton.2 rfl
    have hle := Scanner.solid_le_of_mem_statements hlater
    have hempty : Scanner.text { s.restart with atLineStart := false } = [] := rfl
    have hone : Text.solid ['\n', ';'] = 1 := by decide
    rw [htrim, Text.toList_trimmed, Text.solid_trim, hempty, Text.solid_nil, Text.solid_append,
      hone] at hle
    have hzero : Text.solid a = 0 := by omega
    rw [hab] at hts
    exact hsemi (semicolon_mem_of_blanks (Text.solid_eq_zero_iff.1 hzero) hts)
  · obtain ⟨st, hst, htrim⟩ := List.map_eq_singleton_iff.1 hsome
    have hmem : st ∈ s.statement?.toList := by
      rw [hst]
      exact List.mem_singleton.2 rfl
    have hsolid := Scanner.solid_of_statement? (Option.mem_toList.1 hmem)
    rw [htrim, Text.toList_trimmed, Text.solid_trim, htext] at hsolid
    omega

/-- **A text without a semicolon among its tokens is one statement** exactly when the modes it
leads through end where a newline closes what is open, and in particular when its tokens are
legible. -/
theorem texts_statements_semicolon (hts : tokenize script.toList = some ts)
    (hcontent : ∃ t ∈ ts, t.isBlank = false) (hsemi : mark .semicolon ∉ ts)
    (hword : ¬ HasWord "DELIMITER".toList script.toList) :
    ((statements (script ++ "\n;")).map Statement.text = [Text.trimmed script] ↔
      normal.behind? script.toList = some .normal ∨
        normal.behind? script.toList = some .lineComment) ∧
    ((∀ l ∈ lexemes script.toList, IsLegible l) →
      (statements (script ++ "\n;")).map Statement.text = [Text.trimmed script]) := by
  have hplain : Undirected [] (script.toList ++ ['\n', ';']) := by
    refine undirected_of_not_hasDirectiveWord fun hx => ?_
    rcases HasDirectiveWord.of_append_newline hx with hx | hx
    · exact hword hx.hasWord
    · exact absurd hx.occursIn (by decide)
  have hiff : (statements (script ++ "\n;")).map Statement.text = [Text.trimmed script] ↔
      normal.behind? script.toList = some .normal ∨
        normal.behind? script.toList = some .lineComment := by
    constructor
    · intro hx
      cases hmode : normal.behind? script.toList with
      | none => exact absurd hx (texts_ne_of_none hts hsemi hplain hmode)
      | some mode =>
        by_contra hn
        refine texts_ne_of_open hplain hmode ⟨?_, ?_⟩ hx
        · rintro rfl
          exact hn (Or.inl rfl)
        · rintro rfl
          exact hn (Or.inr rfl)
    · rintro (hmode | hmode)
      · exact texts_of_behind? hts hcontent hplain hmode (Or.inl rfl)
      · exact texts_of_behind? hts hcontent hplain hmode (Or.inr rfl)
  exact ⟨hiff, fun hl => hiff.2 (behind?_of_isLegible hts hsemi hl)⟩

/-- A quote written twice, a comment with a semicolon and a text without a delimiter. -/
theorem texts_statements_plainQuote :
    (statements ("SELECT 'it''s;' -- one;" ++ "\n;")).map Statement.text =
      [Text.trimmed "SELECT 'it''s;' -- one;"] :=
  (texts_statements_semicolon
    (show tokenize "SELECT 'it''s;' -- one;".toList = some [.word "SELECT", .blank .space,
      .literal .plain "it's;", .blank .space, .blank (.lineComment " one;")] by decide +kernel)
    (by decide) (by decide)
    (fun h => absurd (occursIn_of_hasWord h) (by decide))).1.2 (by decide +kernel)

/-- A quote behind a backslash closes the string for the scanner alone: the tokens hold no
semicolon, and the text is cut. -/
theorem texts_statements_escapedQuote :
    ∃ script ts, tokenize script.toList = some ts ∧ (∃ t ∈ ts, t.isBlank = false) ∧
      mark .semicolon ∉ ts ∧ ¬ HasWord "DELIMITER".toList script.toList ∧
      (statements (script ++ "\n;")).map Statement.text ≠ [Text.trimmed script] := by
  refine ⟨"SELECT E'it\\'s;'", [.word "SELECT", .blank .space, .literal .escaped "it's;"],
    by decide +kernel, by decide, by decide,
    fun h => absurd (occursIn_of_hasWord h) (by decide), by decide +kernel⟩

end OneStatement

end Script
end SchemaScript
