import SchemaScript.Proofs.Script.Composition
import SchemaScript.Proofs.Script.Enclosures

/-!
# Blocks with a delimiter of their own

A statement that has semicolons in it is written between two directives: one that gives another
delimiter and one that brings the semicolon back (`delimiterBlock`). The scanner reads such a block
line by line. The first directive counts because nothing was read before it. In the body nothing
counts: directives because there are none, and the delimiter because it does not stand there
(`Scanner.exists_extends`). At the delimiter the statement ends, which also has content, so that the
delimiter is no directive whatever it looks like. Behind it and a newline the second directive
counts, and with it the scanner is at rest.
-/

namespace SchemaScript
namespace Script

/-- A block with a delimiter of its own: a directive, a body, the delimiter, and a directive that
brings the semicolon back. -/
def delimiterBlock (delimiter body : String) : String :=
  "DELIMITER " ++ delimiter ++ "\n" ++ body ++ "\n" ++ delimiter ++ "\nDELIMITER ;\n"

namespace Scanner

/-- A directive line is passed and gives the delimiter. -/
theorem run_directive {s : Scanner} (h : s.expectsDirective = true) {d : Delimiter}
    (hd : ∀ c ∈ d.chars, Text.isBlank c = false) :
    s.run ("DELIMITER ".toList ++ d.chars) = ([], { s.restart with delimiter := d }) := by
  have hdirective : isDirective ("DELIMITER ".toList ++ d.chars) = true := by
    have hstart : Text.startsWithIgnoringCase ("DELIMITER ".toList ++ d.chars)
        "DELIMITER ".toList = true := by
      rw [Text.startsWithIgnoringCase_eq, Text.foldCase_append, List.isPrefixOf_iff_prefix]
      exact List.prefix_append _ _
    rw [isDirective, Bool.or_eq_true]
    exact Or.inl hstart
  have hwords : newDelimiter? ("DELIMITER ".toList ++ d.chars) = some d := by
    have hline : "DELIMITER ".toList ++ d.chars = "DELIMITER".toList ++ ' ' :: d.chars := rfl
    have hchars : Text.words d.chars = [d.first :: d.more] :=
      Text.words_of_solid (List.cons_ne_nil _ _) hd
    rw [newDelimiter?, hline, Text.words_append_cons (by decide),
      Text.words_of_solid (by decide) (by decide), hchars]
    rfl
  have hall : ∀ c ∈ "ELIMITER ".toList ++ d.chars, (c != '\n') = true := by
    intro c hc
    rw [bne_iff_ne]
    rintro rfl
    rcases List.mem_append.1 hc with hc | hc
    · revert hc
      decide
    · exact absurd (hd _ hc) (by decide)
  have hline : "DELIMITER ".toList ++ d.chars = 'D' :: ("ELIMITER ".toList ++ d.chars) := rfl
  rw [hline] at hdirective hwords ⊢
  rw [run_cons, step, hdirective, h, Bool.and_self, if_pos rfl, List.takeWhile_eq_self_iff.2 hall,
    List.dropWhile_eq_nil_iff.2 hall, direct, hwords, run_nil]
  rfl

/-- At its delimiter a scanner ends a statement. -/
theorem run_delimiter {s : Scanner} (h : s.expectsDirective = false) (hmode : s.mode = .normal) :
    s.run s.delimiter.chars = (s.statement?.toList, { s.restart with atLineStart := false }) := by
  have hstrip : Text.stripStart? s.delimiter.chars (s.delimiter.first :: s.delimiter.more) =
      some [] :=
    Text.stripStart?_eq_some_iff.2 (List.append_nil _).symm
  have hstep : s.step s.delimiter.first s.delimiter.more =
      ⟨s.statement?, { s.restart with atLineStart := false }, []⟩ := by
    rw [step, h, Bool.and_false, if_neg Bool.false_ne_true, if_pos hmode, stepNormal, hstrip]
  rw [Delimiter.chars, run_cons, hstep, run_nil, List.append_nil]

/-- The line of a text is read with the newline behind it. -/
theorem run_line {s s' : Scanner} {a : List Char} {found : List Statement}
    (hd : '\n' ∉ s.delimiter.chars) (h : s.run a = (found, s')) :
    s.run (a ++ ['\n']) = (found, s'.newline) := by
  rw [run_append_newline hd, h, run_nil, List.append_nil]

/-- Whether a scanner stands at the beginning of a line outside quotes and comments, with a
delimiter in force and nothing read since the last one but the newline behind it. -/
structure IsOpened (s : Scanner) (d : Delimiter) : Prop where
  delimiter : s.delimiter = d
  mode : s.mode = .normal
  text : s.text = ['\n']
  atLineStart : s.atLineStart = true

theorem isOpened_newline {s : Scanner} (hmode : s.mode = .normal) (hs : s.pending = []) :
    s.newline.IsOpened s.delimiter := by
  refine ⟨rfl, ?_, ?_, rfl⟩
  · rw [newline, hmode]
    rfl
  · rw [text, newline, push, hs]
    rfl

variable {s : Scanner} {d : Delimiter}

theorem IsOpened.expectsDirective (h : s.IsOpened d) : s.expectsDirective = true := by
  have hcontent : hasContent ['\n'] = false := hasContent_of_allBlank (by decide)
  rw [Scanner.expectsDirective, h.mode, h.atLineStart, h.text, hcontent]
  rfl

theorem IsOpened.atWord (h : s.IsOpened d) : s.AtWord := by
  intro _ c hc
  rw [← List.getLast?_reverse, ← Scanner.text, h.text] at hc
  cases hc
  rfl

/-- A directive line opens the statements of its delimiter. -/
theorem exists_run_directiveLine (h : s.expectsDirective = true) (hs : '\n' ∉ s.delimiter.chars)
    (hmode : s.mode = .normal) (hd : ∀ c ∈ d.chars, Text.isBlank c = false) :
    ∃ s' : Scanner, s'.IsOpened d ∧ s'.firstLine = s.line ∧
      s.run ("DELIMITER ".toList ++ d.chars ++ ['\n']) = ([], s') :=
  ⟨_, isOpened_newline (s := { s.restart with delimiter := d }) hmode rfl, rfl,
    run_line hs (run_directive h hd)⟩

/-- The statement of a body between two newlines. -/
theorem statement?_of_text {b : List Char} (htext : s.text = '\n' :: (b ++ ['\n']))
    (hb : hasContent b = true) :
    s.statement? = some
      { text := String.ofList (Text.trim b)
        line := s.firstLine + 1 + countNewlines (b.takeWhile Text.isBlank) } := by
  have hcontent : hasContent s.text = true := by
    rw [htext, hasContent_newline_cons, hasContent_newline hb]
  have htrim : Text.trim ('\n' :: (b ++ ['\n'])) = Text.trim b :=
    Text.trim_append_blank (c := '\n') rfl b
  have htake : (b ++ ['\n']).takeWhile Text.isBlank = b.takeWhile Text.isBlank :=
    Text.takeWhile_append_of_not_allBlank (allBlank_of_hasContent hb) _
  have hblanks : ('\n' :: (b ++ ['\n'])).takeWhile Text.isBlank =
      '\n' :: b.takeWhile Text.isBlank := by
    rw [List.takeWhile_cons_of_pos rfl, htake]
  rw [statement?, hcontent, if_pos rfl, htext, htrim, hblanks, countNewlines, List.count_cons_self,
    countNewlines]
  congr 2
  omega

/-- What closes its quotes and comments and holds neither a directive nor the delimiter is read as
far as the end of its last line. -/
theorem IsOpened.exists_extends {b : List Char} (h : s.IsOpened d) (hd : '\n' ∉ d.chars)
    (hclosed : IsClosed (b ++ ['\n'])) (hword : ¬ HasDirectiveWord b)
    (hnot : ¬ d.chars <:+: b) :
    ∃ s', s.Extends s' (b ++ ['\n']) ∧ s'.mode = .normal ∧ s.run (b ++ ['\n']) = ([], s') := by
  have hplain : Undirected s.text (b ++ ['\n'] ++ []) := by
    refine undirected_of_not_hasDirectiveWord fun hx => ?_
    rw [h.text, List.append_nil] at hx
    rcases HasDirectiveWord.of_append_newline (a := []) hx with hx | hx
    · exact not_hasDirectiveWord_nil hx
    · rcases hx.of_append_newline with hx | hx
      · exact hword hx
      · exact not_hasDirectiveWord_nil hx
  have hcut : ∀ x y, b ++ ['\n'] = x ++ y → y ≠ [] → Mode.normal.after x = .normal →
      ¬ s.delimiter.chars <+: y ++ [] := by
    intro x y hxy hy _ hpre
    obtain ⟨z, rfl, rfl⟩ := Token.exists_append_newline hxy hy
    rw [List.append_nil, h.delimiter] at hpre
    exact hnot ((Token.prefix_of_prefix_newline hpre hd).isInfix.trans
      (List.suffix_append x z).isInfix)
  obtain ⟨s', he, hmode, -, hrun⟩ :=
    Scanner.exists_extends [] h.mode h.atWord (by simp) hplain hcut
  rw [isClosed_iff_after.1 hclosed] at hmode
  rw [List.append_nil, run_nil] at hrun
  exact ⟨s', he, hmode, hrun⟩

/-- **A body and the delimiter on a line of its own are one statement**, behind which the scanner is
where it was. -/
theorem IsOpened.exists_run_body {b : List Char} (h : s.IsOpened d) (hd : '\n' ∉ d.chars)
    (hcontent : hasContent b = true) (hclosed : IsClosed (b ++ ['\n']))
    (hword : ¬ HasDirectiveWord b) (hnot : ¬ d.chars <:+: b) :
    ∃ s' : Scanner, s'.IsOpened d ∧ s.run (b ++ ['\n'] ++ (d.chars ++ ['\n'])) =
      ([{ text := String.ofList (Text.trim b)
          line := s.firstLine + 1 + countNewlines (b.takeWhile Text.isBlank) }], s') := by
  obtain ⟨t, he, hmode, hrun⟩ := h.exists_extends hd hclosed hword hnot
  have htext : t.text = '\n' :: (b ++ ['\n']) := by rw [he.text, h.text]; rfl
  have hdelimiter : t.delimiter = d := he.delimiter.trans h.delimiter
  -- behind content the delimiter is no directive, whatever it looks like
  have hexpects : t.expectsDirective = false := by
    rw [Scanner.expectsDirective, htext, hasContent_newline_cons, hasContent_newline hcontent,
      Bool.not_true, Bool.and_false]
  have hend := run_line (hdelimiter.symm ▸ hd) (run_delimiter hexpects hmode)
  rw [hdelimiter, statement?_of_text htext hcontent, he.firstLine] at hend
  refine ⟨_, hdelimiter ▸ isOpened_newline (s := { t.restart with atLineStart := false }) hmode rfl,
    ?_⟩
  rw [run_append_of_run (h.delimiter.symm ▸ hd) (by simp) hrun, hend]
  rfl

/-- **A block is one statement**, behind which a scanner is at rest. -/
theorem exists_run_delimiterBlock {b : List Char} (hd : ∀ c ∈ d.chars, Text.isBlank c = false)
    (hcontent : hasContent b = true) (hclosed : IsClosed (b ++ ['\n']))
    (hword : ¬ HasDirectiveWord b) (hnot : ¬ d.chars <:+: b) :
    ∃ s : Scanner, s.IsAtRest ∧ ({} : Scanner).run
        ("DELIMITER ".toList ++ d.chars ++ ['\n'] ++ (b ++ ['\n'] ++ (d.chars ++ ['\n']) ++
          ("DELIMITER ".toList ++ Delimiter.semicolon.chars ++ ['\n']))) =
      ([{ text := String.ofList (Text.trim b)
          line := 2 + countNewlines (b.takeWhile Text.isBlank) }], s) := by
  have hnewline : '\n' ∉ d.chars := fun hmem => absurd (hd _ hmem) (by decide)
  obtain ⟨s₁, hs₁, hline, hfirst⟩ := exists_run_directiveLine (s := {})
    (by decide +kernel) (by decide) rfl hd
  obtain ⟨s₂, hs₂, hbody⟩ := hs₁.exists_run_body hnewline hcontent hclosed hword hnot
  obtain ⟨s₃, hs₃, -, hlast⟩ := exists_run_directiveLine (d := .semicolon) hs₂.expectsDirective
    (hs₂.delimiter.symm ▸ hnewline) hs₂.mode (by decide)
  have hbodyEnd : (b ++ ['\n'] ++ (d.chars ++ ['\n'])).getLast? = some '\n' := by
    rw [← List.append_assoc, List.getLast?_concat]
  refine ⟨s₃, ⟨hs₃.delimiter, hs₃.mode, by rw [hs₃.text]; rfl⟩, ?_⟩
  rw [run_append_of_run (by decide) List.getLast?_concat hfirst,
    run_append_of_run (hs₁.delimiter.symm ▸ hnewline) hbodyEnd hbody, hlast, hline]
  rfl

end Scanner

theorem toList_delimiterBlock (delimiter body : String) :
    (delimiterBlock delimiter body).toList =
      "DELIMITER ".toList ++ delimiter.toList ++ ['\n'] ++
        (body.toList ++ ['\n'] ++ (delimiter.toList ++ ['\n']) ++
          ("DELIMITER ".toList ++ Delimiter.semicolon.chars ++ ['\n'])) := by
  change ("DELIMITER " ++ delimiter ++ "\n" ++ body ++ "\n" ++ delimiter ++
    "\nDELIMITER ;\n").toList = _
  simp only [String.toList_append, List.append_assoc]
  rfl

/-- **Blocks with a delimiter of their own are honoured.** Let a delimiter be a text without
blanks, and a body a text that has content, closes its quotes and comments, at the latest at the
end of its last line, and holds neither a directive nor the delimiter. The body makes up one
statement, whatever semicolons are in it, and what stands behind the block has the statements that
it has alone, on lines further down. -/
theorem statements_delimiterBlock {delimiter body : String} (hne : delimiter ≠ "")
    (hblank : ∀ c ∈ delimiter.toList, Text.isBlank c = false)
    (hcontent : hasContent body.toList = true) (hclosed : IsClosed (body.toList ++ ['\n']))
    (hword : ¬ HasDirectiveWord body.toList) (hnot : ¬ delimiter.toList <:+: body.toList)
    (rest : String) :
    statements (delimiterBlock delimiter body ++ rest) =
      { text := Text.trimmed body
        line := 2 + countNewlines (body.toList.takeWhile Text.isBlank) } ::
      (statements rest).map (·.shift (countNewlines (delimiterBlock delimiter body).toList)) := by
  obtain ⟨first, more, hchars⟩ := List.exists_cons_of_ne_nil
    (fun hnil => hne (String.toList_eq_nil_iff.1 hnil))
  have hd : delimiter.toList = (⟨first, more⟩ : Delimiter).chars := hchars
  rw [hd] at hblank hnot
  obtain ⟨s, hs, hrun⟩ :=
    Scanner.exists_run_delimiterBlock hblank hcontent hclosed hword hnot
  rw [← hd, ← toList_delimiterBlock] at hrun
  have hend : (delimiterBlock delimiter body).toList.getLast? = some '\n' := by
    rw [toList_delimiterBlock, ← List.append_assoc, ← List.append_assoc, List.getLast?_concat]
  rw [statements, String.toList_append, statements_append_of_run hend hrun hs]
  rfl

/-- A body with semicolons in and outside quotes, a quote in a comment, and a comment at its end. -/
def quotedBody : String :=
  "\n  BEGIN SELECT \"';\"; /* ' */ END; -- delimiter"

/-- The delimiter may begin with a quote and go on like a comment. -/
theorem statements_delimiterBlock_quotedBody :
    "'--" ≠ "" ∧ (∀ c ∈ "'--".toList, Text.isBlank c = false) ∧
      hasContent quotedBody.toList = true ∧ IsClosed (quotedBody.toList ++ ['\n']) ∧
      ¬ HasDirectiveWord quotedBody.toList ∧ ¬ "'--".toList <:+: quotedBody.toList ∧
      statements (delimiterBlock "'--" quotedBody ++ "SELECT 1;\n;SELECT 2") =
        [⟨"BEGIN SELECT \"';\"; /* ' */ END; -- delimiter", 3⟩, ⟨"SELECT 1", 6⟩,
          ⟨"SELECT 2", 7⟩] := by
  have hblank : ∀ c ∈ "'--".toList, Text.isBlank c = false := by decide
  have hcontent : hasContent quotedBody.toList = true := by decide +kernel
  have hclosed : IsClosed (quotedBody.toList ++ ['\n']) := by
    rw [isClosed_iff_after]
    decide +kernel
  have hword : ¬ HasDirectiveWord quotedBody.toList := fun h =>
    absurd h.occursIn (by decide +kernel)
  have hnot : ¬ "'--".toList <:+: quotedBody.toList := by decide +kernel
  refine ⟨by decide, hblank, hcontent, hclosed, hword, hnot, ?_⟩
  rw [statements_delimiterBlock (by decide) hblank hcontent hclosed hword hnot]
  decide +kernel

end Script
end SchemaScript
