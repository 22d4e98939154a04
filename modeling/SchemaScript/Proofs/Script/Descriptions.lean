import SchemaScript.Proofs.Definition.SingleColumn
import SchemaScript.Proofs.Definition.Types
import SchemaScript.Proofs.Script.Accounts
import SchemaScript.Proofs.Script.TidyQuoted
import SchemaScript.Proofs.Script.Written

/-!
# A text as the description of a column

The script of a table whose only column has a comment is tidied, cut into statements, and read as
tokens twice, for the item of a body is printed before it is read. Cutting and reading do nothing
to the text of the comment: quotes protect it from the scanner, and a literal is read back from its
print. Tidying is what changes it.

The description is therefore the text as it is tidied between quotes, and the text itself exactly
if there is nothing in it that tidying looks for (`Contents.ofScript_commentScript`). If tidying
takes the closing quote away, then the statement is reported and there is no table.
-/

namespace SchemaScript

open Script Token TableDefinition

/-- The script of a table with a comment on its only column. -/
def commentScript (v : String) : String :=
  "CREATE TABLE t (a TEXT COMMENT " ++ Text.enclose '\'' v ++ ");"

/-- The table with a description of its only column. -/
def describedTable (v : String) : Table where
  name := "t"
  columns := [{ name := "a", dataType := "TEXT", description := some v }]

/-! ## Reading the statement -/

/-- The tokens of the column in front of the text of its comment. -/
def commentTokens : List Token :=
  [.word "a", .blank .space, .word "TEXT", .blank .space, .word "COMMENT", .blank .space]

theorem spaced_commentTokens {ts : List Token} (hts : Spaced ts) : Spaced (commentTokens ++ ts) := by
  have hword : ∀ w ∈ ["a", "TEXT", "COMMENT"], (word w).ReadsBack := by decide
  exact hts.behind_words hword

namespace Table

/-- **A column with a comment is read with the text of the comment as its description.** -/
theorem ofStatement_comment (v : String) :
    ofStatement ("CREATE TABLE t (a TEXT COMMENT " ++ Text.enclose '\'' v ++ ")") =
      .ok (describedTable v, []) := by
  let item : List Token := commentTokens ++ [.literal .plain v]
  let column : ColumnDefinition := { name := "a", dataType := "TEXT", comment := some v }
  have hspaced : Spaced item := spaced_commentTokens (spaced_atom (isAtom_plain v))
  have hclosed : Spaced (item ++ [.mark .closeParen]) :=
    hspaced.append (spaced_nil.cons rfl) (by simp [isSeparator])
  have hitem : IsItem item := rfl
  have hread : ColumnDefinition.ofTokens? item = some column :=
    ColumnDefinition.writesType_text.ofTokens? (t := .word "a") rfl
      (.next (Token.allBlank_singleton rfl)
        (.comment (by decide) (Token.allBlank_singleton rfl) rfl) (.done Token.allBlank_nil))
  have hbody : "CREATE TABLE t (a TEXT COMMENT " ++ Text.enclose '\'' v ++ ")" =
      "CREATE TABLE t (" ++ ("a TEXT COMMENT " ++ Text.enclose '\'' v ++ ")") := by
    rw [← String.append_assoc, ← String.append_assoc]
    rfl
  have hprint : ("a TEXT COMMENT " ++ Text.enclose '\'' v ++ ")").toList =
      printAll (item ++ [.mark .closeParen]) := by
    simp [item, commentTokens]
  have hdrop : item.dropWhile Token.isBlank = item := rfl
  have hreread : reread? item = some column := by
    rw [reread?, hdrop, Item.ofText?, hspaced.tokenize, Option.bind_some, Item.ofTokens?,
      if_pos (columnFirst_of_ofTokens? hread), hread]
    rfl
  rw [ofStatement, hbody, ofText_item (hprint ▸ hclosed.tokenize) hitem, ofItems_singleton hreread]
  rfl

end Table

/-- A text whose quote is not closed is no token. -/
theorem tokenize_quote_eq_none {cs : List Char} (h : Text.quoted? '\'' cs = none) :
    tokenize ('\'' :: cs) = none := by
  refine tokenize_eq_none ?_
  show scanLiteral? .plain cs = none
  rw [scanLiteral?, literalValue?, h]
  rfl

/-- A statement that breaks off in a comment is no list of tokens. -/
theorem tokenize_comment_eq_none {cs : List Char} (h : Text.quoted? '\'' cs = none) :
    tokenize ("CREATE TABLE t (a TEXT COMMENT ".toList ++ '\'' :: cs) = none := by
  have hprint : "CREATE TABLE t (a TEXT COMMENT ".toList ++ '\'' :: cs =
      printAll opening ++ (printAll commentTokens ++ '\'' :: cs) := by
    simp [opening, commentTokens]
  have hapart : Apart ('\'' :: cs) commentTokens := by
    have hspaced := spaced_commentTokens spaced_nil
    rw [List.append_nil] at hspaced
    exact hspaced.apart_of_getLast? rfl rfl _
  rw [hprint, tokenize_printAll_append (apart_opening _), tokenize_printAll_append hapart,
    tokenize_quote_eq_none h]
  rfl

/-! ## Cutting the script -/

namespace Script

/-- The script up to the quote in front of the comment. -/
def beforeComment : List Char :=
  "CREATE TABLE t (a TEXT COMMENT ".toList

theorem isPlainLine_beforeComment : IsPlainLine beforeComment where
  noMark := by decide
  noReturn := by decide
  noNewline := by decide
  noCollation := by decide +kernel
  noComment := by decide

theorem isPlainLine_behindComment : IsPlainLine [')', ';'] where
  noMark := by decide
  noReturn := by decide
  noNewline := by decide
  noCollation := by decide +kernel
  noComment := by decide

theorem toList_commentScript (v : String) :
    (commentScript v).toList =
      beforeComment ++ '\'' :: (Text.double '\'' v.toList ++ ['\'', ')', ';']) := by
  unfold commentScript beforeComment
  simp

/-- A statement with a comment is found in front of its semicolon. -/
theorem exists_statements_comment (v : String) :
    ∃ st : Statement, statements (commentScript v) = [st] ∧
      st.text = "CREATE TABLE t (a TEXT COMMENT " ++ Text.enclose '\'' v ++ ")" := by
  let w : String := "CREATE TABLE t (a TEXT COMMENT " ++ Text.enclose '\'' v ++ ")"
  have hend : ");" = ")" ++ ";" := rfl
  have hscript : commentScript v = w ++ ";" := by
    unfold commentScript
    rw [hend, ← String.append_assoc]
  have hsealed : IsSealed w.toList :=
    ((IsSealed.keyword "CREATE TABLE t (a TEXT COMMENT " rfl).string_append
      (IsSealed.enclose Mode.encloses_single v)).string_append (IsSealed.keyword ")" rfl)
  have hwritten : IsWritten w.toList := by
    refine ⟨hsealed, ⟨'C', ?_, Or.inl rfl⟩, ?_⟩
    · simp [w]
    · rw [String.toList_append, List.getLast?_append]
      exact fun c hc => Option.some.inj hc ▸ rfl
  have hcut : (statements ("\n\n".intercalate [w ++ ";"])).map (fun st => st.text ++ ";") =
      [w ++ ";"] :=
    texts_statements_intercalate (List.forall_mem_singleton.2 ⟨w, rfl, hwritten⟩)
  rw [String.intercalate_singleton, ← hscript] at hcut
  obtain ⟨st, hst, htext⟩ := List.map_eq_singleton_iff.1 hcut
  exact ⟨st, hst, (String.append_left_inj _).1 (htext.trans hscript)⟩

/-- A text that breaks off in a comment is one statement. -/
theorem exists_statements_unclosed {script : String} {x : List Char}
    (hscript : script.toList = beforeComment ++ '\'' :: Text.double '\'' x) :
    ∃ st : Statement, statements script = [st] ∧
      st.text.toList = beforeComment ++ '\'' :: Text.trimEnd (Text.double '\'' x) := by
  have hmode : Mode.normal.behind? script.toList = some .singleQuoted := by
    have hbefore : IsSealed beforeComment := IsSealed.of_inert rfl
    have hinside := Mode.encloses_single.double_append x []
    rw [List.append_nil, Mode.behind?_nil] at hinside
    rw [hscript, hbefore, Mode.encloses_single.open, hinside]
  have hplain : Undirected [] (script.toList ++ []) := by
    intro a b hab hb _
    rw [List.append_nil, hscript] at hab
    exact hasContent_of_isDirective_of_keyword (Or.inl rfl) hab hb
  obtain ⟨s, hs, hrun⟩ := Scanner.exists_isBehind hmode (s := {}) [] rfl rfl
    Scanner.isFresh_start.atWord (by simp) hplain
  have htext : s.text = script.toList := hs.text
  have hcontent : hasContent s.text = true := by
    rw [htext, hscript]
    exact hasContent_of_keyword (Or.inl rfl) _
  have htrim : Text.trim s.text =
      beforeComment ++ '\'' :: Text.trimEnd (Text.double '\'' x) := by
    have hsplit : beforeComment ++ '\'' :: Text.double '\'' x =
        (beforeComment ++ ['\'']) ++ Text.double '\'' x := by simp
    have hfirst : Text.Stops Text.isBlank (beforeComment ++ ['\'']) := Text.stops_cons.2 rfl
    rw [htext, hscript, hsplit, Text.trim_append_of_solid (by decide) hfirst (by decide),
      List.append_assoc, List.singleton_append]
  have hone : ∃ st, s.statement? = some st ∧ st.text = String.ofList (Text.trim s.text) := by
    rw [Scanner.statement?, if_pos hcontent]
    exact ⟨_, rfl, rfl⟩
  obtain ⟨st, hst, htrimmed⟩ := hone
  refine ⟨st, ?_, ?_⟩
  · rw [statements, ← List.append_nil script.toList, hrun, Scanner.statements_nil, hst,
      Option.toList_some]
  · rw [htrimmed, String.toList_ofList, htrim]

/-- A statement that breaks off in a comment is reported. -/
theorem exists_reported_unclosed {script : String} {x : List Char}
    (hscript : script.toList = beforeComment ++ '\'' :: Text.double '\'' x) :
    ∃ st : Statement, statements script = [st] ∧
      StatementKind.ofText st.text = .createTable ∧
      Table.ofStatement st.text = .error .notTokens := by
  obtain ⟨st, hst, htext⟩ := exists_statements_unclosed hscript
  obtain ⟨blanks, hblanks, hall⟩ := Text.exists_trimEnd_append (Text.double '\'' x)
  have hquote : '\'' ∉ blanks := by
    intro hmem
    have hblank := List.all_eq_true.1 hall _ hmem
    revert hblank
    decide
  have hnone : tokenize st.text.toList = none := by
    rw [htext]
    refine tokenize_comment_eq_none (Text.quoted?_eq_none_of_append hquote ?_)
    rw [← hblanks, Text.quoted?_double_eq_none]
  have hlooks : StatementKind.looksLikeCreateTable st.text.toList = true := by
    rw [htext]
    rfl
  refine ⟨st, hst, ?_, ?_⟩
  · rw [StatementKind.ofText, hnone]
    exact if_pos hlooks
  · rw [Table.ofStatement, TableDefinition.ofText, hnone]

end Script

/-! ## The description -/

namespace Contents

/-- A statement that a table is read from gives this table and nothing else. -/
theorem ofStatements_created {st : Statement} {t : Table}
    (h : Table.ofStatement st.text = .ok (t, [])) : ofStatements [st] = ⟨[t], [], []⟩ := by
  have hkind := StatementKind.ofText_of_ofStatement h
  simp [ofStatements, creations, addition?, droppedBy, Creation.table?, Creation.notices,
    Creation.outcome, hkind, h]

/-- A statement that should create a table and does not is reported. -/
theorem ofStatements_reported {st : Statement} {cause : Malformation}
    (hkind : StatementKind.ofText st.text = .createTable)
    (h : Table.ofStatement st.text = .error cause) :
    ofStatements [st] = ⟨[], [], [.skippedStatement 1 st.line cause]⟩ := by
  simp [ofStatements, creations, addition?, droppedBy, Creation.table?, Creation.notices,
    Creation.outcome, hkind, h]

section CommentScript

variable {v : String}

/-- The description is the text as it is tidied between quotes. -/
theorem ofScript_commentScript_of_keepsQuote (hreturn : '\r' ∉ v.toList)
    (h : KeepsQuote (lines v.toList)) :
    ofScript (commentScript v) =
      ⟨[describedTable (String.ofList (tidyQuoted v.toList))], [], []⟩ := by
  have htidy : tidy (commentScript v) = commentScript (String.ofList (tidyQuoted v.toList)) := by
    rw [← String.toList_inj, tidy, String.toList_ofList, toList_commentScript,
      tidyChars_quoted isPlainLine_beforeComment isPlainLine_behindComment hreturn h,
      toList_commentScript, String.toList_ofList]
  obtain ⟨st, hst, htext⟩ := exists_statements_comment (String.ofList (tidyQuoted v.toList))
  rw [ofScript, htidy, hst]
  refine ofStatements_created ?_
  rw [htext, Table.ofStatement_comment]

/-- A script that loses the closing quote has no table. -/
theorem exists_ofScript_commentScript (hreturn : '\r' ∉ v.toList)
    (h : ¬ KeepsQuote (lines v.toList)) :
    ∃ line, ofScript (commentScript v) = ⟨[], [], [.skippedStatement 1 line .notTokens]⟩ := by
  obtain ⟨x, hx⟩ := exists_tidyChars_quoted isPlainLine_beforeComment isPlainLine_behindComment
    hreturn h
  have htidy : (tidy (commentScript v)).toList = beforeComment ++ '\'' :: Text.double '\'' x := by
    rw [tidy, String.toList_ofList, toList_commentScript, ← hx]
  obtain ⟨st, hst, hkind, hnone⟩ := exists_reported_unclosed htidy
  refine ⟨st.line, ?_⟩
  rw [ofScript, hst]
  exact ofStatements_reported hkind hnone

end CommentScript

/-- **A comment is stored as it stands exactly if tidying finds nothing in it.** What is stored in
any case is the text as it is tidied between quotes, unless its closing quote is lost, and with it
the table. -/
theorem ofScript_commentScript (v : String) (hreturn : '\r' ∉ v.toList) :
    ((∃ t c, (ofScript (commentScript v)).tables = [t] ∧
        (ofScript (commentScript v)).notices = [] ∧
        t.columns = [c] ∧ c.description = some v) ↔ IsTidyQuoted v.toList) ∧
    (KeepsQuote (lines v.toList) ∧
        ofScript (commentScript v) =
          ⟨[describedTable (String.ofList (tidyQuoted v.toList))], [], []⟩ ∨
      ¬ KeepsQuote (lines v.toList) ∧
        ∃ line, ofScript (commentScript v) = ⟨[], [], [.skippedStatement 1 line .notTokens]⟩) := by
  refine ⟨?_, (em (KeepsQuote (lines v.toList))).imp
    (fun h => ⟨h, ofScript_commentScript_of_keepsQuote hreturn h⟩)
    fun h => ⟨h, exists_ofScript_commentScript hreturn h⟩⟩
  rw [isTidyQuoted_iff]
  constructor
  · rintro ⟨t, c, htables, -, hcolumns, hdescription⟩
    by_cases h : KeepsQuote (lines v.toList)
    · rw [ofScript_commentScript_of_keepsQuote hreturn h] at htables
      obtain rfl := (List.cons.inj htables).1
      obtain rfl := (List.cons.inj hcolumns).1
      have hself := congrArg String.toList (Option.some.inj hdescription)
      rw [String.toList_ofList] at hself
      exact ⟨h, hself⟩
    · obtain ⟨line, hlost⟩ := exists_ofScript_commentScript hreturn h
      rw [hlost] at htables
      cases htables
  · rintro ⟨h, hself⟩
    rw [ofScript_commentScript_of_keepsQuote hreturn h, hself, String.ofList_toList]
    exact ⟨_, _, rfl, rfl, rfl, rfl⟩

/-- A text with a quote, a number sign and a batch end in it, of which no line consists. -/
def notedText : String :=
  "it's #1;\nGO on\n"

theorem ofScript_commentScript_notedText :
    '\r' ∉ notedText.toList ∧
      (∃ t c, (ofScript (commentScript notedText)).tables = [t] ∧
        (ofScript (commentScript notedText)).notices = [] ∧
        t.columns = [c] ∧ c.description = some notedText) := by
  have hreturn : '\r' ∉ notedText.toList := by decide
  have htidy : IsTidyQuoted notedText.toList := by
    refine ⟨fun l hl => removeCollation_eq_self_iff.1 ?_, by decide +kernel, by decide +kernel⟩
    revert l
    decide +kernel
  exact ⟨hreturn, (ofScript_commentScript notedText hreturn).1.2 htidy⟩

/-- A line of the text that only says `GO` becomes a semicolon. -/
theorem ofScript_commentScript_batchLine :
    '\r' ∉ "a\nGO\nb".toList ∧
      ¬ ∃ t c, (ofScript (commentScript "a\nGO\nb")).tables = [t] ∧
        (ofScript (commentScript "a\nGO\nb")).notices = [] ∧
        t.columns = [c] ∧ c.description = some "a\nGO\nb" := by
  have hreturn : '\r' ∉ "a\nGO\nb".toList := by decide
  have hkeeps : KeepsQuote (lines "a\nGO\nb".toList) := by
    unfold KeepsQuote
    decide +kernel
  have hstored : String.ofList (tidyQuoted "a\nGO\nb".toList) = "a\n;\nb" := by decide +kernel
  refine ⟨hreturn, ?_⟩
  rintro ⟨t, c, htables, -, hcolumns, hdescription⟩
  rw [ofScript_commentScript_of_keepsQuote hreturn hkeeps, hstored] at htables
  obtain rfl := (List.cons.inj htables).1
  obtain rfl := (List.cons.inj hcolumns).1
  revert hdescription
  decide

end Contents
end SchemaScript
