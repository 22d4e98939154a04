import SchemaScript.Proofs.Definition.SingleColumn
import SchemaScript.Proofs.Script.AdditionStatements
import SchemaScript.Proofs.Script.Spellings
import SchemaScript.Proofs.Text.Unqualified

/-!
# Names of dropped and created tables

A statement that creates a table and one that drops it read the name of the table in the same way:
from its tokens, the last part without quotes (`Naming.Spells.run_qualifiedName`). For a dropped
table the last part of this name is taken once more, now from its text, so that the table
`"a.b"` is created under this name and dropped as `b`. The two names are equal exactly if the name
that was read is simple, that is, if it does not look qualified or quoted itself
(`Naming.dropsCreated_iff`).

Only where a spelling begins with the bare word `IF` no table is created, since the word is taken
for the beginning of a condition.
-/

namespace SchemaScript

open Token Reader Naming

variable {q : String} {cs : List Char} {ts : List Token} {n : String}

/-! ## Dropping a table -/

namespace StatementKind

/-- The tokens in front of the names of dropped tables. -/
def dropTokens : List Token :=
  wordTokens ["DROP", "TABLE", "IF", "EXISTS"]

theorem apart_dropTokens (rest : List Char) : Apart rest dropTokens := by
  have hword : ∀ w ∈ ["DROP", "TABLE", "IF", "EXISTS"], (Token.word w).ReadsBack := by decide
  exact apart_wordTokens hword rest

theorem tokenize_dropTable (h : Spells q.toList ts n) :
    tokenize ("DROP TABLE IF EXISTS " ++ q).toList = some (dropTokens ++ ts) := by
  have htext : ("DROP TABLE IF EXISTS " ++ q).toList = printAll dropTokens ++ q.toList := by
    simp [dropTokens, wordTokens]
  have hname : tokenize q.toList = some ts := by
    have hend : EndsName [] := by simp [EndsName]
    have hq := h.tokenize_append hend
    rwa [List.append_nil, tokenize_nil, Option.map_some, List.append_nil] at hq
  rw [htext, tokenize_printAll_append (apart_dropTokens _), hname]
  rfl

/-- A name in a list of dropped tables that nothing stands behind. -/
theorem run_dropRound (h : Spells cs ts n) (names : List String) :
    (dropRound names).run ts = (some (.inr (names ++ [unqualified n])), []) := by
  have hname : qualifiedName.run ts = (some n, []) := by
    have hrun : qualifiedName.run (ts ++ []) = (some n, []) := h.run_qualifiedName rfl
    rwa [List.append_nil] at hrun
  rw [dropRound, run_bind_of_some hname]
  rfl

theorem run_dropReader (h : Spells cs ts n) :
    dropReader.run (.word "TABLE" :: .blank .space :: .word "IF" :: .blank .space ::
        .word "EXISTS" :: .blank .space :: ts) = (some [unqualified n], []) := by
  have hts : ts.dropWhile Token.isBlank = ts := by
    have hdrop := h.dropWhile_isBlank []
    rwa [List.append_nil] at hdrop
  rw [dropReader, run_bind_of_some (run_keyword_of_pos (by decide) _), dropWhile_isBlank_blank,
    dropWhile_isBlank_cons rfl, run_bind_of_some (run_keyword_of_pos (by decide) _),
    dropWhile_isBlank_blank, dropWhile_isBlank_cons rfl,
    run_bind_of_some (run_keyword_of_pos (by decide) _), dropWhile_isBlank_blank, hts]
  exact run_loop_inr (run_dropRound h [])

/-- What is found behind the word `DROP` settles the kind. -/
theorem run_reader_drop {t : Token} {ts rest : List Token} {names : List String}
    (ht : t.isBlank = false) (h : dropReader.run (t :: ts) = (some names, rest)) :
    reader.run (.word "DROP" :: .blank .space :: t :: ts) = (some (.dropTables names), rest) := by
  rw [reader, run_bind_of_some (run_skipBlanks _), dropWhile_isBlank_cons rfl,
    run_bind_of_some (TableDefinition.run_skipExistenceGuard (by decide) _),
    run_bind_of_some (run_possibly_of_eq (run_keyword_of_neg (by decide) _)),
    run_bind_of_some (run_possibly_of_eq (run_keyword_of_neg (by decide) _)),
    run_bind_of_some (run_possibly_of_eq (run_keyword_of_pos (by decide) _)),
    dropWhile_isBlank_blank, dropWhile_isBlank_cons ht]
  exact run_orOther h .dropTables

/-- A table is dropped under the last part of the name that is read. -/
theorem ofText_dropTable (h : Spells q.toList ts n) :
    ofText ("DROP TABLE IF EXISTS " ++ q) = .dropTables [unqualified n] := by
  rw [ofText, tokenize_dropTable h]
  show (reader.run (dropTokens ++ ts)).1.getD .other = _
  simp only [dropTokens, wordTokens, List.cons_append, List.nil_append]
  rw [run_reader_drop rfl (run_dropReader h)]
  rfl

end StatementKind

/-! ## Creating a table -/

namespace Table

/-- The tokens in front of the name of a created table. -/
def createTokens : List Token :=
  wordTokens ["CREATE", "TABLE"]

/-- The tokens of a column. -/
def columnItem : List Token :=
  [.word "id", .blank .space, .word "INT"]

/-- The tokens behind the name of a table with one column. -/
def columnTokens : List Token :=
  [.blank .space] ++ .mark .openParen :: (columnItem ++ [.mark .closeParen])

theorem apart_createTokens (rest : List Char) : Apart rest createTokens := by
  have hword : ∀ w ∈ ["CREATE", "TABLE"], (Token.word w).ReadsBack := by decide
  exact apart_wordTokens hword rest

theorem tokenize_createTable (h : Spells q.toList ts n) :
    tokenize ("CREATE TABLE " ++ q ++ " (id INT)").toList =
      some (createTokens ++ (ts ++ columnTokens)) := by
  have htext : ("CREATE TABLE " ++ q ++ " (id INT)").toList =
      printAll createTokens ++ (q.toList ++ " (id INT)".toList) := by
    simp [createTokens, wordTokens]
  have hcolumn : tokenize " (id INT)".toList = some columnTokens := by decide +kernel
  have hspace : EndsName " (id INT)".toList := fun c hc => Or.inl (Option.some.inj hc).symm
  rw [htext, tokenize_printAll_append (apart_createTokens _), h.tokenize_append hspace, hcolumn]
  rfl

/-- The statement defines its only column. -/
theorem ofText_createTable (h : Spells q.toList ts n)
    (hif : ts.head?.any (Token.isKeyword "IF") = false) :
    TableDefinition.ofText ("CREATE TABLE " ++ q ++ " (id INT)") =
      .ok ⟨n, [{ name := "id", dataType := "INT" }], [], []⟩ := by
  have hname : qualifiedName.run (ts ++ columnTokens) = (some n, columnTokens) :=
    h.run_qualifiedName rfl
  obtain ⟨t, us, rfl, ht, -⟩ := h.exists_cons
  have hheader : TableDefinition.header.run
      ((createTokens ++ (t :: us ++ columnTokens)).dropWhile Token.isBlank) =
        (some (), t :: us ++ columnTokens) :=
    TableDefinition.run_header ht hif _
  have hitem : ∀ item ∈ [columnItem], IsItem item := by decide
  have hitems : TableDefinition.bodyItems?
      ((columnItem ++ [Token.mark .closeParen]).dropWhile Token.isBlank) =
        some ([columnItem], []) :=
    TableDefinition.bodyItems?_intercalate (List.cons_ne_nil _ _) hitem []
  have hcolumn : (TableDefinition.Item.ofText? (printAll columnItem)).bind
      TableDefinition.Item.column? = some { name := "id", dataType := "INT" } := by
    decide +kernel
  rw [TableDefinition.ofText, tokenize_createTable h]
  show TableDefinition.ofTokens _ = _
  rw [TableDefinition.ofTokens_of_qualifiedName hheader hname rfl, hitems]
  exact congrArg Except.ok (TableDefinition.ofItems_singleton hcolumn)

/-- Where its name begins with the word `IF` the statement has no header. -/
theorem ofText_createTable_if (h : Spells q.toList ts n)
    (hif : ts.head?.any (Token.isKeyword "IF") = true) :
    TableDefinition.ofText ("CREATE TABLE " ++ q ++ " (id INT)") = .error .noHeader := by
  obtain ⟨t, us, rfl, ht, hus⟩ := h.exists_cons
  have hbare : t.bareWord? ≠ none := by
    cases t <;> first | exact Option.some_ne_none _ | cases hif
  -- the word is followed by the period of a qualified name or by the column
  obtain ⟨u, vs, hnext, hnot⟩ : ∃ u vs,
      (us ++ columnTokens).dropWhile Token.isBlank = u :: vs ∧ u.isKeyword "NOT" = false := by
    rcases hus.resolve_left hbare with rfl | ⟨vs, rfl⟩
    · exact ⟨_, _, rfl, rfl⟩
    · exact ⟨_, _, rfl, rfl⟩
  have hheader : TableDefinition.header.run
      ((createTokens ++ (t :: us ++ columnTokens)).dropWhile Token.isBlank) = (none, u :: vs) :=
    TableDefinition.run_header_if ht hif hnext hnot
  rw [TableDefinition.ofText, tokenize_createTable h]
  show TableDefinition.ofTokens _ = _
  simp only [TableDefinition.ofTokens, hheader]

/-- A table is created under the name that is read. -/
theorem name_ofStatement_createTable (h : Spells q.toList ts n) :
    (ofStatement ("CREATE TABLE " ++ q ++ " (id INT)")).map (fun found => found.1.name) =
      if ts.head?.any (Token.isKeyword "IF") then .error .noHeader else .ok n := by
  cases hif : ts.head?.any (Token.isKeyword "IF") with
  | true =>
    rw [ofStatement, ofText_createTable_if h hif]
    rfl
  | false =>
    rw [ofStatement, ofText_createTable h hif]
    rfl

end Table

/-! ## The two names -/

namespace Naming

/-- **A table is dropped under the name that it is created under exactly if this name is simple.**
From any spelling the two statements read the same name. It is the name of the created table,
unless the spelling begins with the bare word `IF`, and its last part is the name of the dropped
one. -/
theorem dropsCreated_iff (h : Spells q.toList ts n) :
    StatementKind.ofText ("DROP TABLE IF EXISTS " ++ q) = .dropTables [unqualified n] ∧
    (Table.ofStatement ("CREATE TABLE " ++ q ++ " (id INT)")).map (fun found => found.1.name) =
      (if ts.head?.any (Token.isKeyword "IF") then .error .noHeader else .ok n) ∧
    ((∃ name, StatementKind.ofText ("DROP TABLE IF EXISTS " ++ q) = .dropTables [name] ∧
        (Table.ofStatement ("CREATE TABLE " ++ q ++ " (id INT)")).map (fun found => found.1.name) =
          .ok name) ↔
      ts.head?.any (Token.isKeyword "IF") = false ∧ IsSimple n) := by
  have hdrop := StatementKind.ofText_dropTable h
  have hcreate := Table.name_ofStatement_createTable h
  refine ⟨hdrop, hcreate, ?_⟩
  rw [hdrop, hcreate, ← unqualified_eq_self_iff]
  cases ts.head?.any (Token.isKeyword "IF") with
  | true => simp
  | false => simp [eq_comm]

/-- A qualified name in brackets, with a blank in it. -/
theorem dropsCreated_orderDetails :
    Spells "dbo.[order details]".toList
      [.word "dbo", .mark .period, .mark .openBracket, .word "order", .blank .space,
        .word "details", .mark .closeBracket] "order details" ∧
    ∃ name,
      StatementKind.ofText ("DROP TABLE IF EXISTS " ++ "dbo.[order details]") =
        .dropTables [name] ∧
      (Table.ofStatement ("CREATE TABLE " ++ "dbo.[order details]" ++ " (id INT)")).map
        (fun found => found.1.name) = .ok name := by
  have hschema : SpellsPart "dbo".toList [.word "dbo"] "dbo" := .word (by decide +kernel)
  have hbracketed : SpellsPart ('[' :: ("order details".toList ++ [']']))
      (.mark .openBracket :: ([.word "order", .blank .space, .word "details"] ++
        [.mark .closeBracket]))
      (bracketedName [.word "order", .blank .space, .word "details"]) :=
    .bracketed (by decide +kernel) (by decide)
  have hspells : Spells "dbo.[order details]".toList
      [.word "dbo", .mark .period, .mark .openBracket, .word "order", .blank .space,
        .word "details", .mark .closeBracket] "order details" :=
    .qualified hschema (.part hbracketed)
  exact ⟨hspells, (dropsCreated_iff hspells).2.2.2
    ⟨by decide +kernel, unqualified_eq_self_iff.1 (by decide +kernel)⟩⟩

/-- The table `"a.b"` is created under this name and dropped as `b`. -/
theorem dropsCreated_quotedPeriod :
    Spells "\"a.b\"".toList [.quotedWord .double "a.b"] "a.b" ∧
    StatementKind.ofText ("DROP TABLE IF EXISTS " ++ "\"a.b\"") = .dropTables ["b"] ∧
    (Table.ofStatement ("CREATE TABLE " ++ "\"a.b\"" ++ " (id INT)")).map
      (fun found => found.1.name) = .ok "a.b" := by
  have hspells : Spells "\"a.b\"".toList [.quotedWord .double "a.b"] "a.b" :=
    .part (.quoted .double "a.b")
  exact ⟨hspells, StatementKind.ofText_dropTable hspells,
    Table.name_ofStatement_createTable hspells⟩

end Naming
end SchemaScript
