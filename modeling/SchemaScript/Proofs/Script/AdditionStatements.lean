import SchemaScript.Proofs.Definition.Header
import SchemaScript.Proofs.Render.Names
import SchemaScript.Proofs.Token.Values
import SchemaScript.Render.Table
import SchemaScript.Script.Kind

/-!
# Statements that add to a table are read back

Where indexes and descriptions are not part of a table, they are rendered as statements of their
own. Such a statement is told by its words, and gives the addition that it was rendered for:
`StatementKind.ofText_renderedStatement` for indexes, `StatementKind.ofText_descriptionStatement`
for descriptions.

In PostgreSQL the name of the table stands in quotes and a description in an escaped string, with
quotes and backslashes in them doubled. Neither is the print of its token, which doubles nothing,
so these two are pieces of their own between tokens that are printed (`Token.tokenize_piece`).
All other names are words, and none of the words around them is taken for a name or the other way
round: what stands at the place of a name is read as one, with the exception of the word `IF` in
front of the name of an index.
-/

namespace SchemaScript

open Reader

namespace Token

/-! ## Pieces -/

/-- A piece of text between tokens is read as a token of its own. -/
theorem tokenize_piece {ts us : List Token} {t : Token} {w rest : List Char}
    (hts : Apart (w ++ rest) ts) (hw : scan? (w ++ rest) = some (t, rest))
    (hus : tokenize rest = some us) :
    tokenize (printAll ts ++ (w ++ rest)) = some (ts ++ t :: us) := by
  rw [tokenize_printAll_append hts, tokenize_of_scan? hw, hus]
  rfl

/-- A table name is read back in front of what ends words. In quotes it may hold anything. -/
theorem scan?_quoteTable {d : Dialect} {table : String} (hd : d.isMySqlFamily = false)
    (htable : d = .postgresql ∨ Naming.isWord table = true) {c : Char} (hc : endsWord c = true)
    (rest : List Char) :
    scan? ((d.quoteTable table).toList ++ c :: rest) = some (d.tableToken table, c :: rest) := by
  by_cases hpostgresql : d = .postgresql
  · subst hpostgresql
    have hquote : (c :: rest).head? ≠ some '"' := by
      rintro hx
      cases hx
      revert hc
      decide
    exact scan?_enclose .double table hquote
  · have hatom := isAtom_word_of_isWord (htable.resolve_left hpostgresql)
    have hsame : d.quoteTable table = table := by
      cases d with
      | sqlite | sqlserver => rfl
      | postgresql => exact absurd rfl hpostgresql
      | mysql | mariadb => cases hd
    have htoken : d.tableToken table = .word table := by
      rw [Dialect.tableToken, hd, if_neg Bool.false_ne_true, if_neg hpostgresql]
    rw [hsame, htoken]
    exact hatom.readsBack.scan?_append (follows_word hc)

/-! ## Escaped strings -/

/-- Quotes and backslashes that are doubled are read back in an escaped string. -/
theorem escaped?_double (v : List Char) {rest : List Char} (hrest : rest.head? ≠ some '\'') :
    escaped? (Text.double '\\' (Text.double '\'' v) ++ '\'' :: rest) = some (v, rest) := by
  induction v with
  | nil =>
    rw [Text.double_nil, Text.double_nil, List.nil_append]
    cases rest with
    | nil => rw [escaped?, if_pos rfl]
    | cons d rest =>
      have hd : d ≠ '\'' := by simpa using hrest
      rw [escaped?, if_pos rfl]
      simp only [if_neg hd]
  | cons c v ih =>
    by_cases hquote : c = '\''
    · subst hquote
      rw [Text.double_quote, Text.double_cons_of_ne (by decide), Text.double_cons_of_ne (by decide),
        List.cons_append, List.cons_append, escaped?, if_pos rfl]
      simp only [if_true, ih]
      rfl
    rw [Text.double_cons_of_ne hquote]
    by_cases hbackslash : c = '\\'
    · subst hbackslash
      rw [Text.double_quote, List.cons_append, List.cons_append,
        escaped?_of_escape? (e := '\\') rfl, if_neg (by decide), ih]
      rfl
    · rw [Text.double_cons_of_ne hbackslash, List.cons_append,
        escaped?_of_ne hquote hbackslash, ih]
      rfl

/-- A text as a literal of PostgreSQL is read back. -/
theorem scan?_stringLiteral (text : String) {rest : List Char} (hrest : rest.head? ≠ some '\'') :
    scan? ((Dialect.postgresql.stringLiteral text).toList ++ rest) =
      some (literal .escaped text, rest) := by
  have hliteral : (Dialect.postgresql.stringLiteral text).toList ++ rest =
      'E' :: '\'' :: (Text.double '\\' (Text.double '\'' text.toList) ++ '\'' :: rest) := by
    simp [Dialect.escapesBackslash]
  rw [hliteral, scan?_of_isWordStart (by decide)]
  simp [scanLetter?, literalStart?, scanLiteral?, literalValue?, escaped?_double _ hrest]

end Token

open Token

/-! ## Indexes -/

namespace Index

/-- The tokens of the condition that an index does not exist, where the dialect has it. -/
def guardTokens (d : Dialect) : List Token :=
  if d.hasConditionalIndexes then
    [.word "IF", .blank .space, .word "NOT", .blank .space, .word "EXISTS", .blank .space]
  else []

/-- The tokens between the word `CREATE` and the name of the table. -/
def frontTokens (d : Dialect) (i : Index) (n : String) : List Token :=
  (if i.unique then [.word "UNIQUE", .blank .space] else []) ++
    .word "INDEX" :: .blank .space ::
      (guardTokens d ++ [.word n, .blank .space, .word "ON", .blank .space])

/-- The tokens behind the name of the table, with some tokens behind the parenthesis at the end. -/
def backTokens (i : Index) (behind : List Token) : List Token :=
  .blank .space :: .mark .openParen ::
    (nameTokens .word i.columns ++ .mark .closeParen :: behind)

variable {d : Dialect} {table n : String} {i : Index} {behind : List Token}

/-- The text of an index is made up of tokens and the name of its table. -/
theorem toList_renderedStatement (hd : d.isMySqlFamily = false) (hn : i.name = some n)
    (table : String) : (i.renderedStatement d table).toList =
      printAll (.word "CREATE" :: .blank .space :: i.frontTokens d n) ++
        ((d.quoteTable table).toList ++ printAll (i.backTokens [.mark .semicolon])) := by
  have hplain (m : String) : d.quoteColumn m = m := by
    rw [Dialect.quoteColumn, hd]
    rfl
  have hcolumns : printAll (nameTokens .word i.columns) = (d.quoteColumns i.columns).toList :=
    printAll_nameTokens_of_print fun m _ => by rw [hplain]; rfl
  unfold renderedStatement
  rw [hn, Option.getD_some, hplain, uniqueWord, frontTokens, guardTokens, backTokens]
  cases i.unique <;> cases d.hasConditionalIndexes <;> simp [hcolumns]

/-- The words around the names of an index. -/
def statementWords : List String :=
  ["CREATE", "UNIQUE", "INDEX", "IF", "NOT", "EXISTS", "ON"]

theorem isAtom_statementWord {w : String} (hw : w ∈ statementWords) : (Token.word w).IsAtom := by
  have hall : ∀ w ∈ statementWords, (Token.word w).ReadsBack := by decide
  exact isAtom_word (hall w hw)

theorem spaced_frontTokens (hn : Naming.isWord n = true) :
    Spaced (.word "CREATE" :: .blank .space :: i.frontTokens d n) := by
  have hatom {w : String} (hw : w ∈ statementWords) : (Token.word w).IsAtom :=
    isAtom_statementWord hw
  have hname : Spaced [.word n, .blank .space, .word "ON", .blank .space] :=
    (spaced_nil.atom_space (hatom (w := "ON") (by decide))).atom_space (isAtom_word_of_isWord hn)
  have hguard :
      Spaced (guardTokens d ++ [.word n, .blank .space, .word "ON", .blank .space]) := by
    unfold guardTokens
    split
    · exact ((hname.atom_space (hatom (w := "EXISTS") (by decide))).atom_space
        (hatom (w := "NOT") (by decide))).atom_space (hatom (w := "IF") (by decide))
    · exact hname
  have hindex := hguard.atom_space (hatom (w := "INDEX") (by decide))
  refine Spaced.atom_space ?_ (hatom (by decide))
  rw [frontTokens]
  split
  · exact hindex.atom_space (hatom (w := "UNIQUE") (by decide))
  · exact hindex

theorem spaced_backTokens (hcolumns : ∀ c ∈ i.columns, Naming.isWord c = true)
    (hbehind : Spaced behind) : Spaced (i.backTokens behind) := by
  have hnames : Spaced (nameTokens .word i.columns) :=
    spaced_nameTokens_of_isAtom fun c hc => isAtom_word_of_isWord (hcolumns c hc)
  exact ((hnames.between rfl hbehind).cons rfl).cons rfl

/-- The tokens of an index, with or without its semicolon. -/
theorem exists_tokenize_renderedStatement (hd : d.isMySqlFamily = false) (hn : i.name = some n)
    (hname : Naming.isWord n = true) (hcolumns : ∀ c ∈ i.columns, Naming.isWord c = true)
    (htable : d = .postgresql ∨ Naming.isWord table = true) {text : String}
    (htext : i.renderedStatement d table = text ∨ i.renderedStatement d table = text ++ ";") :
    ∃ behind, tokenize text.toList = some (.word "CREATE" :: .blank .space ::
      (i.frontTokens d n ++ d.tableToken table :: i.backTokens behind)) := by
  have hlast : (Token.word "CREATE" :: .blank .space :: i.frontTokens d n).getLast? =
      some (.blank .space) := by
    rw [frontTokens, guardTokens]
    cases i.unique <;> cases d.hasConditionalIndexes <;> rfl
  have hread : ∀ behind : List Token, Spaced behind →
      text.toList = printAll (.word "CREATE" :: .blank .space :: i.frontTokens d n) ++
        ((d.quoteTable table).toList ++ printAll (i.backTokens behind)) →
      ∃ behind, tokenize text.toList = some (.word "CREATE" :: .blank .space ::
        (i.frontTokens d n ++ d.tableToken table :: i.backTokens behind)) := by
    intro behind hbehind hprint
    rw [hprint]
    exact ⟨behind, tokenize_piece ((spaced_frontTokens hname).apart_of_getLast? hlast rfl _)
      (scan?_quoteTable hd htable (c := ' ') rfl _) (spaced_backTokens hcolumns hbehind).tokenize⟩
  have hprint := toList_renderedStatement hd hn table
  rcases htext with rfl | hw
  · exact hread [.mark .semicolon] (spaced_nil.cons rfl) hprint
  · refine hread [] spaced_nil ?_
    have hsplit : i.backTokens [.mark .semicolon] = i.backTokens [] ++ [.mark .semicolon] := by
      simp [backTokens]
    rw [hw, hsplit, printAll_append, String.toList_append, ← List.append_assoc,
      ← List.append_assoc] at hprint
    rw [List.append_cancel_right hprint, List.append_assoc]

end Index

namespace Addition

variable {d : Dialect} {table n : String} {i : Index}

/-- The condition that an index does not exist is passed over, if it is there. If it is not, the
name of the index must not be taken for its beginning. -/
theorem run_ifNotExists
    (hif : d.hasConditionalIndexes = false → (Token.word n).isKeyword "IF" = false)
    (ts : List Token) :
    TableDefinition.ifNotExists.run (Index.guardTokens d ++ .word n :: ts) =
      (some (), .word n :: ts) := by
  rw [TableDefinition.ifNotExists, Index.guardTokens]
  split
  · simp only [List.cons_append, List.nil_append]
    rw [run_bind_of_some (run_possibly_of_eq (run_keyword_of_pos (by decide) _)),
      dropWhile_isBlank_blank, dropWhile_isBlank_cons rfl]
    show Reader.run (do
      keyword "NOT"
      keyword "EXISTS") _ = _
    rw [run_bind_of_some (run_keyword_of_pos (by decide) _), dropWhile_isBlank_blank,
      dropWhile_isBlank_cons rfl, run_keyword_of_pos (by decide)]
    rfl
  · rename_i hguard
    rw [List.nil_append, run_bind_of_some (run_possibly_of_eq
      (run_keyword_of_neg (hif (Bool.eq_false_iff.2 hguard)) ts))]
    rfl

/-- The name of an index, its table and its columns are read behind the condition. -/
theorem run_indexNames (hn : i.name = some n) (unique : Bool) (behind : List Token) :
    Reader.run (do
      let indexName ← qualifiedName
      skipBlanks
      keyword "ON"
      let table ← qualifiedName
      skipBlanks
      match ← possibly (word "USING") with
      | some () => advancePastBlanks
      | none => answer ()
      let columns ← nameList
      return Addition.index table { name := some indexName, columns, unique })
        (.word n :: .blank .space :: .word "ON" :: .blank .space :: d.tableToken table ::
          i.backTokens behind) = (some (.index table { i with unique }), behind) := by
  have htable := d.wordText?_tableToken table
  have hnames : nameList.run (.mark .openParen :: (nameTokens .word i.columns ++
      .mark .closeParen :: behind)) = (some i.columns, behind) :=
    run_nameList (fun _ _ => rfl) _
  rw [run_bind_of_some (run_qualifiedName (n := n) rfl rfl), run_bind_of_some (run_skipBlanks _),
    dropWhile_isBlank_blank, dropWhile_isBlank_cons rfl,
    run_bind_of_some (run_keyword_of_pos (by decide) _), dropWhile_isBlank_blank,
    dropWhile_isBlank_cons (isBlank_of_wordText? htable),
    run_bind_of_some (run_qualifiedName htable rfl), run_bind_of_some (run_skipBlanks _),
    Index.backTokens, dropWhile_isBlank_blank, dropWhile_isBlank_cons rfl,
    run_bind_of_some (run_possibly_of_eq (run_word_of_neg rfl _))]
  show Reader.run (do
    let columns ← nameList
    return Addition.index table { name := some n, columns, unique }) _ = _
  rw [run_bind_of_some hnames, hn]
  rfl

/-- An index is read behind the word `CREATE`. -/
theorem run_indexReader (hn : i.name = some n)
    (hif : d.hasConditionalIndexes = false → (Token.word n).isKeyword "IF" = false)
    (table : String) (behind : List Token) :
    indexReader.run (i.frontTokens d n ++ d.tableToken table :: i.backTokens behind) =
      (some (.index table i), behind) := by
  have hindex (unique : Option Unit) : Reader.run (do
      if ← seesAnyWord ["CLUSTERED", "NONCLUSTERED"] then
        advancePastBlanks
      keyword "INDEX"
      TableDefinition.ifNotExists
      let indexName ← qualifiedName
      skipBlanks
      keyword "ON"
      let table ← qualifiedName
      skipBlanks
      match ← possibly (word "USING") with
      | some () => advancePastBlanks
      | none => answer ()
      let columns ← nameList
      return Addition.index table { name := some indexName, columns, unique := unique.isSome })
        (.word "INDEX" :: .blank .space :: (Index.guardTokens d ++ .word n :: .blank .space ::
          .word "ON" :: .blank .space :: d.tableToken table :: i.backTokens behind)) =
      (some (.index table { i with unique := unique.isSome }), behind) := by
    have hsees (ts : List Token) : (seesAnyWord ["CLUSTERED", "NONCLUSTERED"]).run
        (.word "INDEX" :: ts) = (some false, .word "INDEX" :: ts) := by
      rw [run_seesAnyWord]
      rfl
    have hblank (ts : List Token) : (Index.guardTokens d ++ .word n :: ts).dropWhile Token.isBlank =
        Index.guardTokens d ++ .word n :: ts := by
      unfold Index.guardTokens
      split <;> rfl
    rw [run_bind_of_some (hsees _), if_neg Bool.false_ne_true,
      run_bind_of_some (run_keyword_of_pos (by decide) _), dropWhile_isBlank_blank, hblank,
      run_bind_of_some (run_ifNotExists hif _)]
    exact run_indexNames hn unique.isSome behind
  have hfront (ts : List Token) : i.frontTokens d n ++ ts =
      (if i.unique then [.word "UNIQUE", .blank .space] else []) ++ .word "INDEX" ::
        .blank .space :: (Index.guardTokens d ++ .word n :: .blank .space :: .word "ON" ::
          .blank .space :: ts) := by
    simp [Index.frontTokens]
  rw [hfront, indexReader]
  cases hunique : i.unique with
  | true =>
    rw [if_pos rfl, List.cons_append, List.cons_append, List.nil_append,
      run_bind_of_some (run_possibly_of_eq (run_keyword_of_pos (by decide) _)),
      dropWhile_isBlank_blank, dropWhile_isBlank_cons rfl]
    have hsame : { i with unique := true } = i := by rw [← hunique]
    exact (hindex (some ())).trans (by rw [Option.isSome_some, hsame])
  | false =>
    rw [if_neg Bool.false_ne_true, List.nil_append,
      run_bind_of_some (run_possibly_of_eq (run_keyword_of_neg (by decide) _))]
    have hsame : { i with unique := false } = i := by rw [← hunique]
    exact (hindex none).trans (by rw [Option.isSome_none, hsame])

end Addition

/-! ## Descriptions -/

namespace Column

/-- The tokens in front of the name of the table. -/
def frontTokens : List Token :=
  [.word "COMMENT", .blank .space, .word "ON", .blank .space, .word "COLUMN", .blank .space]

/-- The tokens between the name of the table and the description. -/
def middleTokens (c : Column) : List Token :=
  [.mark .period, .word c.name, .blank .space, .word "IS", .blank .space]

variable {t : Table} {c : Column} {text : String}

theorem apart_frontTokens (rest : List Char) : Apart rest frontTokens := by
  have hword : ∀ w ∈ ["COMMENT", "ON", "COLUMN"], (Token.word w).ReadsBack := by decide
  exact apart_wordTokens hword rest

theorem apart_middleTokens (hc : Naming.isWord c.name = true) (rest : List Char) :
    Apart rest c.middleTokens := by
  have his : (Token.word "IS").IsAtom := isAtom_word (by decide)
  have hspaced : Spaced [.word c.name, .blank .space, .word "IS", .blank .space] :=
    (spaced_nil.atom_space his).atom_space (isAtom_word_of_isWord hc)
  refine apart_cons (by decide) ?_ (hspaced.apart_of_getLast? rfl rfl rest)
  -- a period in front of a digit would begin a number
  show Text.Stops Char.isDigit _
  obtain ⟨e, es, hname, hstart, -⟩ := Naming.exists_of_isWord hc
  rw [printAll_cons, print_word, hname]
  refine Text.stops_cons.2 ?_
  rw [Bool.eq_false_iff]
  intro hdigit
  rw [isWordStart_eq_false_of_isDigit hdigit] at hstart
  cases hstart

/-- The tokens of a description, with or without its semicolon. -/
theorem exists_tokenize_descriptionStatement (hc : Naming.isWord c.name = true) {w : String}
    (hw : t.descriptionStatement .postgresql c text = w ∨
      t.descriptionStatement .postgresql c text = w ++ ";") :
    ∃ behind, tokenize w.toList = some (frontTokens ++ Dialect.postgresql.tableToken t.name ::
      (c.middleTokens ++ .literal .escaped text :: behind)) := by
  have hhead : ∃ more, printAll c.middleTokens = '.' :: more := ⟨_, rfl⟩
  have htext : (t.descriptionStatement .postgresql c text).toList =
      printAll frontTokens ++ ((Dialect.postgresql.quoteTable t.name).toList ++
        (printAll c.middleTokens ++
          ((Dialect.postgresql.stringLiteral text).toList ++ printAll [.mark .semicolon]))) := by
    have hplain : Dialect.postgresql.quoteColumn c.name = c.name := rfl
    have hperiod : (Token.mark .period).print = ['.'] := rfl
    unfold Table.descriptionStatement
    rw [hplain]
    generalize Dialect.postgresql.quoteTable t.name = table
    generalize Dialect.postgresql.stringLiteral text = value
    simp [frontTokens, middleTokens, hperiod]
  have hread : ∀ behind : List Token, Spaced behind → (printAll behind).head? ≠ some '\'' →
      w.toList = printAll frontTokens ++ ((Dialect.postgresql.quoteTable t.name).toList ++
        (printAll c.middleTokens ++
          ((Dialect.postgresql.stringLiteral text).toList ++ printAll behind))) →
      ∃ behind, tokenize w.toList = some (frontTokens ++ Dialect.postgresql.tableToken t.name ::
        (c.middleTokens ++ .literal .escaped text :: behind)) := by
    intro behind hbehind hquote hprint
    have hmiddle : tokenize (printAll c.middleTokens ++
        ((Dialect.postgresql.stringLiteral text).toList ++ printAll behind)) =
        some (c.middleTokens ++ .literal .escaped text :: behind) :=
      tokenize_piece (apart_middleTokens hc _) (scan?_stringLiteral text hquote) hbehind.tokenize
    obtain ⟨more, hmore⟩ := hhead
    refine ⟨behind, ?_⟩
    rw [hprint]
    refine tokenize_piece (apart_frontTokens _) ?_ hmiddle
    rw [hmore, List.cons_append]
    exact scan?_quoteTable rfl (Or.inl rfl) (by decide) _
  rcases hw with rfl | hw
  · exact hread [.mark .semicolon] (spaced_nil.cons rfl) (by decide) htext
  · refine hread [] spaced_nil (by decide) ?_
    have hsemicolon : printAll [.mark .semicolon] = ";".toList := by decide
    rw [hw, hsemicolon, String.toList_append, ← List.append_assoc, ← List.append_assoc,
      ← List.append_assoc] at htext
    rw [List.append_cancel_right htext]
    simp

end Column

namespace Addition

variable {c : Column} {table text : String}

/-- The parts of a name with one period in it. -/
theorem run_qualifiedParts {t : Token} (ht : t.wordText? = some table) (n : String)
    (ts : List Token) :
    qualifiedParts.run (t :: .mark .period :: .word n :: .blank .space :: ts) =
      (some [table, n], .blank .space :: ts) := by
  have hpart : (partRound [table]).run (.mark .period :: .word n :: .blank .space :: ts) =
      (some (.inl [table, n]), .blank .space :: ts) := by
    rw [partRound, run_bind_of_some (run_seesMark _ _ _)]
    rfl
  have hend : (partRound [table, n]).run (.blank .space :: ts) =
      (some (.inr [table, n]), .blank .space :: ts) := by
    rw [partRound, run_bind_of_some (run_seesMark _ _ _)]
    rfl
  rw [qualifiedParts, run_bind_of_some (run_name ht _), run_loop_inl hpart (by simp),
    run_loop_inr hend]

/-- A description is read behind the word `COMMENT`. -/
theorem run_descriptionReader (c : Column) (table text : String) (behind : List Token) :
    descriptionReader.run (.word "ON" :: .blank .space :: .word "COLUMN" :: .blank .space ::
        Dialect.postgresql.tableToken table ::
          (c.middleTokens ++ .literal .escaped text :: behind)) =
      (some (.description table c.name text), behind) := by
  have htable := Dialect.postgresql.wordText?_tableToken table
  have hsees (ts : List Token) : (seesWord "E").run (.literal .escaped text :: ts) =
      (some false, .literal .escaped text :: ts) := rfl
  rw [descriptionReader, run_bind_of_some (run_keyword_of_pos (by decide) _),
    dropWhile_isBlank_blank, dropWhile_isBlank_cons rfl,
    run_bind_of_some (run_keyword_of_pos (by decide) _), dropWhile_isBlank_blank,
    dropWhile_isBlank_cons (isBlank_of_wordText? htable)]
  simp only [Column.middleTokens, List.cons_append, List.nil_append]
  rw [run_bind_of_some (run_qualifiedParts htable c.name _), run_bind_of_some (run_skipBlanks _),
    dropWhile_isBlank_blank, dropWhile_isBlank_cons rfl,
    run_bind_of_some (run_keyword_of_pos (by decide) _), dropWhile_isBlank_blank,
    dropWhile_isBlank_cons rfl, run_bind_of_some (hsees _)]
  rfl

end Addition

/-! ## Kinds of statements -/

namespace StatementKind

open Naming

/-- What a reader answers settles the kind. -/
theorem run_orOther {α : Type} {r : Reader α} {a : α} {ts rest : List Token}
    (h : r.run ts = (some a, rest)) (f : α → StatementKind) :
    (orOther (do return f (← r))).run ts = (some (f a), rest) := by
  have hkind : Reader.run (do return f (← r)) ts = (some (f a), rest) := by
    rw [run_bind_of_some h]
    rfl
  rw [orOther, run_bind_of_some (run_possibly_of_eq hkind)]
  rfl

/-- What is found behind the word `CREATE` settles the kind. -/
theorem run_reader_create (ts : List Token) :
    reader.run (.word "CREATE" :: .blank .space :: ts) =
      createReader.run (ts.dropWhile Token.isBlank) := by
  rw [reader, run_bind_of_some (run_skipBlanks _), dropWhile_isBlank_cons rfl,
    run_bind_of_some (TableDefinition.run_skipExistenceGuard (by decide) _),
    run_bind_of_some (run_possibly_of_eq (run_keyword_of_pos (by decide) _)),
    dropWhile_isBlank_blank]

/-- Where no table is created, an addition settles the kind. -/
theorem run_createReader {t : Token} {ts rest : List Token} {a : Addition}
    (htemporary : t.isKeyword "TEMPORARY" = false) (htemp : t.isWord "TEMP" = false)
    (htable : t.isKeyword "TABLE" = false)
    (h : Addition.indexReader.run (t :: ts) = (some a, rest)) :
    createReader.run (t :: ts) = (some (.addition a), rest) := by
  have hsees : (seesKeyword "TABLE").run (t :: ts) = (some false, t :: ts) := by
    rw [run_seesKeyword, htable]
  rw [createReader, run_bind_of_some (TableDefinition.run_skipTemporary htemporary htemp ts),
    run_bind_of_some hsees, if_neg Bool.false_ne_true]
  exact run_orOther h .addition

/-- What is found behind the word `COMMENT` settles the kind. -/
theorem run_reader_comment {t : Token} {ts rest : List Token} {a : Addition}
    (ht : t.isBlank = false) (h : Addition.descriptionReader.run (t :: ts) = (some a, rest)) :
    reader.run (.word "COMMENT" :: .blank .space :: t :: ts) = (some (.addition a), rest) := by
  rw [reader, run_bind_of_some (run_skipBlanks _), dropWhile_isBlank_cons rfl,
    run_bind_of_some (TableDefinition.run_skipExistenceGuard (by decide) _),
    run_bind_of_some (run_possibly_of_eq (run_keyword_of_neg (by decide) _)),
    run_bind_of_some (run_possibly_of_eq (run_keyword_of_pos (by decide) _)),
    dropWhile_isBlank_blank, dropWhile_isBlank_cons ht]
  exact run_orOther h .addition

/-- A plain name that is not `IF` is not taken for the beginning of a condition. -/
theorem isKeyword_if_of_isPlain {n : String} (h : isPlain n = true) (hif : Text.upper n ≠ "IF") :
    (Token.word n).isKeyword "IF" = false := by
  show (Text.fullUpper n == "IF") = false
  rw [Text.fullUpper_of_ascii (fun _ => toNat_lt_of_isPlain h)]
  exact beq_eq_false_iff_ne.2 hif

variable {d : Dialect} {table n : String} {i : Index}

/-- **An index as a statement of its own is read back**, with or without its semicolon. -/
theorem ofText_renderedStatement (hd : d.isMySqlFamily = false) (hn : i.name = some n)
    (hname : Naming.isWord n = true)
    (hif : d.hasConditionalIndexes = false → (Token.word n).isKeyword "IF" = false)
    (hcolumns : ∀ c ∈ i.columns, Naming.isWord c = true)
    (htable : d = .postgresql ∨ Naming.isWord table = true) {text : String}
    (htext : i.renderedStatement d table = text ∨ i.renderedStatement d table = text ++ ";") :
    ofText text = .addition (.index table i) := by
  obtain ⟨behind, htokens⟩ :=
    Index.exists_tokenize_renderedStatement hd hn hname hcolumns htable htext
  have hindex := Addition.run_indexReader hn hif table behind
  have hcreate : createReader.run
      ((i.frontTokens d n ++ d.tableToken table :: i.backTokens behind).dropWhile Token.isBlank) =
        (some (.addition (.index table i)), behind) := by
    cases hunique : i.unique <;> rw [Index.frontTokens, hunique] at hindex ⊢ <;>
      exact run_createReader (by decide) (by decide) (by decide) hindex
  rw [ofText, htokens]
  show (reader.run _).1.getD .other = _
  rw [run_reader_create, hcreate]
  rfl

/-- **The description of a column is read back**, with or without its semicolon. -/
theorem ofText_descriptionStatement {t : Table} {c : Column} {text w : String}
    (hc : Naming.isWord c.name = true)
    (hw : t.descriptionStatement .postgresql c text = w ∨
      t.descriptionStatement .postgresql c text = w ++ ";") :
    ofText w = .addition (.description t.name c.name text) := by
  obtain ⟨behind, htokens⟩ := Column.exists_tokenize_descriptionStatement hc hw
  rw [ofText, htokens]
  simp only [Column.frontTokens, List.cons_append, List.nil_append]
  rw [run_reader_comment rfl (Addition.run_descriptionReader c t.name text behind)]
  rfl

/-- **What is written to add to a table is read back.** An index with plain names, none of them
`IF` in front, is read as that index of that table in every dialect that has indexes as statements
of their own. In PostgreSQL the description of a column with a plain name is written and is read
as that description, whatever the name of the table and the text are. -/
theorem ofText_additionStatements :
    (∀ (d : Dialect) (table n : String) (i : Index), d.isMySqlFamily = false → i.name = some n →
      isPlain n = true → Text.upper n ≠ "IF" → (∀ c ∈ i.columns, isPlain c = true) →
      (d = .postgresql ∨ isPlain table = true) →
        ofText (i.renderedStatement d table) = .addition (.index table i)) ∧
    ∀ (t : Table) (c : Column) (text : String), c ∈ t.columns → isPlain c.name = true →
      c.description = some text → text ≠ "" →
        t.descriptionStatement .postgresql c text ∈ t.descriptionStatements .postgresql ∧
          ofText (t.descriptionStatement .postgresql c text) =
            .addition (.description t.name c.name text) := by
  refine ⟨fun d table n i hd hn hplain hif hcolumns htable =>
    ofText_renderedStatement hd hn (isWord_of_isPlain hplain)
      (fun _ => isKeyword_if_of_isPlain hplain hif) (fun c hc => isWord_of_isPlain (hcolumns c hc))
      (htable.imp_right isWord_of_isPlain) (Or.inl rfl), ?_⟩
  intro t c text hmem hc htext hempty
  have hvisible : c.visibleDescription? = some text := by
    simp [Column.visibleDescription?, htext, hempty]
  refine ⟨?_, ofText_descriptionStatement (isWord_of_isPlain hc) (Or.inl rfl)⟩
  rw [Table.descriptionStatements, if_pos rfl]
  exact List.mem_filterMap.2 ⟨c, hmem, by rw [hvisible, Option.map_some]⟩

/-- An index whose names are words of the statement that creates it. -/
def trappedIndex : Index where
  name := some "ON"
  columns := ["ASC", "unique"]
  unique := true

/-- A column whose name is a word of the statement that describes it, with a description that
holds the ends of literals and statements. -/
def trappedColumn : Column where
  name := "IS"
  dataType := "TEXT"
  description := some "it''s \\'; --"

theorem ofText_additionStatements_trapped :
    (∀ d ∈ [Dialect.sqlite, .postgresql, .sqlserver],
      ofText (trappedIndex.renderedStatement d "using") =
        .addition (.index "using" trappedIndex)) ∧
    ofText (Table.descriptionStatement .postgresql
        { name := "a\".\"b IS", columns := [trappedColumn] } trappedColumn "it''s \\'; --") =
      .addition (.description "a\".\"b IS" "IS" "it''s \\'; --") := by
  refine ⟨fun d hd => ofText_additionStatements.1 d _ "ON" _ ?_ rfl (by decide) (by decide)
    (by decide) (Or.inr (by decide)), ?_⟩
  · revert d
    decide
  · exact (ofText_additionStatements.2 { name := "a\".\"b IS", columns := [trappedColumn] }
      trappedColumn _ (by decide) (by decide) rfl (by decide)).2

end StatementKind
end SchemaScript
