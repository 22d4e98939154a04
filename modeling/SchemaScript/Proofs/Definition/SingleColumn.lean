import SchemaScript.Proofs.Definition.Body
import SchemaScript.Proofs.Token.Newline
import SchemaScript.Proofs.Token.Pieces

/-!
# A column inside a table and on its own

The items of a table body are cut out as runs of tokens, printed, and read again. A column
text that tokenizes, has balanced parentheses and has no comma outside of them is the only
item of the body it stands in. The table is the one assembled from what the text defines on its
own exactly when the print of its tokens is read as a column that makes up the same table, and
in particular when its lexemes can be reprinted (`ofStatement_singleColumn`).

The print need not be read so. The print of a string with the letter `E` in front does not double
the quotes in it, so that a default like `E'it\'s'` breaks the column apart and leaves the table
without columns.
-/

namespace SchemaScript

open Reader Token

/-- The tokens in front of the body of a table named `t`. -/
def opening : List Token :=
  [.word "CREATE", .blank .space, .word "TABLE", .blank .space, .word "t", .blank .space,
    .mark .openParen]

/-- The opening of a statement is read in front of any body. -/
theorem apart_opening (rest : List Char) : Apart rest opening := by
  have hword : ∀ w ∈ ["CREATE", "TABLE", "t"], (Token.word w).ReadsBack := by decide
  have hopen : Apart rest [.mark .openParen] :=
    apart_cons (by decide) (follows_mark rfl _) trivial
  exact apart_append (apart_wordTokens hword _) hopen

namespace TableDefinition

/-- The column that the only item of a body is read as once it is printed. -/
def reread? (ts : List Token) : Option ColumnDefinition :=
  (Item.ofText? (printAll (ts.dropWhile Token.isBlank))).bind Item.column?

/-- Blanks define no column. -/
theorem column?_ofText?_of_allBlank {cs : List Char} (h : Text.allBlank cs = true) :
    (Item.ofText? cs).bind Item.column? = none := by
  have hempty : (Item.ofTokens? []).bind Item.column? = none := by decide
  rw [Item.ofText?]
  cases hts : tokenize cs with
  | none => rfl
  | some ts =>
    have hblank : AllBlank ts := isBlank_of_tokenize hts (List.all_eq_true.1 h)
    rw [Option.bind_some, ← List.append_nil ts, Item.ofTokens?_append_blank hblank, hempty]

/-- The columns of a body with one item are the one that it is read as, if any. -/
theorem columns_ofItems_singleton (name : String) (item : List Token) :
    (ofItems name [item]).columns =
      ((Item.ofText? (printAll item)).bind Item.column?).toList := by
  by_cases hblank : Text.allBlank (printAll item) = true
  · have htexts : itemTexts [item] = [] := by simp [itemTexts, hblank]
    rw [ofItems, htexts, column?_ofText?_of_allBlank hblank]
    rfl
  · have htexts : itemTexts [item] = [printAll item] := by simp [itemTexts, hblank]
    rw [ofItems, htexts, List.foldr_cons, List.foldr_nil, consItem]
    cases Item.ofText? (printAll item) with
    | none => rfl
    | some found => cases found <;> rfl

/-- A body whose only item is read as a column has nothing else in it. -/
theorem ofItems_singleton {name : String} {item : List Token} {p : ColumnDefinition}
    (h : (Item.ofText? (printAll item)).bind Item.column? = some p) :
    ofItems name [item] = ⟨name, [p], [], []⟩ := by
  obtain ⟨found, hfound, hp⟩ := Option.bind_eq_some_iff.1 h
  have hblank : ¬ Text.allBlank (printAll item) = true := by
    intro hx
    rw [column?_ofText?_of_allBlank hx] at h
    cases h
  have htexts : itemTexts [item] = [printAll item] := by simp [itemTexts, hblank]
  rw [ofItems, htexts, List.foldr_cons, List.foldr_nil, consItem, hfound]
  cases found with
  | column q =>
    cases hp
    rfl
  | constraint q => cases hp

end TableDefinition

section SingleColumn

open TableDefinition

variable {c : String} {ts us : List Token} {p q : ColumnDefinition}

/-- The definition in a statement with one item. -/
theorem ofText_item {body : String}
    (hus : tokenize body.toList = some (us ++ [.mark .closeParen])) (hitem : IsItem us) :
    TableDefinition.ofText ("CREATE TABLE t (" ++ body) =
      .ok (ofItems "t" [us.dropWhile Token.isBlank]) := by
  have hprint : ("CREATE TABLE t (" ++ body).toList = printAll opening ++ body.toList := by
    simp [opening, printAll, print, Blank.print, Mark.print]
  have hstatement : tokenize ("CREATE TABLE t (" ++ body).toList =
      some (opening ++ (us ++ [Token.mark .closeParen])) := by
    rw [hprint, tokenize_printAll_append (apart_opening _), hus]
    rfl
  have hbody : (us ++ [Token.mark .closeParen]).dropWhile Token.isBlank =
      [Token.mark .comma].intercalate [us.dropWhile Token.isBlank] ++
        [Token.mark .closeParen] := by
    rw [List.intercalate_singleton, List.dropWhile_append]
    split
    · rename_i hnil
      rw [List.isEmpty_iff.1 hnil]
      rfl
    · rfl
  have hitems : ∀ ts ∈ [us.dropWhile Token.isBlank], IsItem ts := by
    intro ts hts
    rw [List.mem_singleton.1 hts]
    exact isItem_dropWhile hitem
  have hheader : header.run ((opening ++ (us ++ [Token.mark .closeParen])).dropWhile
      Token.isBlank) = (some (), Token.word "t" :: ([Token.blank .space] ++
        Token.mark .openParen :: (us ++ [Token.mark .closeParen]))) :=
    run_header (t := Token.word "t") rfl (by decide) _
  rw [TableDefinition.ofText, hstatement]
  show TableDefinition.ofTokens _ = _
  rw [ofTokens_of_header hheader rfl rfl, hbody, bodyItems?_intercalate (List.cons_ne_nil _ _)
    hitems]

/-- The item may be a column text on a line of its own. -/
theorem ofText_singleItem
    (hus : tokenize (c.toList ++ ['\n', ')']) = some (us ++ [.mark .closeParen]))
    (hitem : IsItem us) :
    TableDefinition.ofText ("CREATE TABLE t (" ++ c ++ "\n)") =
      .ok (ofItems "t" [us.dropWhile Token.isBlank]) := by
  rw [String.append_assoc]
  exact ofText_item (by rwa [String.toList_append]) hitem

/-- The table in a statement whose only item is read as a column. -/
theorem ofStatement_of_reread?
    (hus : tokenize (c.toList ++ ['\n', ')']) = some (us ++ [.mark .closeParen]))
    (hitem : IsItem us) (hq : reread? us = some q) :
    Table.ofStatement ("CREATE TABLE t (" ++ c ++ "\n)") =
      (Table.assemble "t" [q] []).map fun table => (table, []) := by
  rw [Table.ofStatement, ofText_singleItem hus hitem, ofItems_singleton hq]
  dsimp only [TableDefinition.toTable]
  cases Table.assemble "t" [q] [] <;> rfl

/-- A statement whose only item is not read as a column creates no table. -/
theorem ofStatement_of_reread?_eq_none
    (hus : tokenize (c.toList ++ ['\n', ')']) = some (us ++ [.mark .closeParen]))
    (hitem : IsItem us) (hq : reread? us = none) (found : Table × List String) :
    Table.ofStatement ("CREATE TABLE t (" ++ c ++ "\n)") ≠ .ok found := by
  have hcolumns : (ofItems "t" [us.dropWhile Token.isBlank]).columns = [] := by
    rw [columns_ofItems_singleton]
    exact congrArg Option.toList hq
  rw [Table.ofStatement, ofText_singleItem hus hitem]
  dsimp only [TableDefinition.toTable]
  rw [hcolumns]
  exact nofun

/-- Where the lexemes of a column text can be reprinted, the print is read as the same column. -/
theorem reread?_of_reprintable (hts : tokenize c.toList = some ts)
    (hus : tokenize (c.toList ++ ['\n']) = some us) (hitem : IsItem ts)
    (hp : ColumnDefinition.ofText? c = some p) (hre : Reprintable (lexemes c.toList))
    (hlast : ∀ l ∈ (lexemes c.toList).getLast?, ¬ TakesAny l.written) :
    reread? us = some p := by
  obtain ⟨core, a, b, hn⟩ := exists_newlineBehind hts hlast
  have heq : us = core ++ b := by
    have hnew := hn.tokenize []
    rw [hus, tokenize_nil, Option.map_some, List.append_nil] at hnew
    exact Option.some.inj hnew
  -- the tokens of the item are those of the text up to the blanks at its end
  have hdepth : depthAfter 0 core = some 0 := by
    have hall : depthAfter 0 (core ++ a) = some 0 := by
      rw [← hn.tokens]
      exact hitem
    rw [depthAfter_append] at hall
    obtain ⟨depth, hcore, hblank⟩ := Option.bind_eq_some_iff.1 hall
    rw [depthAfter_of_allBlank hn.blank_old] at hblank
    rwa [Option.some.inj hblank] at hcore
  have hsame : SameButEnd ts us :=
    ⟨core, a, b, 0, hn.tokens, heq, hn.blank_old, hn.blank_new, hdepth⟩
  have hp' : ColumnDefinition.ofTokens? us = some p := by
    rw [← ColumnDefinition.ofTokens?_eq_of_sameButEnd hsame]
    rwa [ColumnDefinition.ofText?, hts] at hp
  -- they are read again from their print
  have happ : us.takeWhile Token.isBlank ++ us.dropWhile Token.isBlank = us :=
    List.takeWhile_append_dropWhile
  have hapart : Apart [] (us.dropWhile Token.isBlank) := by
    have hall : Apart [] us := apart_of_reprintable hus (hn.reprintable hre)
    rw [← happ] at hall
    exact hall.of_append
  have hpItem : ColumnDefinition.ofTokens? (us.dropWhile Token.isBlank) = some p := by
    rw [ColumnDefinition.ofTokens?_dropWhile, hp']
  have hread : Item.ofText? (printAll (us.dropWhile Token.isBlank)) = some (.column p) := by
    rw [Item.ofText?, tokenize_printAll hapart, Option.bind_some, Item.ofTokens?,
      if_pos (columnFirst_of_ofTokens? hpItem), hpItem]
  rw [reread?, hread]
  rfl

/-- **A column reads the same inside a table as on its own** exactly when the print of its tokens
is read as a column of the same table, and in particular when its lexemes can be reprinted. -/
theorem ofStatement_singleColumn (hts : tokenize c.toList = some ts) (hitem : IsItem ts)
    (hp : ColumnDefinition.ofText? c = some p) :
    (Table.ofStatement ("CREATE TABLE t (" ++ c ++ "\n)") =
        (Table.assemble "t" [p] []).map (fun table => (table, [])) ↔
      ∃ us q, tokenize (c.toList ++ ['\n']) = some us ∧ reread? us = some q ∧
        Table.assemble "t" [q] [] = Table.assemble "t" [p] []) ∧
    (Reprintable (lexemes c.toList) →
      (∀ l ∈ (lexemes c.toList).getLast?, ¬ TakesAny l.written) →
        Table.ofStatement ("CREATE TABLE t (" ++ c ++ "\n)") =
          (Table.assemble "t" [p] []).map fun table => (table, [])) := by
  obtain ⟨us, hdepth, hnew⟩ := exists_tokenize_newline hts
  have hitem' : IsItem us := (hdepth 0).trans hitem
  have hclose : tokenize [')'] = some [Token.mark .closeParen] := by decide +kernel
  have hus : tokenize (c.toList ++ ['\n', ')']) = some (us ++ [.mark .closeParen]) := by
    rw [hnew [')'] (Text.stops_cons.2 (by decide)), hclose]
    rfl
  have hus' : tokenize (c.toList ++ ['\n']) = some us := by
    rw [hnew [] Text.stops_nil, tokenize_nil, Option.map_some, List.append_nil]
  obtain ⟨table, htable⟩ : ∃ table, Table.assemble "t" [p] [] = .ok table := ⟨_, rfl⟩
  refine ⟨⟨fun h => ?_, ?_⟩, fun hre hlast => ?_⟩
  · cases hq : reread? us with
    | none =>
      rw [htable] at h
      exact absurd h (ofStatement_of_reread?_eq_none hus hitem' hq _)
    | some q =>
      refine ⟨us, q, hus', hq, ?_⟩
      rw [ofStatement_of_reread? hus hitem' hq, htable] at h
      obtain ⟨table', htable'⟩ : ∃ table', Table.assemble "t" [q] [] = .ok table' := ⟨_, rfl⟩
      rw [htable'] at h
      rw [htable', htable, (Prod.mk.inj (Except.ok.inj h)).1]
  · rintro ⟨vs, q, hvs, hq, hassemble⟩
    rw [hus'] at hvs
    cases hvs
    rw [ofStatement_of_reread? hus hitem' hq, hassemble]
  · exact ofStatement_of_reread? hus hitem'
      (reread?_of_reprintable hts hus' hitem hp hre hlast)

/-- A default with a quote in a plain string, and a comment behind it. -/
theorem ofStatement_plainQuote :
    Table.ofStatement ("CREATE TABLE t (" ++ "a VARCHAR(10) DEFAULT 'it''s' -- note" ++ "\n)") =
      (Table.assemble "t"
        [{ name := "a", dataType := "VARCHAR", length := some 10,
           default := some (.literal "'it''s'") }] []).map fun table => (table, []) :=
  (ofStatement_singleColumn
    (show tokenize "a VARCHAR(10) DEFAULT 'it''s' -- note".toList =
      some [.word "a", .blank .space, .word "VARCHAR", .mark .openParen, .number "10",
        .mark .closeParen, .blank .space, .word "DEFAULT", .blank .space, .literal .plain "it's",
        .blank .space, .blank (.lineComment " note")] by decide +kernel)
    (by decide +kernel) (by decide +kernel)).2 (by decide +kernel) (by decide +kernel)

/-- A quote in a string with the letter `E` in front breaks its column apart: the text defines
a column, and the table that consists of it has none. -/
theorem ofStatement_escapedQuote :
    ∃ c ts p, tokenize c.toList = some ts ∧ IsItem ts ∧ ColumnDefinition.ofText? c = some p ∧
      Table.ofStatement ("CREATE TABLE t (" ++ c ++ "\n)") ≠
        (Table.assemble "t" [p] []).map fun table => (table, []) := by
  refine ⟨"a VARCHAR(10) DEFAULT E'it\\'s'",
    [.word "a", .blank .space, .word "VARCHAR", .mark .openParen, .number "10",
      .mark .closeParen, .blank .space, .word "DEFAULT", .blank .space, .literal .escaped "it's"],
    { name := "a", dataType := "VARCHAR", length := some 10,
      default := some (.literal "'it''s'") },
    by decide +kernel, by decide +kernel, by decide +kernel, fun h => ?_⟩
  have hsome := congrArg (fun r => r.toOption.isSome) h
  revert hsome
  decide +kernel

end SingleColumn
end SchemaScript
