import SchemaScript.Proofs.Render.Stable
import SchemaScript.Proofs.Render.TableAdditions
import SchemaScript.Proofs.Script.Segments

/-!
# Translating a script twice

What a script has been translated to is translated to itself, in every dialect, if its tables are
stable (`Table.IsStable`, `Conversion.ofScript_body`). The translation is left as it is by tidying
and cut into the statements that were rendered. The first statement of each table is read as a table
without what is rendered behind it, and the other ones as additions that bring this back
(`Table.exists_yields`). No addition gets lost if a table with additions has no other of its name in
front of it.

Texts with backslashes are not stable where rendering doubles backslashes and the reader of
literals keeps both, so that each translation doubles the backslashes of the one before
(`Conversion.ofScript_body_escapedScript`).
-/

namespace SchemaScript

open Script

/-! ## What statements yield -/

namespace Contents

/-- The tables that statements create, the additions that they make and the tables that they
drop. -/
structure Yields (statements : List Statement) (tables : List Table) (additions : List Addition)
    (dropped : List String) : Prop where
  tables : (statements.flatMap fun s => ((created? s.text).map Prod.fst).toList) = tables
  additions : statements.filterMap addition? = additions
  dropped : statements.flatMap droppedBy = dropped

namespace Yields

variable {ss ss' : List Statement} {ts ts' : List Table} {as as' : List Addition}
  {names names' : List String}

theorem nil : Yields [] [] [] [] :=
  ⟨rfl, rfl, rfl⟩

theorem append (h : Yields ss ts as names) (h' : Yields ss' ts' as' names') :
    Yields (ss ++ ss') (ts ++ ts') (as ++ as') (names ++ names') where
  tables := by rw [List.flatMap_append, h.tables, h'.tables]
  additions := by rw [List.filterMap_append, h.additions, h'.additions]
  dropped := by rw [List.flatMap_append, h.dropped, h'.dropped]

theorem of_ofStatement {s : Statement} {t : Table} {skipped : List String}
    (h : Table.ofStatement s.text = .ok (t, skipped)) : Yields [s] [t] [] [] := by
  have hkind := StatementKind.ofText_of_ofStatement h
  refine ⟨?_, ?_, ?_⟩
  · rw [List.flatMap_singleton, created?, hkind]
    exact congrArg (fun r => (r.toOption.map Prod.fst).toList) h
  · rw [List.filterMap_cons, addition?, hkind]
    rfl
  · rw [List.flatMap_singleton, droppedBy, hkind]

theorem of_addition {s : Statement} {a : Addition}
    (h : StatementKind.ofText s.text = .addition a) : Yields [s] [] [a] [] := by
  refine ⟨?_, ?_, ?_⟩
  · rw [List.flatMap_singleton, created?, h]
    rfl
  · rw [List.filterMap_cons, addition?, h]
    rfl
  · rw [List.flatMap_singleton, droppedBy, h]

theorem of_dropTables {s : Statement} {names : List String}
    (h : StatementKind.ofText s.text = .dropTables names) : Yields [s] [] [] names := by
  refine ⟨?_, ?_, ?_⟩
  · rw [List.flatMap_singleton, created?, h]
    rfl
  · rw [List.filterMap_cons, addition?, h]
    rfl
  · rw [List.flatMap_singleton, droppedBy, h]

theorem of_additions
    (h : List.Forall₂ (fun s a => StatementKind.ofText s.text = .addition a) ss as) :
    Yields ss [] as [] := by
  induction h with
  | nil => exact .nil
  | cons ha _ ih => exact (Yields.of_addition ha).append ih

/-- What statements yield are the contents of a script, once the additions are made. -/
theorem ofStatements (h : Yields ss ts as names) :
    (ofStatements ss).tables = as.foldl Addition.attach ts ∧
      (ofStatements ss).dropped = names := by
  refine ⟨?_, h.dropped⟩
  rw [Contents.ofStatements, h.additions, filterMap_table?_creations, h.tables]

end Yields
end Contents

/-! ## The statements of stable tables -/

namespace Table

open Contents (Yields)

variable {d : Dialect} {t : Table} {tables : List Table}

/-- Whether a table is the one that is read from the statement that creates a given one. -/
def IsCreatedFrom (d : Dialect) (t' t : Table) : Prop :=
  t'.MadeOf t.name ((t.definitions d).map ColumnDefinition.toColumn) t.renderedKey (t.constraints d)

/-- A table that can be rendered and read again. -/
structure IsReread (d : Dialect) (t : Table) : Prop where
  isSettled : t.IsSettled d
  texts : t.HasCleanTexts d
  isCoherent : t.IsCoherent

/-- **The statements of a table yield the table and its additions.** -/
theorem exists_yields_of_isReread (h : t.IsReread d) {ss : List Statement}
    (hss : ss.map (fun s => s.text ++ ";") = t.renderedStatements { dialect := d }) :
    ∃ t', IsCreatedFrom d t' t ∧ Yields ss [t'] (t.additions d) [] := by
  rw [renderedStatements, List.cons_append] at hss
  obtain ⟨s, ss, rfl, hs, hbehind⟩ := List.map_eq_cons_iff.1 hss
  obtain ⟨t', hread, hmade⟩ := exists_madeOf h.isSettled h.isCoherent.columns_ne_nil
    h.isCoherent.nodup_names (Or.inr hs.symm)
  have hadditions := forall₂_additions h.isSettled
  rw [← hbehind, List.forall₂_map_left_iff] at hadditions
  exact ⟨t', hmade, (Yields.of_ofStatement hread).append
    (.of_additions (hadditions.imp fun s _ ha => ha s.text (Or.inr rfl)))⟩

/-- **The statements of several tables yield these tables and all their additions.** -/
theorem exists_yields (h : ∀ t ∈ tables, t.IsReread d) {ss : List Statement}
    (hss : ss.map (fun s => s.text ++ ";") =
      tables.flatMap (renderedStatements { dialect := d })) :
    ∃ pairs : List (Table × Table), pairs.map Prod.snd = tables ∧
      (∀ p ∈ pairs, IsCreatedFrom d p.1 p.2) ∧
      Yields ss (pairs.map Prod.fst) (pairs.flatMap fun p => p.2.additions d) [] := by
  induction tables generalizing ss with
  | nil =>
    obtain rfl := List.map_eq_nil_iff.1 hss
    exact ⟨[], rfl, fun _ hp => absurd hp List.not_mem_nil, .nil⟩
  | cons t tables ih =>
    obtain ⟨ht, htables⟩ := List.forall_mem_cons.1 h
    rw [List.flatMap_cons] at hss
    obtain ⟨front, behind, rfl, hfront, hbehind⟩ := List.map_eq_append_iff.1 hss
    obtain ⟨t', hmade, hyields⟩ := exists_yields_of_isReread ht hfront
    obtain ⟨pairs, hpairs, hall, hmore⟩ := ih htables hbehind
    exact ⟨(t', t) :: pairs, by rw [List.map_cons, hpairs],
      List.forall_mem_cons.2 ⟨hmade, hall⟩, hyields.append hmore⟩

/-! ## The script of stable tables -/

/-- Without rows the script of some tables is made of their statements. -/
theorem sql_renderAll_false (d : Dialect) (tables : List Table) :
    (renderAll { dialect := d } false tables).sql =
      "\n\n".intercalate (tables.map (renderedText { dialect := d })) :=
  congrArg "\n\n".intercalate (List.map_congr_left fun _ _ => String.intercalate_singleton)

/-- The script of some tables consists of their statements. -/
theorem isScript_renderAll (h : ∀ t ∈ tables, t.IsReread d) :
    IsScript (renderAll { dialect := d } false tables).sql.toList
      ((tables.flatMap (renderedStatements { dialect := d })).map String.toList) := by
  have hone : List.Forall₂ IsScript
      (tables.map fun t => (t.renderedText { dialect := d }).toList)
      (tables.map fun t => (t.renderedStatements { dialect := d }).map String.toList) := by
    rw [List.forall₂_map_left_iff, List.forall₂_map_right_iff, List.forall₂_same]
    exact fun t ht => isScript_intercalate (by simp [IsGap]) fun s hs =>
      (isStatement_of_mem_renderedStatements (h t ht).texts (h t ht).isSettled hs).1
  have hgap : IsGap "\n\n".toList := by simp [IsGap]
  have hjoined := IsScript.intercalate hgap hone
    (List.forall_mem_map.2 fun t _ => List.cons_ne_nil _ _)
  rw [sql_renderAll_false, String.toList_intercalate, List.map_map, List.map_flatMap]
  exact hjoined

/-- **The script of some tables is left as it is by tidying.** -/
theorem tidy_renderAll (h : ∀ t ∈ tables, t.IsReread d) :
    tidy (renderAll { dialect := d } false tables).sql =
      (renderAll { dialect := d } false tables).sql := by
  have htidy : IsTidy (renderAll { dialect := d } false tables).sql.toList := by
    rw [sql_renderAll_false]
    refine IsTidy.string_intercalate (Or.inr rfl) (List.forall_mem_map.2 fun t ht => ?_)
    exact IsTidy.string_intercalate (Or.inl rfl) fun s hs =>
      (isStatement_of_mem_renderedStatements (h t ht).texts (h t ht).isSettled hs).2
  have hmark : ∀ c ∈ (renderAll { dialect := d } false tables).sql.toList.head?,
      c.toNat ≠ 0xFEFF := by
    intro c hc
    rcases (isScript_renderAll h).head c hc with rfl | rfl | rfl <;> decide
  rw [tidy, htidy.tidyChars_eq hmark, String.ofList_toList]

/-- **The script of some tables is read as tables with the same script**, and as nothing else. -/
theorem ofScript_renderAll (h : ∀ t ∈ tables, t.IsReread d)
    (hnames : tables.Pairwise fun t t' => t'.additions d ≠ [] → t.name ≠ t'.name) :
    (renderAll { dialect := d } false
        (Contents.ofScript (renderAll { dialect := d } false tables).sql).tables).sql =
      (renderAll { dialect := d } false tables).sql ∧
    (Contents.ofScript (renderAll { dialect := d } false tables).sql).dropped = [] := by
  obtain ⟨pairs, rfl, hmade, hyields⟩ :=
    exists_yields h (texts_statements_of_isScript (isScript_renderAll h))
  obtain ⟨htables, hdropped⟩ := hyields.ofStatements
  rw [Contents.ofScript, tidy_renderAll h]
  refine ⟨?_, hdropped⟩
  have hblocks : (pairs.map fun p => (p.1, p.2.additions d)).Pairwise
      fun b b' => b'.2 ≠ [] → b.1.name ≠ b'.1.name := by
    rw [List.pairwise_map] at hnames ⊢
    refine hnames.imp_of_mem fun hp hp' hne => ?_
    rwa [(hmade _ hp).name, (hmade _ hp').name]
  have hattach := Addition.foldl_attach_flatMap (List.forall_mem_map.2 fun p hp a ha =>
    (table_of_mem_additions ha).trans (hmade p hp).name.symm) hblocks
  rw [List.flatMap_map, List.map_map, List.map_map] at hattach
  rw [htables.trans hattach, sql_renderAll_false, sql_renderAll_false, List.map_map, List.map_map]
  refine congrArg "\n\n".intercalate (List.map_congr_left fun p hp => ?_)
  have hp' := h p.2 (List.mem_map_of_mem hp)
  exact (isReadFrom_applyAll hp'.isCoherent.nodup_names (hmade p hp)).renderedText hp'.isSettled

end Table

/-! ## The tables of a script -/

namespace Contents

/-- The tables of a script have types that columns can be read with, and additions do not change
them. -/
theorem dataType_mem_readable_of_mem_ofStatements {statements : List Statement} :
    ∀ t ∈ (ofStatements statements).tables, ∀ c ∈ t.columns, c.dataType ∈ DataType.readable := by
  refine Addition.forall_mem_foldl_attach (fun a t ht => ?_) _ ?_
  · cases a with
    | index table i => exact ht
    | description table column text =>
      have htypes := Column.map_describeFirst (f := Column.dataType) (fun _ _ => rfl) column text
        t.columns
      intro c hc
      have hmem : c.dataType ∈ t.columns.map Column.dataType := by
        rw [← htypes]
        exact List.mem_map_of_mem hc
      obtain ⟨c', hc', htype⟩ := List.mem_map.1 hmem
      rw [← htype]
      exact ht c' hc'
  · intro t ht
    obtain ⟨text, skipped, hout⟩ := mem_filterMap_table? ht
    exact Table.dataType_mem_readable_of_ofStatement hout

/-- The stable tables of a script can be rendered and read again. -/
theorem isReread_of_mem_ofScript {d : Dialect} {script : String} {t : Table}
    (ht : t ∈ (ofScript script).tables) (h : t.IsStable d) : t.IsReread d where
  isSettled := h.isSettled (dataType_mem_readable_of_mem_ofStatements t ht)
  texts := h.texts
  isCoherent := isCoherent_of_mem_ofStatements t ht

end Contents

/-! ## Translating twice -/

namespace Conversion

variable {d : Dialect} {script : String}

/-- What a script is translated to, apart from the comments for the tables that it drops. -/
def body (d : Dialect) (script : String) : String :=
  (Table.renderAll { dialect := d } false (Contents.ofScript script).tables).sql

theorem resolve_name (d : Dialect) : Dialect.resolve d.name = (d, []) := by
  cases d <;> decide

/-- A conversion renders the tables of the script behind the comments for dropped tables. -/
theorem sql_ofScript_eq (d : Dialect) (options : RenderOptions) (script : String) :
    (ofScript d.name options script).sql = "\n\n".intercalate
      (dropBlock d (Contents.ofScript script).dropped ++
        tableBlock (Table.renderAll { options with dialect := d } false
          (Contents.ofScript script).tables).sql) := by
  rw [ofScript, resolve_name]
  rfl

/-- The translation is the body behind the comments. -/
theorem sql_ofScript (d : Dialect) (script : String) :
    (ofScript d.name {} script).sql = "\n\n".intercalate
      (dropBlock d (Contents.ofScript script).dropped ++ tableBlock (body d script)) :=
  sql_ofScript_eq d {} script

/-- **Translating a script once more changes nothing** but the comments for dropped tables, if the
tables of the script are stable in the dialect and a table that is rendered with additions has no
other of its name in front of it. -/
theorem ofScript_body (hstable : ∀ t ∈ (Contents.ofScript script).tables, t.IsStable d)
    (hnames : (Contents.ofScript script).tables.Pairwise fun t t' =>
      t'.additions d ≠ [] → t.name ≠ t'.name) :
    (ofScript d.name {} script).sql = "\n\n".intercalate
        (dropBlock d (Contents.ofScript script).dropped ++ tableBlock (body d script)) ∧
      (ofScript d.name {} (body d script)).sql = body d script := by
  obtain ⟨hsql, hdropped⟩ := Table.ofScript_renderAll
    (fun t ht => Contents.isReread_of_mem_ofScript ht (hstable t ht)) hnames
  have hbody : body d (body d script) = body d script := hsql
  have hnothing : (Contents.ofScript (body d script)).dropped = [] := hdropped
  refine ⟨sql_ofScript d script, ?_⟩
  rw [sql_ofScript, hnothing, hbody]
  -- a script without tables is translated to no text at all
  unfold tableBlock
  split
  · rename_i hempty
    rw [String.isEmpty_iff.1 hempty]
    rfl
  · exact String.intercalate_singleton

/-! ## A schema that is translated twice -/

/-- The lines of a schema of a shop, with semicolons between the lists: comments, drops and two
tables with keys, an index, a value set, a description and defaults of all kinds. -/
def shopLines : List (List String) :=
  [["-- shop schema",
    "DROP TABLE IF EXISTS `order_lines`"],
   ["",
    "DROP TABLE IF EXISTS `customers`"],
   ["",
    "",
    "CREATE TABLE IF NOT EXISTS `customers` (",
    "  `id` int(11) NOT NULL AUTO_INCREMENT,",
    "  `email` varchar(120) NOT NULL,",
    "  `name` varchar(80) DEFAULT NULL,",
    "  `tier` enum('basic','gold','platinum') NOT NULL DEFAULT 'basic',",
    "  `active` tinyint(1) NOT NULL DEFAULT 1,",
    "  `balance` decimal(10,2) DEFAULT '0.00',",
    "  `created_at` datetime DEFAULT CURRENT_TIMESTAMP,",
    "  PRIMARY KEY (`id`),",
    "  UNIQUE KEY `uq_customers_email` (`email`)",
    ") ENGINE=InnoDB DEFAULT CHARSET=utf8mb4"],
   ["",
    "",
    "CREATE TABLE IF NOT EXISTS `order_lines` (",
    "  `order_id` int(11) NOT NULL,",
    "  `line_no` int(11) NOT NULL,",
    "  `customer_id` int(11) NOT NULL,",
    "  `note` text COMMENT 'free text',",
    "  PRIMARY KEY (`order_id`, `line_no`),",
    "  KEY `idx_order_lines_customer` (`customer_id`),",
    "  CONSTRAINT `fk_order_lines_customer` FOREIGN KEY (`customer_id`) REFERENCES `customers` (`id`) ON DELETE CASCADE",
    ") ENGINE=InnoDB"],
   ["",
    ""]]

/-- The schema of a shop. -/
def shopSchema : String :=
  ";".intercalate (shopLines.map "\n".intercalate)

/-- The characters of a script that is put together from lines. -/
theorem toList_intercalate_lines {strings : List (List String)} {chars : List (List (List Char))}
    (h : strings = chars.map (List.map String.ofList)) :
    (";".intercalate (strings.map "\n".intercalate)).toList =
      [';'].intercalate (chars.map ['\n'].intercalate) := by
  rw [String.toList_intercalate, h, List.map_map, List.map_map]
  refine congrArg [';'].intercalate (List.map_congr_left fun ls _ => ?_)
  simp [String.toList_intercalate, Function.comp_def]

/-- Whether a text creates a plain table of the given name. -/
def createsPlain (text name : String) : Bool :=
  (Table.ofStatement text).toOption.any fun r => r.1.isPlain && r.1.name == name

theorem exists_of_createsPlain {text name : String} (h : createsPlain text name = true) :
    ∃ t skipped, Table.ofStatement text = .ok (t, skipped) ∧ t.isPlain = true ∧ t.name = name := by
  obtain ⟨⟨t, skipped⟩, hread, ht⟩ := (Option.any_eq_true _ _).1 h
  rw [Bool.and_eq_true, beq_iff_eq] at ht
  refine ⟨t, skipped, ?_, ht⟩
  cases hout : Table.ofStatement text with
  | error cause => rw [hout] at hread; cases hread
  | ok r => rw [hout] at hread; exact congrArg _ (Option.some.inj hread)

/-- The schema is tidy and falls apart into four statements, which drop two tables and create two
plain ones. -/
theorem exists_segments_shopSchema : ∃ a b c d : List Char,
    shopSchema.toList = [';'].intercalate [a, b, c, d, ['\n']] ∧
    (tidy shopSchema = shopSchema ∧ ¬ HasDirectiveWord shopSchema.toList) ∧
    ((∀ w ∈ [a, b, c, d, ['\n']], Mode.normal.behind? w = some .normal) ∧
      [a, b, c, d, ['\n']].filter hasContent = [a, b, c, d]) ∧
    (StatementKind.ofText (String.ofList (Text.trim a)) = .dropTables ["order_lines"] ∧
      StatementKind.ofText (String.ofList (Text.trim b)) = .dropTables ["customers"]) ∧
    createsPlain (String.ofList (Text.trim c)) "customers" = true ∧
      createsPlain (String.ofList (Text.trim d)) "order_lines" = true := by
  -- strings are compared with lists of characters here, not computed
  have hlines : shopLines = List.map (List.map String.ofList)
      [[_, _], [_, _], [_, _, _, _, _, _, _, _, _, _, _, _, _],
        [_, _, _, _, _, _, _, _, _, _, _], [_, _]] := rfl
  have hchars := toList_intercalate_lines hlines
  refine ⟨_, _, _, _, hchars, ⟨?_, ?_⟩, ⟨?_, ?_⟩, ⟨?_, ?_⟩, ?_, ?_⟩
  · have htidy : IsTidy shopSchema.toList := by
      rw [shopSchema, hchars]
      exact .of_splitOn (by decide +kernel) (by decide +kernel)
    have hmark : ∀ c ∈ shopSchema.toList.head?, c.toNat ≠ 0xFEFF := by
      rw [shopSchema, hchars]
      decide +kernel
    rw [tidy, htidy.tidyChars_eq hmark, String.ofList_toList]
  · rw [shopSchema, hchars]
    exact fun h => absurd h.occursIn (by decide +kernel)
  · decide +kernel
  · decide +kernel
  · rw [StatementKind.ofText, String.toList_ofList]
    decide +kernel
  · rw [StatementKind.ofText, String.toList_ofList]
    decide +kernel
  · rw [createsPlain, Table.ofStatement, TableDefinition.ofText, String.toList_ofList]
    decide +kernel
  · rw [createsPlain, Table.ofStatement, TableDefinition.ofText, String.toList_ofList]
    decide +kernel

/-- The schema creates two plain tables and drops as many. -/
theorem exists_tables_shopSchema : ∃ customers orders : Table,
    (Contents.ofScript shopSchema).tables = [customers, orders] ∧
      (Contents.ofScript shopSchema).dropped = ["order_lines", "customers"] ∧
      (∀ t ∈ [customers, orders], t.isPlain = true) ∧ customers.name ≠ orders.name := by
  obtain ⟨a, b, c, d, hchars, ⟨htidy, hword⟩, ⟨hclosed, hcontent⟩, ⟨ha, hb⟩, hc, hd⟩ :=
    exists_segments_shopSchema
  obtain ⟨customers, skipped, hcustomers, hplain, hname⟩ := exists_of_createsPlain hc
  obtain ⟨orders, skipped', horders, hplain', hname'⟩ := exists_of_createsPlain hd
  have hsegments : IsSegmentation shopSchema.toList [a, b, c, d, ['\n']] := by
    rw [hchars]
    exact isSegmentation_intercalate (List.cons_ne_nil _ _) hclosed
  have htexts : (statements shopSchema).map Statement.text =
      [a, b, c, d].map fun segment => String.ofList (Text.trim segment) := by
    rw [← hcontent, ← map_text_statementsOf []]
    exact congrArg _ (Scanner.isFresh_start.statements_eq rfl rfl hsegments hword)
  simp only [List.map_cons, List.map_nil] at htexts
  obtain ⟨first, ss, hscript, hfirst, htexts⟩ := List.map_eq_cons_iff.1 htexts
  obtain ⟨second, ss, rfl, hsecond, htexts⟩ := List.map_eq_cons_iff.1 htexts
  obtain ⟨third, ss, rfl, hthird, htexts⟩ := List.map_eq_cons_iff.1 htexts
  obtain ⟨fourth, ss, rfl, hfourth, htexts⟩ := List.map_eq_cons_iff.1 htexts
  obtain rfl := List.map_eq_nil_iff.1 htexts
  have hyields := (Contents.Yields.of_dropTables (hfirst ▸ ha)).append
    ((Contents.Yields.of_dropTables (hsecond ▸ hb)).append
      ((Contents.Yields.of_ofStatement (hthird ▸ hcustomers)).append
        (Contents.Yields.of_ofStatement (hfourth ▸ horders))))
  obtain ⟨htables, hdropped⟩ := hyields.ofStatements
  rw [Contents.ofScript, htidy, hscript]
  refine ⟨customers, orders, htables, hdropped, by simp [hplain, hplain'], ?_⟩
  rw [hname, hname']
  decide

/-- The schema is translated to a fixed point in all dialects. -/
theorem ofScript_body_shopSchema :
    (Contents.ofScript shopSchema).dropped = ["order_lines", "customers"] ∧ ∀ d : Dialect,
      (ofScript d.name {} shopSchema).sql = "\n\n".intercalate
          (dropBlock d (Contents.ofScript shopSchema).dropped ++
            tableBlock (body d shopSchema)) ∧
        (ofScript d.name {} (body d shopSchema)).sql = body d shopSchema := by
  obtain ⟨customers, orders, htables, hdropped, hplain, hname⟩ := exists_tables_shopSchema
  refine ⟨hdropped, fun d => ofScript_body ?_ ?_⟩
  · rw [htables]
    exact fun t ht => Table.isStable_of_isPlain (hplain t ht) d
  · rw [htables]
    simpa using fun _ => hname

/-- A script with a backslash in a description. -/
def escapedScript : String :=
  "CREATE TABLE t (a INT COMMENT 'x\\y');"

/-- The backslash is doubled by each translation. -/
theorem ofScript_body_escapedScript :
    (∀ t ∈ (Contents.ofScript escapedScript).tables, ∀ n ∈ t.identifiers,
      n ≠ "" ∧ n.toList.all Char.isAlphanum = true) ∧
    (ofScript "mysql" {} (body .mysql escapedScript)).sql ≠ body .mysql escapedScript := by
  decide +kernel

end Conversion
end SchemaScript
