import Mathlib.Data.List.Permutation
import SchemaScript.Proofs.Render.Translation
import SchemaScript.Schema.Exchange

/-!
# Nothing is lost in the exchange

Tables that are written as structured data are read back as they were. A writer leaves fields
out, and a reader has a rule for each field that is missing: both sides of every field are
paired here, by the lemmas that read a written size, text, list or default
(`Record.optionalSize?_map`, `Record.optionalText?_map`, `Record.list?_lookup_listField`,
`DefaultValue.ofJson?_map`). A record as a whole is read back because its fields are written in
the order of their names, some left out and none twice (`Record.values?_object`).

What a reader of tables refuses is then exactly what has a fault (`Table.checkedList_listToJson`).
The tables of a script have none but a blank name, so without one a script that takes the way
through structured data is rendered as it is when it is converted at once
(`Table.listOfText_of_denotes`).
-/

namespace SchemaScript

/-! ## Fields -/

namespace Record

variable {α : Type} {name : String}

/-- The items of a written list are read back if each of them is. -/
theorem mapM_map {write : α → Json} {item : Json → Option α} {items : List α}
    (h : ∀ a ∈ items, item (write a) = some a) : (items.map write).mapM item = some items := by
  induction items with
  | nil => rfl
  | cons a items ih =>
    obtain ⟨ha, hitems⟩ := List.forall_mem_cons.1 h
    rw [List.map_cons, List.mapM_cons, ha, ih hitems]
    rfl

theorem lookup_optionalField (name : String) (value : Option α) (write : α → Json) :
    (optionalField name value write).lookup name = value.map write := by
  cases value <;> simp [optionalField]

theorem lookup_optionalField_of_ne {n : String} (h : n ≠ name) (value : Option α)
    (write : α → Json) : (optionalField name value write).lookup n = none := by
  cases value <;> simp [optionalField, h]

theorem lookup_listField_of_ne {n : String} (h : n ≠ name) (items : List α)
    (write : α → Json) : (listField name items write).lookup n = none := by
  cases items <;> simp [listField, h]

/-- A list is read back, whether it has a field or is empty and has none. -/
theorem list?_lookup_listField {item : Json → Option α} {write : α → Json} {items : List α}
    (h : ∀ a ∈ items, item (write a) = some a) :
    list? item ((listField name items write).lookup name) = some items := by
  cases items with
  | nil => rfl
  | cons a items =>
    rw [listField, List.isEmpty_cons, if_neg Bool.false_ne_true, List.lookup_cons_self]
    exact mapM_map h

theorem list?_lookup_texts (name : String) (items : List String) :
    list? text? ((listField name items .string).lookup name) = some items :=
  list?_lookup_listField fun _ _ => rfl

/-- A list with a field of its own is read back. -/
theorem list?_written {item : Json → Option α} {write : α → Json} {items : List α}
    (h : ∀ a ∈ items, item (write a) = some a) :
    list? item (some (.array (items.map write))) = some items :=
  mapM_map h

theorem list?_texts (items : List String) : list? text? (some (texts items)) = some items :=
  list?_written fun _ _ => rfl

theorem optionalText?_map (value : Option String) :
    optionalText? (value.map .string) = some value := by
  cases value <;> rfl

/-- A number of 32 bits is read back. -/
theorem optionalSize?_map (value : Option UInt32) :
    optionalSize? (value.map size) = some value := by
  cases value with
  | none => rfl
  | some n =>
    have hrange : n.toNat < UInt32.size := n.toNat_lt
    simp [size, optionalSize?, Number.toWord32?, hrange]

/-- Whether the fields have some of the names, in their order and none twice. -/
def Named (names : List String) (fields : List (String × Json)) : Prop :=
  (fields.map Prod.fst).Sublist names

theorem Named.append {names names' : List String} {fields fields' : List (String × Json)}
    (h : Named names fields) (h' : Named names' fields') :
    Named (names ++ names') (fields ++ fields') := by
  rw [Named, List.map_append]
  exact List.Sublist.append h h'

theorem named_self (fields : List (String × Json)) : Named (fields.map Prod.fst) fields :=
  List.Sublist.refl _

theorem named_optionalField (name : String) (value : Option α) (write : α → Json) :
    Named [name] (optionalField name value write) := by
  cases value with
  | none => exact List.nil_sublist _
  | some v => exact List.Sublist.refl _

theorem named_listField (name : String) (items : List α) (write : α → Json) :
    Named [name] (listField name items write) := by
  cases items with
  | nil => exact List.nil_sublist _
  | cons a items => exact List.Sublist.refl _

/-- Fields in the order of their names, some of them left out, are the fields of a record. -/
theorem values?_object {names : List String} {fields : List (String × Json)}
    (hnames : names.Nodup) (hfields : Named names fields) :
    values? names (.object fields) = some (names.map fun n => fields.lookup n) := by
  have hcount : ∀ n, count fields n ≤ 1 := by
    intro n
    have honce := List.nodup_iff_count_le_one.1 (hfields.nodup hnames) n
    rwa [List.count, List.countP_map] at honce
  rw [values?, if_pos (List.all_eq_true.2 fun n _ => decide_eq_true (hcount n))]

end Record

/-! ## Records -/

/-- Absent, null and a text are three defaults, and stay so. -/
theorem DefaultValue.ofJson?_map (default : Option DefaultValue) :
    ofJson? (default.map toJson) = some default := by
  match default with
  | none | some .null | some (.literal _) => rfl

open Record

/-- A column is read back. -/
theorem Column.ofJson?_toJson (c : Column) : ofJson? c.toJson = some c := by
  have hnamed : Named fieldNames _ :=
    (((((((named_self [("name", .string c.name), ("type", .string c.dataType)]).append
      (named_optionalField "length" c.length size)).append
      (named_optionalField "scale" c.scale size)).append
      (named_self [("nullable", .bool c.nullable)])).append
      (named_optionalField "default" c.default DefaultValue.toJson)).append
      (named_self [("primaryKey", .bool c.primaryKey),
        ("autoIncrement", .bool c.autoIncrement)])).append
      (named_listField "values" c.values .string)).append
      (named_optionalField "description" c.description .string)
  rw [ofJson?, toJson, values?_object (by decide) hnamed]
  simp [fieldNames, List.lookup_append, lookup_optionalField, lookup_optionalField_of_ne,
    lookup_listField_of_ne, List.lookup_cons, optionalSize?_map, optionalText?_map,
    list?_lookup_texts, DefaultValue.ofJson?_map, requiredText?, text?, flag?]

/-- A foreign key is read back. -/
theorem ForeignKey.ofJson?_toJson (k : ForeignKey) : ofJson? k.toJson = some k := by
  have hnamed : Named fieldNames _ :=
    (((named_optionalField "name" k.name .string).append
      (named_self [("columnName", texts k.columns),
        ("referencedTable", .string k.referencedTable),
        ("referencedColumn", texts k.referencedColumns)])).append
      (named_optionalField "onUpdate" k.onUpdate .string)).append
      (named_optionalField "onDelete" k.onDelete .string)
  rw [ofJson?, toJson, values?_object (by decide) hnamed]
  simp [fieldNames, List.lookup_append, lookup_optionalField, lookup_optionalField_of_ne,
    List.lookup_cons, optionalText?_map, list?_texts, textOrEmpty?, text?]

/-- An index is read back. -/
theorem Index.ofJson?_toJson (i : Index) : ofJson? i.toJson = some i := by
  have hnamed : Named fieldNames _ :=
    (named_optionalField "name" i.name .string).append
      (named_self [("columns", texts i.columns), ("unique", .bool i.unique)])
  rw [ofJson?, toJson, values?_object (by decide) hnamed]
  simp [fieldNames, List.lookup_append, lookup_optionalField, lookup_optionalField_of_ne,
    List.lookup_cons, optionalText?_map, list?_texts, flag?]

/-- A row is read back: its fields stand in the order of their names already. -/
theorem Row.ofJson?_toJson (r : Row) : ofJson? r.toJson = some r := by
  have hcanonical : r.toJson.canonical? = some (.object r.cells) := r.canonical
  unfold ofJson?
  split
  · rename_i fields hfields
    cases hcanonical.symm.trans hfields
    rfl
  · rename_i hother
    exact absurd hcanonical (hother r.cells)

namespace Table

/-- A table is read back. -/
theorem ofJson?_toJson (t : Table) : ofJson? t.toJson = some t := by
  have hnamed : Named fieldNames _ :=
    ((((named_self [("name", .string t.name),
        ("columns", .array (t.columns.map Column.toJson))]).append
      (named_listField "primaryKey" t.primaryKey .string)).append
      (named_listField "foreignKeys" t.foreignKeys ForeignKey.toJson)).append
      (named_listField "indexes" t.indexes Index.toJson)).append
      (named_listField "data" t.rows Row.toJson)
  have hcolumns : list? Column.ofJson? (some (.array (t.columns.map Column.toJson))) =
      some t.columns := list?_written fun c _ => c.ofJson?_toJson
  have hforeign : list? ForeignKey.ofJson? ((listField "foreignKeys" t.foreignKeys
      ForeignKey.toJson).lookup "foreignKeys") = some t.foreignKeys :=
    list?_lookup_listField fun k _ => k.ofJson?_toJson
  have hindexes : list? Index.ofJson? ((listField "indexes" t.indexes Index.toJson).lookup
      "indexes") = some t.indexes := list?_lookup_listField fun i _ => i.ofJson?_toJson
  have hrows : list? Row.ofJson? ((listField "data" t.rows Row.toJson).lookup "data") =
      some t.rows := list?_lookup_listField fun r _ => r.ofJson?_toJson
  rw [ofJson?, toJson, values?_object (by decide) hnamed]
  simp [fieldNames, List.lookup_append, lookup_listField_of_ne, List.lookup_cons,
    list?_lookup_texts, requiredText?, text?, hcolumns, hforeign, hindexes, hrows]

theorem listOfJson?_listToJson (tables : List Table) :
    listOfJson? (listToJson tables) = some tables :=
  mapM_map fun t _ => t.ofJson?_toJson

/-- What is written and read again is refused for its first fault, if it has one, and is the same
otherwise. -/
theorem checkedList_listToJson (tables : List Table) :
    checkedList (listToJson tables) =
      match firstFault? tables with
      | some fault => .error (.invalidTable fault)
      | none => .ok tables := by
  cases hfault : firstFault? tables <;>
    simp [checkedList, listOfJson?_listToJson, hfault]

theorem firstFault?_eq_none {tables : List Table} (h : ∀ t ∈ tables, t.fault? = none) :
    firstFault? tables = none :=
  List.findSome?_eq_none_iff.2 h

theorem firstFault?_of_first {before behind : List Table} {t : Table} {fault : TableFault}
    (hbefore : ∀ t' ∈ before, t'.fault? = none) (ht : t.fault? = some fault) :
    firstFault? (before ++ t :: behind) = some fault := by
  rw [firstFault?, List.findSome?_append, List.findSome?_eq_none_iff.2 hbefore, Option.none_or,
    List.findSome?_cons, ht]

/-! ## The tables of a script -/

/-- A table that a statement creates has no rows. -/
theorem rows_of_ofStatement {text : String} {t : Table} {skipped : List String}
    (h : ofStatement text = .ok (t, skipped)) : t.rows = [] := by
  obtain ⟨items, columns, constraints, -, -, hassemble⟩ := exists_accounts_of_ofStatement h
  exact rows_of_assemble hassemble

/-- Without rows there are no inserts to write. -/
theorem renderedBlock_of_rows {t : Table} (h : t.rows = []) (options : RenderOptions)
    (withRows : Bool) : t.renderedBlock options withRows = t.renderedBlock options false := by
  have hinserts : t.insertStatements options = [] := by
    simp [insertStatements, h, batches]
  cases withRows with
  | true => rw [renderedBlock, hinserts]; rfl
  | false => rfl

end Table

namespace Contents

theorem rows_of_mem_ofScript {script : String} : ∀ t ∈ (ofScript script).tables, t.rows = [] := by
  refine Addition.forall_mem_foldl_attach (fun a t ht => ?_) _ fun t ht => ?_
  · cases a <;> exact ht
  · obtain ⟨text, skipped, hout⟩ := mem_filterMap_table? ht
    exact Table.rows_of_ofStatement hout

/-- The tables of a script are rendered with rows as they are without. -/
theorem renderAll_ofScript (options : RenderOptions) (withRows : Bool) (script : String) :
    Table.renderAll options withRows (ofScript script).tables =
      Table.renderAll options false (ofScript script).tables := by
  have hblocks : (ofScript script).tables.map (Table.renderedBlock options withRows) =
      (ofScript script).tables.map (Table.renderedBlock options false) :=
    List.map_congr_left fun t ht =>
      Table.renderedBlock_of_rows (rows_of_mem_ofScript t ht) options withRows
  rw [Table.renderAll, hblocks]
  rfl

end Contents

/-! ## Two ways to a script -/

namespace Table

/-- **Nothing is lost in the exchange.** A text that denotes some tables is read as these tables
if none of them has a fault, and is refused for the fault of the first one that has. A script in
which every table has a name, written as structured data, read again and rendered, gives what its
conversion has behind the comments for dropped tables, whatever the choices for rendering. -/
theorem listOfText_of_denotes {text : String} {tables : List Table}
    (htext : Json.ofText? text = some (listToJson tables)) :
    ((∀ t ∈ tables, t.fault? = none) → listOfText text = .ok tables) ∧
    (∀ before t behind fault, tables = before ++ t :: behind →
      (∀ t' ∈ before, t'.fault? = none) → t.fault? = some fault →
      listOfText text = .error (.invalidTable fault)) ∧
    ∀ script, tables = (Contents.ofScript script).tables →
      (∀ t ∈ tables, Text.isBlankString t.name = false) →
      ∃ reread, listOfText text = .ok reread ∧
        ∀ (d : Dialect) (options : RenderOptions) (withRows : Bool),
          (Conversion.ofScript d.name options script).sql = "\n\n".intercalate
            (Conversion.dropBlock d (Contents.ofScript script).dropped ++
              Conversion.tableBlock
                (renderAll { options with dialect := d } withRows reread).sql) := by
  have hread : listOfText text = checkedList (listToJson tables) := by
    rw [listOfText, htext]
  have hgood : (∀ t ∈ tables, t.fault? = none) → listOfText text = .ok tables := by
    intro h
    rw [hread, checkedList_listToJson, firstFault?_eq_none h]
  refine ⟨hgood, ?_, ?_⟩
  · rintro before t behind fault rfl hbefore ht
    rw [hread, checkedList_listToJson, firstFault?_of_first hbefore ht]
  · rintro script rfl hnames
    refine ⟨_, hgood fun t ht => ?_, fun d options withRows => ?_⟩
    · exact (Contents.isCoherent_of_mem_ofStatements t ht).fault?_eq_none_iff.2 (hnames t ht)
    · rw [Contents.renderAll_ofScript]
      exact Conversion.sql_ofScript_eq d options script

/-- A script with a default of null, a column without a default, and a dropped table. -/
def exchangedScript : String :=
  "DROP TABLE u;CREATE TABLE t(a INT DEFAULT NULL,b INT)"

/-- The table of the script. -/
def exchangedTable : Table where
  name := "t"
  columns :=
    [{ name := "a", dataType := "INT", default := some .null }, { name := "b", dataType := "INT" }]

/-- What the table is written as. -/
def exchangedText : String :=
  "[\x7b\"name\":\"t\",\"columns\":[" ++
    "\x7b\"name\":\"a\",\"type\":\"INT\",\"nullable\":true,\"default\":null," ++
    "\"primaryKey\":false,\"autoIncrement\":false\x7d," ++
    "\x7b\"name\":\"b\",\"type\":\"INT\",\"nullable\":true," ++
    "\"primaryKey\":false,\"autoIncrement\":false\x7d]\x7d]"

theorem tables_exchangedScript : (Contents.ofScript exchangedScript).tables = [exchangedTable] := by
  have hparts : (Contents.ofScript exchangedScript).tables.map (fun t =>
      ((t.name, t.columns), t.primaryKey, t.foreignKeys, t.indexes)) =
      [(("t", exchangedTable.columns), [], [], [])] := by decide +kernel
  obtain ⟨t, htables, ht⟩ := List.map_eq_singleton_iff.1 hparts
  have hmem : t ∈ (Contents.ofScript exchangedScript).tables := by simp [htables]
  have hrows : t.rows = [] := Contents.rows_of_mem_ofScript t hmem
  rw [htables]
  cases t
  simp_all [exchangedTable]

/-- What a table without columns is written as. -/
def bareText : String := "[\x7b\"name\":\"t\",\"columns\":[]\x7d]"

theorem ofText?_exchangedText :
    Json.ofText? exchangedText = some (listToJson [exchangedTable]) := by
  cbv

theorem ofText?_bareText : Json.ofText? bareText = some (listToJson [{ name := "t" }]) := by
  cbv

/-- The script's table makes its way and is rendered; a table without columns does not. -/
theorem listOfText_of_denotes_exchangedScript :
    (∃ reread, listOfText exchangedText = .ok reread ∧
      (Conversion.ofScript "sqlite" {} exchangedScript).sql = "\n\n".intercalate
        (Conversion.dropBlock .sqlite (Contents.ofScript exchangedScript).dropped ++
          Conversion.tableBlock (renderAll { dialect := .sqlite } true reread).sql)) ∧
    listOfText bareText = .error (.invalidTable (.noColumns "t")) := by
  have hname : Text.isBlankString exchangedTable.name = false := by decide
  have hfault : ({ name := "t" } : Table).fault? = some (.noColumns "t") := by decide
  constructor
  · obtain ⟨reread, hread, hsql⟩ := (listOfText_of_denotes ofText?_exchangedText).2.2
      exchangedScript tables_exchangedScript.symm (by simpa using hname)
    exact ⟨reread, hread, hsql .sqlite {} true⟩
  · exact (listOfText_of_denotes ofText?_bareText).2.1 [] _ [] _ rfl (by simp) hfault

end Table
end SchemaScript
