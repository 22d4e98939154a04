import SchemaScript.Proofs.Definition.TypeNames
import SchemaScript.Proofs.Render.DerivedNames

/-!
# Rendering is a fixed point

The statement that creates a table is read as a table with the same columns, key and constraints,
whatever the dialect is (`Table.exists_madeOf`). In MySQL and MariaDB this is all that is rendered
for a table, so that what is read is rendered as the same text (`Table.ofStatement_rendered`). The
table must be without faults, its names must do without backticks and its texts without
backslashes, its types must be among those that a column can be read with, and its defaults must be
numbers or truth values. This is what `Table.IsSettled` asks for, apart from the names that are not
given but derived.
-/

namespace SchemaScript

namespace Table

variable {d : Dialect} {t : Table}

/-! ## The key -/

/-- A table without faults has columns, and their names are different. -/
theorem columns_of_fault? (h : t.fault? = none) :
    t.columns ≠ [] ∧ (t.columns.map Column.name).Nodup := by
  rw [fault?] at h
  split at h
  · cases h
  split at h
  · cases h
  rename_i hcolumns
  split at h
  · cases h
  · rename_i hrepeated
    exact ⟨by simpa using hcolumns, (firstRepeated_eq_none hrepeated).1⟩

/-- The columns that are rendered as a key of their own: the only one of the key. -/
theorem filterMap_keyName?_definitions (d : Dialect)
    (hnodup : (t.columns.map Column.name).Nodup) :
    (t.definitions d).filterMap ColumnDefinition.keyName? =
      if 1 < t.renderedKey.length then [] else t.renderedKey := by
  have hone : ∀ c : Column, (c.read d (t.role c)).keyName? =
      if t.renderedKey = [c.name] then some c.name else none := by
    intro c
    have hrole : (t.role c == .whole) = decide (t.renderedKey = [c.name]) := by
      rw [role, Column.KeyRole.inKey]
      by_cases hkey : t.renderedKey = [c.name]
      · rw [if_pos hkey, decide_eq_true hkey]
        rfl
      · rw [if_neg hkey, decide_eq_false hkey]
        split <;> rfl
    show (if (t.role c == .whole) = true then some c.name else none) = _
    rw [hrole]
    by_cases hkey : t.renderedKey = [c.name]
    · rw [if_pos hkey, decide_eq_true hkey, if_pos rfl]
    · rw [if_neg hkey, decide_eq_false hkey, if_neg Bool.false_ne_true]
  have hfilter : (t.definitions d).filterMap ColumnDefinition.keyName? =
      (t.columns.map Column.name).filter fun n => decide (t.renderedKey = [n]) := by
    rw [definitions, List.filterMap_map, ← List.filterMap_eq_filter, List.filterMap_map]
    refine List.filterMap_congr fun c _ => ?_
    show (c.read d (t.role c)).keyName? = _
    rw [hone]
    by_cases hkey : t.renderedKey = [c.name] <;> simp [hkey, Option.guard]
  rw [hfilter]
  cases hkey : t.renderedKey with
  | nil => simp
  | cons k ks =>
    cases ks with
    | nil =>
      have hk : k ∈ t.columns.map Column.name :=
        mem_columns_of_mem_renderedKey (by rw [hkey]; exact List.mem_cons_self)
      have heq : (fun n => decide ([k] = [n])) = fun n => n == k := by
        funext n
        rw [Bool.eq_iff_iff, decide_eq_true_iff, beq_iff_eq, List.singleton_inj]
        exact eq_comm
      rw [heq, List.filter_beq, List.count_eq_one_of_mem hnodup hk]
      rfl
    | cons k' ks => simp

/-- The key that is read is the one that was rendered. -/
theorem key_of_rendered (d : Dialect) (hnodup : (t.columns.map Column.name).Nodup) :
    (t.definitions d).filterMap ColumnDefinition.keyName? ++
      (t.constraints d).flatMap Constraint.keyNames = t.renderedKey := by
  have hforeign : (t.completeKeys.map fun k => Constraint.foreignKey (some (k.nameFor t.name))
      k.columns k.target).flatMap Constraint.keyNames = [] := by
    rw [List.flatMap_eq_nil_iff]
    intro c hc
    obtain ⟨k, -, rfl⟩ := List.mem_map.1 hc
    rfl
  have hindexes : (if d.hasInlineIndexes then t.allIndexes.map fun i =>
      Constraint.ofIndex i.unique (some (i.name.getD "")) i.columns else []).flatMap
        Constraint.keyNames = [] := by
    split
    · rw [List.flatMap_eq_nil_iff]
      intro c hc
      obtain ⟨i, -, rfl⟩ := List.mem_map.1 hc
      cases i.unique <;> rfl
    · rfl
  rw [filterMap_keyName?_definitions d hnodup, constraints, List.flatMap_append,
    List.flatMap_append, hforeign, hindexes, List.append_nil, List.append_nil]
  split
  · simp [Constraint.keyNames]
  · simp

/-! ## The fixed point -/

/-- **The statement of a settled table is read as it was rendered**, with or without its
semicolon. -/
theorem exists_madeOf (ht : t.IsSettled d) (hcolumns : t.columns ≠ [])
    (hnodup : (t.columns.map Column.name).Nodup) {text : String}
    (htext : t.createStatement { dialect := d } = text ∨
      t.createStatement { dialect := d } = text ++ ";") :
    ∃ t', Table.ofStatement text = .ok (t', []) ∧
      t'.MadeOf t.name ((t.definitions d).map ColumnDefinition.toColumn) t.renderedKey
        (t.constraints d) := by
  have hnames : (t.definitions d).map ColumnDefinition.name = t.columns.map Column.name := by
    rw [definitions, List.map_map]
    rfl
  have hplain : ∀ p ∈ t.definitions d, p.unique = false ∧ p.references = none := by
    intro p hp
    obtain ⟨c, -, rfl⟩ := List.mem_map.1 hp
    exact ⟨rfl, rfl⟩
  have hne : t.definitions d ≠ [] := by simpa [definitions] using hcolumns
  have hdistinct : ((t.definitions d).map ColumnDefinition.name).Nodup := by
    rw [hnames]
    exact hnodup
  have hmem : ∀ n ∈ t.renderedKey, n ∈ (t.definitions d).map ColumnDefinition.name := by
    rw [hnames]
    exact fun n hn => mem_columns_of_mem_renderedKey hn
  obtain ⟨t', hassemble, hmade⟩ :=
    assemble_of_nodup hne hdistinct hplain (key_of_rendered d hnodup) (nodup_renderedKey t) hmem
  refine ⟨t', ?_, hmade⟩
  simp only [ofStatement, ofText_rendered ht hcolumns htext, TableDefinition.toTable, hassemble]

/-- Where nothing is rendered but the statement that creates a table, this is all to be read. -/
theorem isReadFrom_of_madeOf (hd : d.isMySqlFamily = true) {t' : Table}
    (h : t'.MadeOf t.name ((t.definitions d).map ColumnDefinition.toColumn) t.renderedKey
      (t.constraints d)) : t'.IsReadFrom d t where
  name := h.name
  columns := by
    have hne : d ≠ .postgresql := by
      rintro rfl
      cases hd
    rw [h.columns, definitions, List.map_map]
    exact List.map_congr_left fun c _ => (Column.described_eq hne).symm
  key := h.key
  foreignKeys := by rw [h.foreignKeys, filterMap_foreignKey?_constraints]
  indexes := by
    have hinline : d.hasInlineIndexes = true := hd
    rw [h.indexes, filterMap_index?_constraints, if_pos hinline]

/-- The columns of MySQL and MariaDB with defaults that are numbers or truth values. -/
theorem isSettled_of_isMySqlFamily (hd : d.isMySqlFamily = true) {c : Column}
    (hname : d.IsNameable c.name) (hreadable : c.dataType ∈ DataType.readable)
    (htexts : ∀ s ∈ c.description.toList ++ c.values, '\\' ∉ s.toList)
    (hdefault : ∀ text, c.default = some (.literal text) → c.isInteger = true ∨ c.isBoolean = true)
    (hcounting : c.isBoolean = true → c.autoIncrement = false) : c.IsSettled d := by
  have hsqlserver : d ≠ .sqlserver := by
    rintro rfl
    cases hd
  have hbit : ∀ text, c.default = some (.literal text) → c.dataType = "BIT" →
      c.isBoolean = true := by
    intro text htext hbit
    refine (hdefault text htext).resolve_left fun hinteger => ?_
    have hmem := DataType.mem_of_isInteger hreadable hinteger
    rw [hbit] at hmem
    revert hmem
    decide
  have hnumber : ∀ text, c.default = some (.literal text) → ¬ c.KeepsDefault := by
    rintro text htext ⟨hboolean, hinteger, -⟩
    rcases hdefault text htext with h | h
    · rw [hinteger] at h
      cases h
    · rw [hboolean] at h
      cases h
  refine ⟨hname, ⟨hreadable, Column.renderedType_ne_of_ne_sqlserver hsqlserver c, fun _ v hv => ?_⟩,
    fun text htext _ => ?_, fun _ text htext => ?_, fun hboolean => ?_⟩
  · exact htexts v (List.mem_append_right _ hv)
  · have hkept := hnumber text htext
    exact ⟨fun hx => Or.inl (hbit text htext hx), fun _ => Or.inl hd, fun hc => absurd hc hkept,
      fun hc => absurd hc hkept, fun hc => absurd hc hkept⟩
  · exact htexts text (List.mem_append_left _ (by simpa using htext))
  · rw [Column.isWrittenCounting, hcounting hboolean, Bool.false_and]

/-- **Rendering is a fixed point.** A table for MySQL or MariaDB that is rendered can be read,
with its name, its columns and its key, and what is read is rendered as the same text. -/
theorem ofStatement_rendered (hd : d.isMySqlFamily = true) (hvalid : t.fault? = none)
    (hnames : ∀ n ∈ t.identifiers, '\x60' ∉ n.toList)
    (htypes : ∀ c ∈ t.columns, ∃ text p,
      ColumnDefinition.ofText? text = some p ∧ p.dataType = c.dataType)
    (htexts : ∀ c ∈ t.columns, ∀ s ∈ c.description.toList ++ c.values, '\\' ∉ s.toList)
    (hdefaults : ∀ c ∈ t.columns, ∀ text, c.default = some (.literal text) →
      c.isInteger = true ∨ c.isBoolean = true)
    (hcounting : ∀ c ∈ t.columns, c.isBoolean = true → c.autoIncrement = false) :
    ∃ t', Table.ofStatement (t.rendered { dialect := d }).sql = .ok (t', []) ∧
      t'.name = t.name ∧
      t'.columns.map Column.name = t.columns.map Column.name ∧
      t'.renderedKey = t.renderedKey ∧
      (t'.rendered { dialect := d }).sql = (t.rendered { dialect := d }).sql := by
  have ht : t.IsSettled d := by
    refine isSettled_of_isNameable (isNameable_of_isMySqlFamily hd hnames) fun c hc hname => ?_
    obtain ⟨text, p, hp, htype⟩ := htypes c hc
    obtain ⟨ts, -, hts⟩ := Option.bind_eq_some_iff.1 hp
    exact isSettled_of_isMySqlFamily hd hname
      (htype ▸ ColumnDefinition.dataType_mem_readable hts) (htexts c hc) (hdefaults c hc)
      (hcounting c hc)
  obtain ⟨hcolumns, hnodup⟩ := columns_of_fault? hvalid
  have hoptions : ({ dialect := d } : RenderOptions).dialect.isMySqlFamily = true := hd
  have htext : t.createStatement { dialect := d } = (t.rendered { dialect := d }).sql :=
    (renderedText_of_isMySqlFamily hoptions t).symm
  obtain ⟨t', hread, hmade⟩ := exists_madeOf ht hcolumns hnodup (Or.inl htext)
  have hfrom := isReadFrom_of_madeOf hd hmade
  have hcolumnNames : t'.columns.map Column.name = t.columns.map Column.name := by
    have hunflagged := congrArg (List.map Column.name) hfrom.columns
    simpa only [List.map_map, Function.comp_def, Column.name_unflagged,
      Column.name_described] using hunflagged
  exact ⟨t', hread, hfrom.name, hcolumnNames, hfrom.key, hfrom.renderedText ht⟩

/-- A table with a column that counts up, a value set, a truth value with a default, a description
with a quote, a foreign key that is not named and an index. -/
def orders : Table where
  name := "orders"
  columns :=
    [{ name := "id", dataType := "INT", nullable := false, autoIncrement := true },
      { name := "state", dataType := "ENUM", values := ["new", "it's"] },
      { name := "paid", dataType := "BOOLEAN", default := some (.literal "yes") },
      { name := "customer", dataType := "INT", description := some "who's to pay" }]
  primaryKey := ["id"]
  foreignKeys :=
    [{ columns := ["customer"], referencedTable := "customers", referencedColumns := ["id"]
       onDelete := some "set  null" }]
  indexes := [{ columns := ["state", "paid"], unique := true }]

theorem ofStatement_rendered_orders :
    orders.fault? = none ∧
      ∃ t', Table.ofStatement (orders.rendered { dialect := .mysql }).sql = .ok (t', []) ∧
        t'.name = orders.name ∧
        t'.columns.map Column.name = orders.columns.map Column.name ∧
        t'.renderedKey = orders.renderedKey ∧
        (t'.rendered { dialect := .mysql }).sql = (orders.rendered { dialect := .mysql }).sql := by
  have hvalid : orders.fault? = none := by decide
  have htype : ∀ text name : String,
      (ColumnDefinition.ofText? text).map ColumnDefinition.dataType = some name →
        ∃ text p, ColumnDefinition.ofText? text = some p ∧ p.dataType = name :=
    fun text _ h => ⟨text, Option.map_eq_some_iff.1 h⟩
  have htypes : ∀ c ∈ orders.columns, ∃ text p,
      ColumnDefinition.ofText? text = some p ∧ p.dataType = c.dataType := by
    simp only [orders, List.forall_mem_cons]
    exact ⟨htype "a INT" "INT" (by decide +kernel),
      htype "a ENUM('x')" "ENUM" (by decide +kernel),
      htype "a BOOLEAN" "BOOLEAN" (by decide +kernel), htype "a INT" "INT" (by decide +kernel),
      fun _ hc => absurd hc List.not_mem_nil⟩
  refine ⟨hvalid, ofStatement_rendered rfl hvalid (by decide) htypes (by decide)
    ?_ (by decide)⟩
  simp only [orders, List.forall_mem_cons]
  exact ⟨nofun, nofun, fun _ _ => Or.inr rfl, nofun, nofun⟩

end Table
end SchemaScript
