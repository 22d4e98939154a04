import SchemaScript.Proofs.Definition.Coherence
import SchemaScript.Proofs.Render.KeyPlacement

/-!
# What a body declares

A table is assembled from what its body declares and from nothing else
(`Table.isDeclaredBy_assemble`). The definitions that count are the first ones of their names
(`ColumnDefinition.firsts`), so that a table is the same without the others. Its columns are these
definitions; its key, its indexes and its foreign keys come first from them, in their order, and
then from the clauses, in theirs.

The key is marked name by name. A name of no column is passed over, so that the marked names are
the existing ones (`Table.markAll_eq`), and a name that was marked before is not listed again.
-/

namespace SchemaScript

namespace ColumnDefinition

/-- Of each name the first definition, in the order of the definitions. -/
def firsts (ds : List ColumnDefinition) : List ColumnDefinition :=
  (ds.map name).eraseDups.filterMap fun n => ds.find? fun d => d.name == n

/-- Names that have been seen are left out. -/
theorem firstOfEachName_eq (seen : List String) (ds : List ColumnDefinition) :
    firstOfEachName seen ds =
      ((ds.map name).removeAll seen).eraseDups.filterMap fun n =>
        ds.find? fun d => d.name == n := by
  induction ds generalizing seen with
  | nil => rfl
  | cons d ds ih =>
    have hfound : (d :: ds).find? (fun e => e.name == d.name) = some d :=
      List.find?_cons_of_pos (beq_self_eq_true _)
    have hother : ∀ names : List String, d.name ∉ names →
        (names.filterMap fun n => (d :: ds).find? fun e => e.name == n) =
          names.filterMap fun n => ds.find? fun e => e.name == n := by
      refine fun names hd => List.filterMap_congr fun n hn => ?_
      exact List.find?_cons_of_neg fun heq => hd (eq_of_beq heq ▸ hn)
    rw [firstOfEachName, List.map_cons]
    split
    · rename_i hseen
      have hremove : (d.name :: ds.map name).removeAll seen = (ds.map name).removeAll seen :=
        List.filter_cons_of_neg (by simpa using hseen)
      have hnot : d.name ∉ ((ds.map name).removeAll seen).eraseDups := by
        rw [List.mem_eraseDups, List.removeAll, List.mem_filter]
        simpa using fun _ _ _ => hseen
      rw [hremove, ih, hother _ hnot]
    · rename_i hnew
      have hremove : (d.name :: ds.map name).removeAll seen =
          d.name :: (ds.map name).removeAll seen :=
        List.filter_cons_of_pos (by simpa using hnew)
      have hboth : (ds.map name).removeAll (d.name :: seen) =
          ((ds.map name).removeAll seen).filter fun n => !n == d.name := by
        simp only [List.removeAll, List.filter_filter]
        refine List.filter_congr fun n _ => ?_
        by_cases hn : n = d.name <;> simp [hn]
      have hnot : d.name ∉ (((ds.map name).removeAll seen).filter fun n =>
          !n == d.name).eraseDups := by
        simp [List.mem_eraseDups]
      rw [hremove, ih, hboth, List.eraseDups_cons, List.filterMap_cons, hfound]
      exact congrArg (d :: ·) (hother _ hnot).symm

/-- The definitions that count are the first ones of their names. -/
theorem firstOfEachName_eq_firsts (ds : List ColumnDefinition) :
    firstOfEachName [] ds = firsts ds := by
  rw [firstOfEachName_eq, firsts]
  simp [List.removeAll]

/-- Every name has its first definition. -/
theorem map_name_firsts (ds : List ColumnDefinition) :
    (firsts ds).map name = (ds.map name).eraseDups := by
  have hfound : ∀ n ∈ (ds.map name).eraseDups,
      (ds.find? fun d => d.name == n).map name = some n := by
    intro n hn
    rw [List.mem_eraseDups] at hn
    obtain ⟨d, hd, rfl⟩ := List.mem_map.1 hn
    obtain ⟨e, he⟩ : ∃ e, ds.find? (fun e => e.name == d.name) = some e :=
      Option.isSome_iff_exists.1 (List.find?_isSome.2 ⟨d, hd, beq_self_eq_true _⟩)
    have hname : e.name = d.name := by simpa using List.find?_some he
    rw [he, Option.map_some, hname]
  rw [firsts, List.map_filterMap, List.filterMap_congr hfound, List.filterMap_some]

/-- What comes first among the first definitions is all of them. -/
theorem firsts_firsts (ds : List ColumnDefinition) : firsts (firsts ds) = firsts ds := by
  rw [← firstOfEachName_eq_firsts, ← firstOfEachName_eq_firsts]
  exact firstOfEachName_of_nodup (nodup_firstOfEachName [] ds).1 (by simp)

theorem firsts_eq_nil_iff {ds : List ColumnDefinition} : firsts ds = [] ↔ ds = [] := by
  refine ⟨fun h => ?_, fun h => by rw [h]; rfl⟩
  have hnames := map_name_firsts ds
  rw [h] at hnames
  cases ds with
  | nil => rfl
  | cons d ds => simp [List.eraseDups_cons] at hnames

/-- The columns that are defined as keys. -/
theorem filterMap_keyName? (ds : List ColumnDefinition) :
    ds.filterMap keyName? = (ds.filter (·.primaryKey)).map name := by
  rw [← List.filterMap_eq_map, List.filterMap_filter]
  rfl

/-- The indexes of the unique columns. -/
theorem filterMap_index? (ds : List ColumnDefinition) :
    ds.filterMap index? = (ds.filter (·.unique)).map fun d =>
      { name := d.uniqueName, columns := [d.name], unique := true } := by
  rw [← List.filterMap_eq_map, List.filterMap_filter]
  rfl

end ColumnDefinition

namespace Table

open ColumnDefinition (firsts)

/-! ## Marking names that may not exist -/

/-- Names of no column make no difference to a key. -/
theorem markAll_eq (t : Table) (key : List String) :
    t.markAll key = t.markAll (key.filter t.hasColumn) := by
  induction key generalizing t with
  | nil => rfl
  | cons n key ih =>
    have hstep : t.markAll (n :: key) =
        (t.markPrimary n).1.markAll (key.filter t.hasColumn) := by
      rw [← hasColumn_markPrimary t n]
      exact ih _
    cases hn : t.hasColumn n with
    | false =>
      rw [hstep, markPrimary_of_not_hasColumn hn, List.filter_cons_of_neg (by simp [hn])]
    | true =>
      rw [hstep, List.filter_cons_of_pos hn]
      rfl

/-- The columns of a coherent table are flagged as its key says. -/
theorem IsCoherent.columns_eq {t : Table} (h : t.IsCoherent) :
    t.columns = (t.columns.map Column.unflagged).map fun c =>
      { c with primaryKey := t.primaryKey.contains c.name } := by
  rw [List.map_map]
  refine (List.map_id _).symm.trans (List.map_congr_left fun c hc => ?_)
  have hflag : t.primaryKey.contains c.name = c.primaryKey := by
    rw [Bool.eq_iff_iff, h.flagged c hc, List.contains_iff_mem]
  show c = { c with primaryKey := t.primaryKey.contains c.name }
  rw [hflag]

/-! ## The declarations -/

/-- The key that definitions and clauses declare: the columns that are defined as keys, in their
order, and then the existing columns that the clauses name, in theirs, each once. -/
def declaredKey (ds : List ColumnDefinition) (clauses : List Constraint) : List String :=
  (((firsts ds).filter (·.primaryKey)).map (·.name) ++
    (clauses.flatMap fun
      | .primaryKey names => names
      | _ => []).filter (ds.map (·.name)).contains).eraseDups

/-- A table as the definitions and clauses of a body declare it. -/
structure IsDeclaredBy (t : Table) (name : String) (ds : List ColumnDefinition)
    (clauses : List Constraint) : Prop where
  name : t.name = name
  /-- Of each name the first definition, field by field. -/
  columns : t.columns = (firsts ds).map fun d =>
    { name := d.name, dataType := d.dataType, length := d.length, scale := d.scale,
      nullable := d.nullable, default := d.default,
      primaryKey := (declaredKey ds clauses).contains d.name,
      autoIncrement := d.autoIncrement, values := d.values, description := d.comment }
  primaryKey : t.primaryKey = declaredKey ds clauses
  /-- The unique columns, and then the clauses for indexes. -/
  indexes : t.indexes =
    ((firsts ds).filter (·.unique)).map
      (fun d => { name := d.uniqueName, columns := [d.name], unique := true }) ++
    clauses.flatMap fun
      | .unique name columns => [{ name, columns, unique := true }]
      | .index name columns => [{ name, columns, unique := false }]
      | _ => []
  /-- The columns that refer, and then the clauses for foreign keys. A target that names no
  columns is referred to by the local names. -/
  foreignKeys : t.foreignKeys =
    ((firsts ds).flatMap fun d =>
      match d.references with
      | some target =>
        [{ name := d.referencesName, columns := [d.name], referencedTable := target.table,
           referencedColumns := if target.columns = [] then [d.name] else target.columns,
           onUpdate := target.onUpdate, onDelete := target.onDelete }]
      | none => []) ++
    clauses.flatMap fun
      | .foreignKey name columns target =>
        [{ name, columns, referencedTable := target.table,
           referencedColumns := if target.columns = [] then columns else target.columns,
           onUpdate := target.onUpdate, onDelete := target.onDelete }]
      | _ => []
  rows : t.rows = []

section

variable (name : String) (ds : List ColumnDefinition) (clauses : List Constraint)

/-- The table of a body before its key is marked. -/
def unkeyed : Table where
  name := name
  columns := (firsts ds).map ColumnDefinition.toColumn
  foreignKeys := (firsts ds).filterMap ColumnDefinition.foreignKey? ++
    clauses.filterMap Constraint.foreignKey?
  indexes := (firsts ds).filterMap ColumnDefinition.index? ++
    clauses.filterMap Constraint.index?

theorem assemble_eq_markAll (h : ds ≠ []) :
    assemble name ds clauses = .ok ((unkeyed name ds clauses).markAll
      ((firsts ds).filterMap ColumnDefinition.keyName? ++
        clauses.flatMap Constraint.keyNames)) := by
  rw [assemble, if_neg (by simpa using h), ColumnDefinition.firstOfEachName_eq_firsts]
  rfl

theorem hasColumn_unkeyed :
    (unkeyed name ds clauses).hasColumn = (ds.map (·.name)).contains := by
  funext n
  have hnames : (unkeyed name ds clauses).columns.map Column.name =
      (ds.map (·.name)).eraseDups := by
    rw [← ColumnDefinition.map_name_firsts, unkeyed, List.map_map]
    rfl
  rw [Bool.eq_iff_iff, hasColumn_iff, hnames, List.mem_eraseDups, List.contains_iff_mem]

/-- The names that are marked are those of the declared key. -/
theorem eraseDups_filter_hasColumn :
    (((firsts ds).filterMap ColumnDefinition.keyName? ++
      clauses.flatMap Constraint.keyNames).filter
        (unkeyed name ds clauses).hasColumn).eraseDups = declaredKey ds clauses := by
  have hinline : ((firsts ds).filterMap ColumnDefinition.keyName?).filter
      (unkeyed name ds clauses).hasColumn =
        ((firsts ds).filter (·.primaryKey)).map (·.name) := by
    rw [ColumnDefinition.filterMap_keyName?, hasColumn_unkeyed]
    refine List.filter_eq_self.2 fun n hn => ?_
    obtain ⟨d, hd, rfl⟩ := List.mem_map.1 hn
    have hname := List.mem_map_of_mem (f := ColumnDefinition.name) (List.mem_filter.1 hd).1
    rw [ColumnDefinition.map_name_firsts, List.mem_eraseDups] at hname
    exact List.contains_iff_mem.2 hname
  rw [List.filter_append, hinline, hasColumn_unkeyed]
  rfl

theorem indexes_unkeyed :
    (unkeyed name ds clauses).indexes =
      ((firsts ds).filter (·.unique)).map
        (fun d => { name := d.uniqueName, columns := [d.name], unique := true }) ++
      clauses.flatMap fun
        | .unique name columns => [{ name, columns, unique := true }]
        | .index name columns => [{ name, columns, unique := false }]
        | _ => [] := by
  have hclauses : clauses.filterMap Constraint.index? = clauses.flatMap fun
      | .unique name columns => [{ name, columns, unique := true }]
      | .index name columns => [{ name, columns, unique := false }]
      | _ => [] := by
    rw [List.filterMap_eq_flatMap_toList]
    refine List.flatMap_congr fun clause _ => ?_
    cases clause <;> rfl
  rw [← ColumnDefinition.filterMap_index?, ← hclauses]
  rfl

theorem foreignKeys_unkeyed :
    (unkeyed name ds clauses).foreignKeys =
      ((firsts ds).flatMap fun d =>
        match d.references with
        | some target =>
          [{ name := d.referencesName, columns := [d.name], referencedTable := target.table,
             referencedColumns := if target.columns = [] then [d.name] else target.columns,
             onUpdate := target.onUpdate, onDelete := target.onDelete }]
        | none => []) ++
      clauses.flatMap fun
        | .foreignKey name columns target =>
          [{ name, columns, referencedTable := target.table,
             referencedColumns := if target.columns = [] then columns else target.columns,
             onUpdate := target.onUpdate, onDelete := target.onDelete }]
        | _ => [] := by
  have hkey : ∀ (target : Reference) (name : Option String) (columns : List String),
      target.toForeignKey name columns =
        { name, columns, referencedTable := target.table,
          referencedColumns := if target.columns = [] then columns else target.columns,
          onUpdate := target.onUpdate, onDelete := target.onDelete } := by
    intro target name columns
    rw [Reference.toForeignKey]
    simp only [List.isEmpty_iff]
  show (firsts ds).filterMap ColumnDefinition.foreignKey? ++
    clauses.filterMap Constraint.foreignKey? = _
  rw [List.filterMap_eq_flatMap_toList, List.filterMap_eq_flatMap_toList]
  refine congrArg₂ (· ++ ·) (List.flatMap_congr fun d _ => ?_)
    (List.flatMap_congr fun clause _ => ?_)
  · rw [ColumnDefinition.foreignKey?]
    cases d.references with
    | none => rfl
    | some target => exact congrArg (fun k => [k]) (hkey target _ _)
  · cases clause with
    | foreignKey name columns target => exact congrArg (fun k => [k]) (hkey target _ _)
    | _ => rfl

/-- **A table is what its body declares.** Without columns there is none, and definitions of names
that were defined before make no difference. -/
theorem isDeclaredBy_assemble :
    (ds ≠ [] → ∃ t, assemble name ds clauses = .ok t ∧ t.IsDeclaredBy name ds clauses) ∧
    assemble name [] clauses = .error (.noColumns name) ∧
    assemble name (firsts ds) clauses = assemble name ds clauses := by
  refine ⟨fun hne => ?_, rfl, ?_⟩
  · obtain ⟨key, hkey⟩ : ∃ key, key = (firsts ds).filterMap ColumnDefinition.keyName? ++
        clauses.flatMap Constraint.keyNames := ⟨_, rfl⟩
    have ht := assemble_eq_markAll name ds clauses hne
    rw [← hkey, markAll_eq] at ht
    have hcolumns : ∀ n ∈ key.filter (unkeyed name ds clauses).hasColumn,
        (unkeyed name ds clauses).hasColumn n = true :=
      fun n hn => (List.mem_filter.1 hn).2
    have hmarked := marked_markAll hcolumns
    generalize (unkeyed name ds clauses).markAll
      (key.filter (unkeyed name ds clauses).hasColumn) = t at ht hmarked
    have hdeclared : t.primaryKey = declaredKey ds clauses := by
      rw [hmarked.primaryKey, ← eraseDups_filter_hasColumn name, ← hkey]
      exact (foldl_insertNew_eq [] _).trans (by simp [List.removeAll])
    refine ⟨t, ht, hmarked.name, ?_, hdeclared, ?_, ?_, rows_of_assemble ht⟩
    · rw [(isCoherent_of_assemble ht).columns_eq, hmarked.columns, hdeclared]
      simp only [unkeyed, List.map_map]
      rfl
    · rw [hmarked.indexes, indexes_unkeyed]
    · rw [hmarked.foreignKeys, foreignKeys_unkeyed]
  · by_cases hne : ds = []
    · rw [hne]
      rfl
    · have hne' : firsts ds ≠ [] := mt ColumnDefinition.firsts_eq_nil_iff.1 hne
      rw [assemble_eq_markAll _ _ _ hne, assemble_eq_markAll _ _ _ hne', unkeyed, unkeyed,
        ColumnDefinition.firsts_firsts]

end

/-- The columns of a body that defines one of them twice, the second time with a key, an index and
a reference of its own. -/
def lineColumns : List ColumnDefinition :=
  [{ name := "line", dataType := "INT", primaryKey := true },
    { name := "order", dataType := "INT", unique := true, uniqueName := some "uq",
      references := some { table := "orders" } },
    { name := "line", dataType := "TEXT", unique := true, references := some { table := "u" } },
    { name := "note", dataType := "TEXT" }]

/-- Its clauses. The first key names a column that does not exist, and the second one names
columns again. -/
def lineClauses : List Constraint :=
  [.primaryKey ["order", "ghost"], .index none ["note"], .primaryKey ["line", "order", "note"],
    .foreignKey (some "fk") ["order"] { table := "orders", columns := ["id"] }]

theorem isDeclaredBy_assemble_lines :
    lineColumns ≠ [] ∧ ∃ t, assemble "lines" lineColumns lineClauses = .ok t ∧
      t.primaryKey = ["line", "order", "note"] ∧
      t.columns = [{ name := "line", dataType := "INT", primaryKey := true },
        { name := "order", dataType := "INT", primaryKey := true },
        { name := "note", dataType := "TEXT", primaryKey := true }] ∧
      t.indexes = [{ name := some "uq", columns := ["order"], unique := true },
        { columns := ["note"] }] ∧
      t.foreignKeys =
        [{ columns := ["order"], referencedTable := "orders", referencedColumns := ["order"] },
          { name := some "fk", columns := ["order"], referencedTable := "orders",
            referencedColumns := ["id"] }] := by
  have hne : lineColumns ≠ [] := List.cons_ne_nil _ _
  obtain ⟨t, ht, hdeclared⟩ := (isDeclaredBy_assemble "lines" lineColumns lineClauses).1 hne
  exact ⟨hne, t, ht, hdeclared.primaryKey.trans (by decide), hdeclared.columns.trans (by decide),
    hdeclared.indexes.trans (by decide), hdeclared.foreignKeys.trans (by decide)⟩

end Table
end SchemaScript
