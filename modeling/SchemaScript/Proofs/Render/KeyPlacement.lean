import SchemaScript.Proofs.Definition.Assembly
import SchemaScript.Proofs.Render.Parts

/-!
# Where the primary key is written

The key of a table is put together from a declared list, which may repeat names and name columns
that do not exist, and from the flags of the columns (`Table.effectiveKey_eq`). What is rendered
is the part of it that exists, and this one list decides three things: which column is marked as
the whole key (`Column.primaryKey_mem_modifierClauses_iff`), whether the key is an item of its own
(`Table.keyItems`), and which columns are neither null nor have a default
(`Column.notNull_mem_modifierClauses`, `Column.not_default_of_isKey`). `Table.places_renderedKey`
joins them, and accounts for the declared names that are no column.
-/

namespace SchemaScript

namespace Column

variable {d : Dialect} {c : Column} {role : KeyRole} {key : List String} {clause : String}

/-! ## The clauses of a column -/

/-- The clauses of a column behind its name and type. -/
def modifierClauses (d : Dialect) (role : KeyRole) (c : Column) : List String :=
  (c.clauses d role).drop 2

/-- A column is written as its name, its type and these clauses. -/
theorem rendered_eq (d : Dialect) (role : KeyRole) (c : Column) :
    c.rendered d role =
      " ".intercalate (d.quoteColumn c.name :: c.renderedType d :: c.modifierClauses d role) := by
  rw [rendered, modifierClauses, clauses]
  rfl

/-- A clause is the words for the key, the default, or one that begins like neither. -/
theorem cases_of_mem_modifierClauses (h : clause ∈ c.modifierClauses d role) :
    (role = .whole ∧ clause = "PRIMARY KEY") ∨ c.defaultClause? d role = some clause ∨
      (clause.toList.head? ≠ some 'P' ∧ clause.toList.head? ≠ some 'D') := by
  have hmem : clause ∈ (if role = .whole then ["PRIMARY KEY"] else []) ++ c.nullWords d role ++
      (if c.autoIncrement then (c.countingWords? d).toList else []) ++
      (c.defaultClause? d role).toList ++
      (if d.isMySqlFamily then
        (c.visibleDescription?.map fun text => "COMMENT " ++ d.stringLiteral text).toList
      else []) := h
  simp only [List.mem_append] at hmem
  rcases hmem with (((hkey | hnull) | hcounting) | hdefault) | hcomment
  · split at hkey
    · rename_i hrole
      exact Or.inl ⟨hrole, List.mem_singleton.1 hkey⟩
    · cases hkey
  · have hwords : clause = "NOT NULL" ∨ clause = "NULL" := by
      rw [nullWords] at hnull
      split at hnull
      · exact Or.inl (List.mem_singleton.1 hnull)
      split at hnull
      · exact Or.inr (List.mem_singleton.1 hnull)
      · cases hnull
    rcases hwords with rfl | rfl <;> exact Or.inr (Or.inr (by decide))
  · split at hcounting
    · rw [Option.mem_toList, countingWords?] at hcounting
      split at hcounting
      · have hwords : ∀ d : Dialect, ∀ words ∈ d.autoIncrementWords?,
            words.toList.head? ≠ some 'P' ∧ words.toList.head? ≠ some 'D' := by
          intro d
          cases d <;> decide
        exact Or.inr (Or.inr (hwords d clause hcounting))
      · cases hcounting
    · cases hcounting
  · exact Or.inr (Or.inl (Option.mem_toList.1 hdefault))
  · split at hcomment
    · obtain ⟨text, -, rfl⟩ := Option.map_eq_some_iff.1 (Option.mem_toList.1 hcomment)
      rw [Text.head?_of_begins (c := 'C') rfl (Text.begins_append "COMMENT " _)]
      exact Or.inr (Or.inr (by decide))
    · cases hcomment

theorem begins_of_defaultClause? (h : c.defaultClause? d role = some clause) :
    role = .none ∧ Text.begins "DEFAULT " clause = true := by
  rw [defaultClause?] at h
  split at h
  · rename_i hrole
    obtain ⟨value, -, rfl⟩ := Option.map_eq_some_iff.1 h
    exact ⟨hrole, Text.begins_append _ _⟩
  · cases h

theorem inKey_eq_whole_iff {n : String} : KeyRole.inKey key n = .whole ↔ key = [n] := by
  rw [KeyRole.inKey]
  split
  · simp_all
  split <;> simp_all

theorem inKey_eq_none_iff {n : String} : KeyRole.inKey key n = .none ↔ n ∉ key := by
  rw [KeyRole.inKey]
  split
  · simp_all
  split <;> simp_all

/-- **A column is marked as the key exactly if it is the whole of it.** -/
theorem primaryKey_mem_modifierClauses_iff :
    "PRIMARY KEY" ∈ c.modifierClauses d role ↔ role = .whole := by
  constructor
  · intro h
    rcases cases_of_mem_modifierClauses h with ⟨hrole, -⟩ | hdefault | ⟨hletter, -⟩
    · exact hrole
    · have hbegins := (begins_of_defaultClause? hdefault).2
      exact absurd hbegins (by decide)
    · exact absurd rfl hletter
  · rintro rfl
    exact List.mem_cons_self

/-- A column of the key is not null. -/
theorem notNull_mem_modifierClauses (h : role ≠ .none) :
    "NOT NULL" ∈ c.modifierClauses d role := by
  have hnull : c.nullWords d role = ["NOT NULL"] := by
    rw [nullWords, if_pos]
    simp [h]
  have hmem : "NOT NULL" ∈ (if role = .whole then ["PRIMARY KEY"] else []) ++ c.nullWords d role := by
    rw [hnull]
    exact List.mem_append_right _ (List.mem_singleton_self _)
  exact List.mem_append_left _ (List.mem_append_left _ (List.mem_append_left _ hmem))

/-- A column of the key has no default. -/
theorem begins_default_eq_false (h : role ≠ .none) (hmem : clause ∈ c.modifierClauses d role) :
    Text.begins "DEFAULT " clause = false := by
  rcases cases_of_mem_modifierClauses hmem with ⟨-, rfl⟩ | hdefault | ⟨-, hletter⟩
  · decide
  · exact absurd (begins_of_defaultClause? hdefault).1 h
  · exact Bool.eq_false_iff.2 fun hx => hletter (Text.head?_of_begins rfl hx)

end Column

namespace Table

open Column (KeyRole)

variable {t : Table} {options : RenderOptions}

/-! ## The key -/

/-- Putting names into a list appends the new ones, each where it comes first. -/
theorem foldl_insertNew_eq (names ns : List String) :
    ns.foldl insertNew names = names ++ (ns.removeAll names).eraseDups := by
  induction ns generalizing names with
  | nil => exact (List.append_nil names).symm
  | cons n ns ih =>
    rw [List.foldl_cons, ih, insertNew]
    split
    · rename_i hmem
      have hremove : (n :: ns).removeAll names = ns.removeAll names :=
        List.filter_cons_of_neg (by simpa using hmem)
      rw [hremove]
    · rename_i hnot
      have hremove : (n :: ns).removeAll names = n :: ns.removeAll names :=
        List.filter_cons_of_pos (by simpa using hnot)
      have hboth : ns.removeAll (names ++ [n]) =
          (ns.removeAll names).filter fun m => !m == n := by
        simp only [List.removeAll, List.filter_filter]
        refine List.filter_congr fun m _ => ?_
        by_cases hm : m = n <;> simp [hm]
      rw [hremove, List.eraseDups_cons, hboth, List.append_assoc, List.singleton_append]

/-- A list that repeats nothing is kept. -/
theorem eraseDups_of_nodup {names : List String} (h : names.Nodup) : names.eraseDups = names := by
  have hfold := foldl_insertNew_eq [] names
  rw [foldl_insertNew_of_nodup (by simpa using h)] at hfold
  simpa [List.removeAll] using hfold.symm

/-- The key is the declared names and then those of the other flagged columns, each once. -/
theorem effectiveKey_eq_append (t : Table) :
    t.effectiveKey = t.primaryKey.eraseDups ++
      (t.flaggedNames.filter fun n => !t.primaryKey.contains n).eraseDups := by
  have hall : t.effectiveKey = (t.primaryKey ++ t.flaggedNames).eraseDups := by
    rw [effectiveKey, foldl_insertNew_eq]
    simp [List.removeAll]
  rw [hall, List.eraseDups_append]
  rfl

/-- **The key of distinct columns is the declared names, then the other flagged columns.** -/
theorem effectiveKey_eq (hnames : (t.columns.map Column.name).Nodup) :
    t.effectiveKey = t.primaryKey.eraseDups ++
      t.flaggedNames.filter fun n => !t.primaryKey.contains n := by
  have hflagged : t.flaggedNames.Nodup := hnames.sublist (List.filter_sublist.map _)
  rw [effectiveKey_eq_append, eraseDups_of_nodup (hflagged.filter _)]

theorem hasColumn_of_mem_flaggedNames {n : String} (h : n ∈ t.flaggedNames) :
    t.hasColumn n = true := by
  obtain ⟨c, hc, rfl⟩ := List.mem_map.1 h
  exact hasColumn_iff.2 (List.mem_map_of_mem (List.mem_filter.1 hc).1)

theorem renderedKey_eq (hnames : (t.columns.map Column.name).Nodup) :
    t.renderedKey = t.primaryKey.eraseDups.filter t.hasColumn ++
      t.flaggedNames.filter fun n => !t.primaryKey.contains n := by
  rw [renderedKey, effectiveKey_eq hnames, List.filter_append]
  refine congrArg (_ ++ ·) (List.filter_eq_self.2 fun n hn => ?_)
  exact hasColumn_of_mem_flaggedNames (List.mem_filter.1 hn).1

/-- Only declared names can be unknown. -/
theorem keyNotices_eq (hnames : (t.columns.map Column.name).Nodup) :
    t.keyNotices = (t.primaryKey.eraseDups.filter fun n => !t.hasColumn n).map
      (.unknownKeyColumn t.name) := by
  have hflagged : (t.flaggedNames.filter fun n => !t.primaryKey.contains n).filter
      (fun n => !t.hasColumn n) = [] := by
    refine List.filter_eq_nil_iff.2 fun n hn => ?_
    rw [hasColumn_of_mem_flaggedNames (List.mem_filter.1 hn).1]
    exact Bool.false_ne_true
  rw [keyNotices, effectiveKey_eq hnames, List.filter_append, hflagged, List.append_nil]

theorem nodup_renderedKey (t : Table) : t.renderedKey.Nodup :=
  (nodup_foldl_insertNew _ List.nodup_nil).filter _

/-! ## Where it stands -/

/-- What a column of the table is written with behind its name and type. -/
def columnModifiers (d : Dialect) (t : Table) (c : Column) : List String :=
  c.modifierClauses d (.inKey t.renderedKey c.name)

theorem take_bodyItems (options : RenderOptions) (t : Table) :
    (t.bodyItems options).take t.columns.length =
      t.columns.map fun c => " ".intercalate (options.dialect.quoteColumn c.name ::
        c.renderedType options.dialect :: t.columnModifiers options.dialect c) := by
  have hlength : (t.columnItems options.dialect).length = t.columns.length := List.length_map ..
  have hitems : t.columnItems options.dialect =
      t.columns.map fun c => " ".intercalate (options.dialect.quoteColumn c.name ::
        c.renderedType options.dialect :: t.columnModifiers options.dialect c) :=
    List.map_congr_left fun c _ => c.rendered_eq options.dialect _
  rw [bodyItems, List.append_assoc, List.append_assoc, ← hlength, List.take_left, hitems]

/-- **The key is placed exactly.** It is what exists of the declared names, then of the other
flagged columns. A column is marked as the key exactly if it is the whole of it; the key is an
item of its own exactly if it has several columns, and then there is one such item; the columns of
the key are not null and have no default; and each declared name that is no column is reported
once. -/
theorem places_renderedKey (options : RenderOptions) (t : Table)
    (hnames : (t.columns.map Column.name).Nodup) :
    (t.renderedKey.Nodup ∧
      t.renderedKey = t.primaryKey.eraseDups.filter t.hasColumn ++
        t.flaggedNames.filter fun n => !t.primaryKey.contains n) ∧
    ((t.bodyItems options).take t.columns.length =
      t.columns.map fun c => " ".intercalate (options.dialect.quoteColumn c.name ::
        c.renderedType options.dialect :: t.columnModifiers options.dialect c)) ∧
    (∀ c ∈ t.columns, "PRIMARY KEY" ∈ t.columnModifiers options.dialect c ↔
      t.renderedKey = [c.name]) ∧
    ((t.itemsBehindColumns options).filter (Text.begins "PRIMARY KEY(") =
      if 2 ≤ t.renderedKey.length then
        ["PRIMARY KEY(" ++ options.dialect.quoteColumns t.renderedKey ++ ")"]
      else []) ∧
    (∀ c ∈ t.columns, c.name ∈ t.renderedKey →
      "NOT NULL" ∈ t.columnModifiers options.dialect c ∧
        ∀ clause ∈ t.columnModifiers options.dialect c, Text.begins "DEFAULT " clause = false) ∧
    (t.notices options).filter Notice.isOfKey =
      (t.primaryKey.eraseDups.filter fun n => !t.hasColumn n).map (.unknownKeyColumn t.name) := by
  have hrole : ∀ c : Column, c.name ∈ t.renderedKey →
      KeyRole.inKey t.renderedKey c.name ≠ .none :=
    fun c hc hx => Column.inKey_eq_none_iff.1 hx hc
  refine ⟨⟨t.nodup_renderedKey, renderedKey_eq hnames⟩, take_bodyItems options t, fun c _ => ?_,
    filter_keyItem options t, fun c _ hkey => ⟨?_, fun clause hclause => ?_⟩, ?_⟩
  · exact Column.primaryKey_mem_modifierClauses_iff.trans Column.inKey_eq_whole_iff
  · exact Column.notNull_mem_modifierClauses (hrole c hkey)
  · exact Column.begins_default_eq_false (hrole c hkey) hclause
  · rw [filter_isOfKey, keyNotices_eq hnames]

/-- A table whose declared key repeats a column and names one that does not exist, while another
column with a default is flagged. -/
def keyedTable : Table where
  name := "t"
  columns := [{ name := "id", dataType := "INT", default := some (.literal "7"), primaryKey := true },
    { name := "code", dataType := "TEXT" }, { name := "note", dataType := "TEXT" }]
  primaryKey := ["code", "ghost", "code"]

theorem places_renderedKey_keyedTable :
    (keyedTable.columns.map Column.name).Nodup ∧
    keyedTable.renderedKey = ["code", "id"] ∧
    ((keyedTable.itemsBehindColumns {}).filter (Text.begins "PRIMARY KEY(") =
      ["PRIMARY KEY(\x60code\x60, \x60id\x60)"]) ∧
    (∀ c ∈ keyedTable.columns, c.name ∈ ["code", "id"] →
      "NOT NULL" ∈ keyedTable.columnModifiers .mysql c ∧
        ∀ clause ∈ keyedTable.columnModifiers .mysql c, Text.begins "DEFAULT " clause = false) ∧
    (keyedTable.notices {}).filter Notice.isOfKey = [.unknownKeyColumn "t" "ghost"] := by
  have hnames : (keyedTable.columns.map Column.name).Nodup := by decide
  obtain ⟨⟨-, hkey⟩, -, -, hitem, hcolumns, hnotices⟩ := places_renderedKey {} keyedTable hnames
  have hboth : keyedTable.renderedKey = ["code", "id"] := hkey.trans (by decide)
  rw [hboth] at hitem hcolumns
  exact ⟨hnames, hboth, hitem.trans (by decide), hcolumns, hnotices.trans (by decide)⟩

end Table
end SchemaScript
