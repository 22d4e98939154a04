import Mathlib.Data.List.Nodup
import SchemaScript.Definition.Assembly
import SchemaScript.Render.Table

/-!
# Assembling distinct columns

When the columns of a body have different names, none of them is left out. The table then has
the columns as they are defined, except that those of the key are flagged, and its key is the one
that the definitions and the clauses name (`assemble_of_nodup`).
-/

namespace SchemaScript

namespace Column

/-- The column without its flag for the key. -/
def unflagged (c : Column) : Column :=
  { c with primaryKey := false }

@[simp] theorem name_unflagged (c : Column) : c.unflagged.name = c.name := rfl

end Column

/-- Adding names to a list without repetitions keeps it so. -/
theorem nodup_insertNew {names : List String} (h : names.Nodup) (n : String) :
    (insertNew names n).Nodup := by
  rw [insertNew]
  split
  · exact h
  · rename_i hn
    refine List.nodup_append.2 ⟨h, List.nodup_singleton n, ?_⟩
    rintro m hm _ hn' rfl
    rw [List.mem_singleton.1 hn'] at hm
    exact hn (by simpa using hm)

theorem nodup_foldl_insertNew (ns : List String) {names : List String} (h : names.Nodup) :
    (ns.foldl insertNew names).Nodup := by
  induction ns generalizing names with
  | nil => exact h
  | cons n ns ih => exact ih (nodup_insertNew h n)

theorem mem_insertNew {names : List String} {n m : String} :
    m ∈ insertNew names n ↔ m ∈ names ∨ m = n := by
  rw [insertNew]
  split
  · rename_i hn
    exact ⟨Or.inl, fun h => h.elim id fun hm => by simpa [hm] using hn⟩
  · simp

/-- New names are added at the end. -/
theorem foldl_insertNew_of_nodup {names ns : List String} (h : (names ++ ns).Nodup) :
    ns.foldl insertNew names = names ++ ns := by
  induction ns generalizing names with
  | nil => simp
  | cons n ns ih =>
    have hnot : n ∉ names := fun hn =>
      (List.nodup_append.1 h).2.2 n hn n List.mem_cons_self rfl
    have hinsert : insertNew names n = names ++ [n] := by
      rw [insertNew, if_neg (by simpa using hnot)]
    have happ : names ++ n :: ns = names ++ [n] ++ ns := by simp
    rw [happ] at h ⊢
    rw [List.foldl_cons, hinsert, ih h]

/-- Names that are there are not added. -/
theorem foldl_insertNew_of_subset {names ns : List String} (h : ns ⊆ names) :
    ns.foldl insertNew names = names := by
  induction ns with
  | nil => rfl
  | cons n ns ih =>
    have hn : insertNew names n = names := by
      rw [insertNew, if_pos (by simpa using h List.mem_cons_self)]
    rw [List.foldl_cons, hn, ih fun m hm => h (List.mem_cons_of_mem n hm)]

namespace Table

/-- The names of the columns of a table without faults are different. -/
theorem firstRepeated_eq_none {seen ns : List String} (h : firstRepeated seen ns = none) :
    ns.Nodup ∧ ∀ n ∈ ns, n ∉ seen := by
  induction ns generalizing seen with
  | nil => exact ⟨List.nodup_nil, by simp⟩
  | cons n ns ih =>
    rw [firstRepeated] at h
    split at h
    · cases h
    · rename_i hn
      obtain ⟨hnodup, hfresh⟩ := ih h
      refine ⟨List.nodup_cons.2 ⟨fun hmem => hfresh n hmem List.mem_cons_self, hnodup⟩, ?_⟩
      rintro m (_ | ⟨_, hm⟩)
      · simpa using hn
      · exact fun hx => hfresh m hm (List.mem_cons_of_mem n hx)

theorem firstRepeated_of_nodup {seen ns : List String} (h : ns.Nodup)
    (hseen : ∀ n ∈ ns, n ∉ seen) : firstRepeated seen ns = none := by
  induction ns generalizing seen with
  | nil => rfl
  | cons n ns ih =>
    obtain ⟨hn, hnodup⟩ := List.nodup_cons.1 h
    have hnew : seen.contains n = false := by simpa using hseen n List.mem_cons_self
    rw [firstRepeated, hnew, if_neg Bool.false_ne_true]
    refine ih hnodup fun m hm hx => ?_
    rcases List.mem_cons.1 hx with rfl | hx
    · exact hn hm
    · exact hseen m (List.mem_cons_of_mem n hm) hx

/-! ## Marking a key -/

variable {t : Table} {n : String} {key : List String}

@[simp] theorem map_unflagged_flagFirst (n : String) (cs : List Column) :
    (flagFirst n cs).map Column.unflagged = cs.map Column.unflagged := by
  induction cs with
  | nil => rfl
  | cons c cs ih =>
    rw [flagFirst]
    split
    · rfl
    · rw [List.map_cons, List.map_cons, ih]

theorem mem_flagFirst {cs : List Column} {c : Column} (h : c ∈ flagFirst n cs) :
    c.name = n ∨ c ∈ cs := by
  induction cs with
  | nil => cases h
  | cons c' cs ih =>
    rw [flagFirst] at h
    split at h
    · rename_i hname
      rcases List.mem_cons.1 h with rfl | h
      · exact Or.inl hname
      · exact Or.inr (List.mem_cons_of_mem _ h)
    · rcases List.mem_cons.1 h with rfl | h
      · exact Or.inr List.mem_cons_self
      · exact (ih h).imp_right (List.mem_cons_of_mem _)

theorem hasColumn_iff : t.hasColumn n = true ↔ n ∈ t.columns.map Column.name := by
  simp [hasColumn, List.any_eq_true, beq_iff_eq]

theorem map_unflagged_markPrimary (t : Table) (n : String) :
    (t.markPrimary n).1.columns.map Column.unflagged = t.columns.map Column.unflagged := by
  unfold markPrimary
  split
  · exact map_unflagged_flagFirst n t.columns
  · rfl

/-- Marking the columns of a key changes nothing but flags, whether they exist or not. -/
theorem map_unflagged_markAll (t : Table) (key : List String) :
    (t.markAll key).columns.map Column.unflagged = t.columns.map Column.unflagged := by
  induction key generalizing t with
  | nil => rfl
  | cons n key ih => exact (ih _).trans (map_unflagged_markPrimary t n)

@[simp] theorem rows_markPrimary (t : Table) (n : String) : (t.markPrimary n).1.rows = t.rows := by
  unfold markPrimary
  split <;> rfl

@[simp] theorem rows_markAll (t : Table) (key : List String) : (t.markAll key).rows = t.rows := by
  induction key generalizing t with
  | nil => rfl
  | cons n key ih => exact (ih (t.markPrimary n).1).trans (rows_markPrimary t n)

/-- What marking the columns of a key changes: the flags, and the declared key. -/
structure Marked (t : Table) (key : List String) (t' : Table) : Prop where
  name : t'.name = t.name
  columns : t'.columns.map Column.unflagged = t.columns.map Column.unflagged
  names : t'.columns.map Column.name = t.columns.map Column.name
  flagged : ∀ n ∈ t'.flaggedNames, n ∈ t.flaggedNames ∨ n ∈ key
  primaryKey : t'.primaryKey = key.foldl insertNew t.primaryKey
  foreignKeys : t'.foreignKeys = t.foreignKeys
  indexes : t'.indexes = t.indexes

theorem marked_markPrimary (h : t.hasColumn n = true) : t.Marked [n] (t.markPrimary n).1 := by
  rw [fst_markPrimary_of_hasColumn h]
  refine ⟨rfl, map_unflagged_flagFirst n _, map_name_flagFirst n _, ?_, rfl, rfl, rfl⟩
  intro m hm
  rw [flaggedNames, List.mem_map] at hm
  obtain ⟨c, hc, rfl⟩ := hm
  obtain ⟨hc, hflag⟩ := List.mem_filter.1 hc
  rcases mem_flagFirst hc with hname | hc
  · exact Or.inr (by simpa using hname)
  · exact Or.inl (List.mem_map_of_mem (List.mem_filter.2 ⟨hc, hflag⟩))

theorem markPrimary_of_not_hasColumn (h : t.hasColumn n = false) :
    t.markPrimary n = (t, false) := by
  rw [markPrimary, h, if_neg Bool.false_ne_true]

@[simp] theorem hasColumn_markPrimary (t : Table) (n : String) :
    (t.markPrimary n).1.hasColumn = t.hasColumn := by
  cases hn : t.hasColumn n with
  | false => rw [markPrimary_of_not_hasColumn hn]
  | true =>
    funext m
    rw [Bool.eq_iff_iff, hasColumn_iff, hasColumn_iff, (marked_markPrimary hn).names]

/-- **Marking a key changes the flags of its columns and the declared key.** -/
theorem marked_markAll (h : ∀ n ∈ key, t.hasColumn n = true) :
    t.Marked key (t.markAll key) := by
  induction key generalizing t with
  | nil => exact ⟨rfl, rfl, rfl, fun _ hn => Or.inl hn, rfl, rfl, rfl⟩
  | cons n key ih =>
    have hone := marked_markPrimary (h n List.mem_cons_self)
    have hcolumns : ∀ m ∈ key, (t.markPrimary n).1.hasColumn m = true := by
      intro m hm
      rw [hasColumn_iff, hone.names, ← hasColumn_iff]
      exact h m (List.mem_cons_of_mem n hm)
    have hrest := ih hcolumns
    refine ⟨hrest.name.trans hone.name, hrest.columns.trans hone.columns,
      hrest.names.trans hone.names, fun m hm => ?_, ?_, hrest.foreignKeys.trans hone.foreignKeys,
      hrest.indexes.trans hone.indexes⟩
    · rcases hrest.flagged m hm with hm | hm
      · rcases hone.flagged m hm with hm | hm
        · exact Or.inl hm
        · exact Or.inr (List.mem_singleton.1 hm ▸ List.mem_cons_self)
      · exact Or.inr (List.mem_cons_of_mem n hm)
    · rw [List.foldl_cons]
      exact hrest.primaryKey.trans (by rw [hone.primaryKey]; rfl)

end Table

namespace ColumnDefinition

/-- Definitions of different columns all count. -/
theorem firstOfEachName_of_nodup {ds : List ColumnDefinition} {seen : List String}
    (h : (ds.map name).Nodup) (hseen : ∀ d ∈ ds, d.name ∉ seen) :
    firstOfEachName seen ds = ds := by
  induction ds generalizing seen with
  | nil => rfl
  | cons d ds ih =>
    obtain ⟨hnot, hnodup⟩ := List.nodup_cons.1 h
    have hd : seen.contains d.name = false := by simpa using hseen d List.mem_cons_self
    rw [firstOfEachName, hd, if_neg Bool.false_ne_true, ih hnodup]
    intro d' hd' hx
    rcases List.mem_cons.1 hx with heq | hx
    · exact hnot (heq ▸ List.mem_map_of_mem hd')
    · exact hseen d' (List.mem_cons_of_mem d hd') hx

theorem firstOfEachName_cons_of_not_mem {d : ColumnDefinition} {ds : List ColumnDefinition}
    {seen : List String} (h : d.name ∉ seen) :
    firstOfEachName seen (d :: ds) = d :: firstOfEachName (d.name :: seen) ds := by
  rw [firstOfEachName, if_neg (by simpa using h)]

/-- The definitions that count are some of those that were given. -/
theorem firstOfEachName_sublist (seen : List String) (ds : List ColumnDefinition) :
    (firstOfEachName seen ds).Sublist ds := by
  induction ds generalizing seen with
  | nil => exact List.Sublist.slnil
  | cons d ds ih =>
    rw [firstOfEachName]
    split
    · exact (ih seen).cons d
    · exact (ih _).cons_cons d

/-- Of each name one definition counts at most. -/
theorem nodup_firstOfEachName (seen : List String) (ds : List ColumnDefinition) :
    ((firstOfEachName seen ds).map name).Nodup ∧
      ∀ d ∈ firstOfEachName seen ds, d.name ∉ seen := by
  induction ds generalizing seen with
  | nil => exact ⟨List.nodup_nil, by simp [firstOfEachName]⟩
  | cons d ds ih =>
    rw [firstOfEachName]
    split
    · exact ih seen
    · rename_i hnew
      obtain ⟨hnodup, hfresh⟩ := ih (d.name :: seen)
      refine ⟨List.nodup_cons.2 ⟨fun hmem => ?_, hnodup⟩, ?_⟩
      · obtain ⟨e, he, hname⟩ := List.mem_map.1 hmem
        exact hfresh e he (hname ▸ List.mem_cons_self)
      · rintro e he
        rcases List.mem_cons.1 he with rfl | he
        · simpa using hnew
        · exact fun hx => hfresh e he (List.mem_cons_of_mem _ hx)

end ColumnDefinition

namespace Table

theorem rows_of_assemble {name : String} {columns : List ColumnDefinition}
    {constraints : List Constraint} {t : Table} (h : assemble name columns constraints = .ok t) :
    t.rows = [] := by
  unfold assemble at h
  split at h
  · cases h
  · cases h
    exact rows_markAll _ _

/-- The key of a marked table is the one that was marked. -/
theorem renderedKey_of_marked {t t' : Table} {key : List String} (h : t.Marked key t')
    (hkey : t.primaryKey = []) (hflags : t.flaggedNames = []) (hnodup : key.Nodup)
    (hcolumns : ∀ n ∈ key, t.hasColumn n = true) : t'.renderedKey = key := by
  have hall : ([] ++ key).Nodup := hnodup
  have hadded : key.foldl insertNew [] = key := foldl_insertNew_of_nodup hall
  have hdeclared : t'.primaryKey = key := by
    rw [h.primaryKey, hkey, hadded]
  have hsubset : t'.flaggedNames ⊆ key := by
    intro n hn
    rcases h.flagged n hn with hx | hx
    · rw [hflags] at hx
      cases hx
    · exact hx
  have heffective : t'.effectiveKey = key := by
    rw [effectiveKey, hdeclared, List.foldl_append, hadded, foldl_insertNew_of_subset hsubset]
  rw [renderedKey, heffective]
  refine List.filter_eq_self.2 fun n hn => ?_
  rw [hasColumn_iff, h.names, ← hasColumn_iff]
  exact hcolumns n hn

/-- What a table is made of: the columns apart from their flags, and the key. -/
structure MadeOf (t : Table) (name : String) (columns : List Column) (key : List String)
    (constraints : List Constraint) : Prop where
  name : t.name = name
  columns : t.columns.map Column.unflagged = columns
  key : t.renderedKey = key
  foreignKeys : t.foreignKeys = constraints.filterMap Constraint.foreignKey?
  indexes : t.indexes = constraints.filterMap Constraint.index?

/-- **Different columns without constraints of their own are assembled as they are defined.** -/
theorem assemble_of_nodup {name : String} {ds : List ColumnDefinition}
    {constraints : List Constraint} {key : List String} (hne : ds ≠ [])
    (hnodup : (ds.map ColumnDefinition.name).Nodup)
    (hplain : ∀ d ∈ ds, d.unique = false ∧ d.references = none)
    (hkey : ds.filterMap ColumnDefinition.keyName? ++
      constraints.flatMap Constraint.keyNames = key)
    (hkeyNodup : key.Nodup) (hmem : ∀ n ∈ key, n ∈ ds.map ColumnDefinition.name) :
    ∃ t, assemble name ds constraints = .ok t ∧
      t.MadeOf name (ds.map ColumnDefinition.toColumn) key constraints := by
  have hempty : ds.isEmpty = false := by simpa using hne
  have hfirst : ColumnDefinition.firstOfEachName [] ds = ds :=
    ColumnDefinition.firstOfEachName_of_nodup hnodup (by simp)
  have hforeign : ds.filterMap ColumnDefinition.foreignKey? = [] := by
    refine List.filterMap_eq_nil_iff.2 fun d hd => ?_
    rw [ColumnDefinition.foreignKey?, (hplain d hd).2]
    rfl
  have hindex : ds.filterMap ColumnDefinition.index? = [] := by
    refine List.filterMap_eq_nil_iff.2 fun d hd => ?_
    rw [ColumnDefinition.index?, (hplain d hd).1]
    rfl
  obtain ⟨t, ht⟩ : ∃ t : Table, t =
      { name := name
        columns := ds.map ColumnDefinition.toColumn
        foreignKeys := constraints.filterMap Constraint.foreignKey?
        indexes := constraints.filterMap Constraint.index? } := ⟨_, rfl⟩
  have hnames : t.columns.map Column.name = ds.map ColumnDefinition.name := by
    rw [ht, List.map_map]
    rfl
  have hcolumns : ∀ n ∈ key, t.hasColumn n = true := by
    intro n hn
    rw [hasColumn_iff, hnames]
    exact hmem n hn
  have hmarked := marked_markAll hcolumns
  have hflags : t.flaggedNames = [] := by
    rw [flaggedNames, ht, List.map_eq_nil_iff, List.filter_eq_nil_iff]
    intro c hc
    obtain ⟨d, -, rfl⟩ := List.mem_map.1 hc
    exact Bool.false_ne_true
  refine ⟨t.markAll key, ?_, ?_, ?_, ?_, ?_, ?_⟩
  · rw [assemble, hempty, if_neg Bool.false_ne_true]
    simp only [hfirst, hforeign, hindex, List.nil_append, hkey]
    rw [ht]
  · rw [hmarked.name, ht]
  · rw [hmarked.columns, ht, List.map_map]
    rfl
  · exact renderedKey_of_marked hmarked (by rw [ht]) hflags hkeyNodup hcolumns
  · rw [hmarked.foreignKeys, ht]
  · rw [hmarked.indexes, ht]

end Table
end SchemaScript
