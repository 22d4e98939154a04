import SchemaScript.Definition.Table
import SchemaScript.Proofs.Definition.Assembly

/-!
# Coherent tables

A table has two homes for its primary key, the declared list and the flags of its columns, and
nothing in the type keeps the two together. A table is *coherent* if they say the same: its
columns have different names, the declared key lists some of these names, each once, and a
column is flagged exactly if it is listed.

The effective key of a coherent table is the declared one (`IsCoherent.effectiveKey_eq`), and the
only fault it can have is a blank name (`IsCoherent.fault?_eq_none_iff`).

A table under construction starts without any key and is given one by marking columns. Marking
one column keeps a table coherent whether it is part of the key already or not, and whether it
exists or not (`IsCoherent.markPrimary`), and so does marking a list of them
(`IsCoherent.markAll`). So every table that a statement creates is coherent
(`isCoherent_of_ofStatement`).
-/

namespace SchemaScript

namespace Column

/-- What coherence depends on: the name and the flag for the key. -/
def keyed (c : Column) : String × Bool :=
  (c.name, c.primaryKey)

end Column

namespace Table

/-- The declared key and the flags of the columns say the same. -/
structure IsCoherent (t : Table) : Prop where
  columns_ne_nil : t.columns ≠ []
  nodup_names : (t.columns.map Column.name).Nodup
  nodup_key : t.primaryKey.Nodup
  key_subset : t.primaryKey ⊆ t.columns.map Column.name
  flagged : ∀ c ∈ t.columns, c.primaryKey = true ↔ c.name ∈ t.primaryKey

theorem ne_nil_of_map_eq {β : Type} {f : Column → β} {cs cs' : List Column}
    (h : cs'.map f = cs.map f) (hcs : cs ≠ []) : cs' ≠ [] := by
  rintro rfl
  exact hcs (List.map_eq_nil_iff.1 h.symm)

namespace IsCoherent

variable {t t' : Table}

/-- Coherence depends on names, flags and the declared key only. -/
theorem of_keyed (h : t.IsCoherent)
    (hcolumns : t'.columns.map Column.keyed = t.columns.map Column.keyed)
    (hkey : t'.primaryKey = t.primaryKey) : t'.IsCoherent := by
  have hnames : t'.columns.map Column.name = t.columns.map Column.name := by
    simpa [Column.keyed, Function.comp_def] using congrArg (List.map Prod.fst) hcolumns
  refine ⟨ne_nil_of_map_eq hcolumns h.columns_ne_nil, hnames ▸ h.nodup_names,
    hkey ▸ h.nodup_key, hkey ▸ hnames ▸ h.key_subset, fun c' hc' => ?_⟩
  have hmem : c'.keyed ∈ t.columns.map Column.keyed := hcolumns ▸ List.mem_map_of_mem hc'
  obtain ⟨c, hc, hkeyed⟩ := List.mem_map.1 hmem
  obtain ⟨hname, hflag⟩ := Prod.mk.inj hkeyed
  rw [hkey, ← hname, ← hflag]
  exact h.flagged c hc

/-! ## What coherence gives -/

theorem flaggedNames_subset (h : t.IsCoherent) : t.flaggedNames ⊆ t.primaryKey := by
  intro n hn
  obtain ⟨c, hc, rfl⟩ := List.mem_map.1 hn
  obtain ⟨hmem, hflag⟩ := List.mem_filter.1 hc
  exact (h.flagged c hmem).1 hflag

/-- **The effective key of a coherent table is the declared one.** -/
theorem effectiveKey_eq (h : t.IsCoherent) : t.effectiveKey = t.primaryKey := by
  have hnodup : ([] ++ t.primaryKey).Nodup := h.nodup_key
  have hdeclared : t.primaryKey.foldl insertNew [] = t.primaryKey :=
    foldl_insertNew_of_nodup hnodup
  rw [effectiveKey, List.foldl_append, hdeclared,
    foldl_insertNew_of_subset h.flaggedNames_subset]

/-- **A coherent table has no fault but a blank name.** -/
theorem fault?_eq_none_iff (h : t.IsCoherent) :
    t.fault? = none ↔ Text.isBlankString t.name = false := by
  have hcolumns : t.columns.isEmpty = false := by simpa using h.columns_ne_nil
  have hnames : firstRepeated [] (t.columns.map Column.name) = none :=
    firstRepeated_of_nodup h.nodup_names (by simp)
  have hkey : t.primaryKey.find? (fun k => !t.hasColumn k) = none := by
    refine List.find?_eq_none.2 fun k hk => ?_
    rw [hasColumn_iff.2 (h.key_subset hk)]
    exact Bool.false_ne_true
  unfold fault?
  rw [hcolumns, hnames, hkey]
  cases Text.isBlankString t.name <;> simp

/-! ## What keeps a table coherent -/

theorem keyed_flagFirst {n : String} {cs : List Column} (h : (cs.map Column.name).Nodup)
    {c' : Column} (hc' : c' ∈ flagFirst n cs) :
    ∃ c ∈ cs, c'.name = c.name ∧ (c'.primaryKey = true ↔ c.name = n ∨ c.primaryKey = true) := by
  induction cs with
  | nil => cases hc'
  | cons d cs ih =>
    obtain ⟨hd, hnodup⟩ := List.nodup_cons.1 h
    rw [flagFirst] at hc'
    split at hc'
    · rename_i hname
      rcases List.mem_cons.1 hc' with rfl | hmem
      · exact ⟨d, List.mem_cons_self, rfl, by simp [hname]⟩
      · -- another column of the name would repeat it
        have hother : c'.name ≠ n := by
          rintro rfl
          exact hd (hname ▸ List.mem_map_of_mem hmem)
        exact ⟨c', List.mem_cons_of_mem d hmem, rfl, by simp [hother]⟩
    · rename_i hname
      rcases List.mem_cons.1 hc' with rfl | hmem
      · exact ⟨c', List.mem_cons_self, rfl, by simp [hname]⟩
      · obtain ⟨c, hc, hkeyed⟩ := ih hnodup hmem
        exact ⟨c, List.mem_cons_of_mem d hc, hkeyed⟩

/-- Marking a column keeps a table coherent. -/
theorem markPrimary (h : t.IsCoherent) (n : String) : (t.markPrimary n).1.IsCoherent := by
  by_cases hn : t.hasColumn n = true
  · rw [fst_markPrimary_of_hasColumn hn]
    refine ⟨ne_nil_of_map_eq (map_name_flagFirst n t.columns) h.columns_ne_nil, ?_,
      nodup_insertNew h.nodup_key n, ?_, ?_⟩
    · rw [map_name_flagFirst]
      exact h.nodup_names
    · rw [map_name_flagFirst]
      intro m hm
      rcases mem_insertNew.1 hm with hm | rfl
      · exact h.key_subset hm
      · exact hasColumn_iff.1 hn
    · intro c' hc'
      obtain ⟨c, hc, hname, hflag⟩ := keyed_flagFirst h.nodup_names hc'
      rw [hflag, hname, mem_insertNew, h.flagged c hc, or_comm]
  · rw [Bool.not_eq_true] at hn
    rw [Table.markPrimary, hn, if_neg Bool.false_ne_true]
    exact h

/-- **Marking the columns of a key keeps a table coherent.** -/
theorem markAll (h : t.IsCoherent) (key : List String) : (t.markAll key).IsCoherent := by
  induction key generalizing t with
  | nil => exact h
  | cons n key ih => exact ih (h.markPrimary n)

end IsCoherent

/-- A table without a key is coherent. -/
theorem isCoherent_of_unkeyed {t : Table} (hcolumns : t.columns ≠ [])
    (hnames : (t.columns.map Column.name).Nodup) (hkey : t.primaryKey = [])
    (hflags : ∀ c ∈ t.columns, c.primaryKey = false) : t.IsCoherent := by
  refine ⟨hcolumns, hnames, by simp [hkey], by simp [hkey], fun c hc => ?_⟩
  rw [hkey, hflags c hc]
  simp

/-- Whatever columns and constraints make up is coherent. -/
theorem isCoherent_of_assemble {name : String} {columns : List ColumnDefinition}
    {constraints : List Constraint} {t : Table} (h : assemble name columns constraints = .ok t) :
    t.IsCoherent := by
  unfold assemble at h
  split at h
  · cases h
  · rename_i hempty
    cases h
    refine IsCoherent.markAll (isCoherent_of_unkeyed ?_ ?_ rfl ?_) _
    · cases columns with
      | nil => exact absurd rfl hempty
      | cons d ds =>
        simp only [ColumnDefinition.firstOfEachName_cons_of_not_mem List.not_mem_nil]
        exact List.cons_ne_nil _ _
    · rw [List.map_map]
      exact (ColumnDefinition.nodup_firstOfEachName [] columns).1
    · intro c hc
      obtain ⟨d, -, rfl⟩ := List.mem_map.1 hc
      rfl

/-- **Every table that a statement creates is coherent.** -/
theorem isCoherent_of_ofStatement {text : String} {t : Table} {skipped : List String}
    (h : ofStatement text = .ok (t, skipped)) : t.IsCoherent := by
  unfold ofStatement at h
  split at h
  · cases h
  split at h
  · cases h
  · rename_i hassemble
    cases h
    exact isCoherent_of_assemble hassemble

end Table
end SchemaScript
