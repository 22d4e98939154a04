import SchemaScript.Proofs.Definition.Assembly
import SchemaScript.Proofs.Render.Indexes

/-!
# The columns that a rendered table lists

A rendered table lists columns in its primary key, in its foreign keys and in its indexes. Each such
place is a `Listing`, a part of the text with the names that it lists.

The key is cut down to the columns that exist, and each name that is taken from it is reported.
Nothing of the kind is done for the rest: a complete foreign key is rendered over whatever columns
it names, and so is the first index over some columns. An index that supports a foreign key repeats
the columns of the key. So the rendered table lists none but its own columns exactly if these two
kinds of declarations do (`Table.RefersToOwnColumns`, `Table.listings_hasColumn_iff`), and if they
do not, no notice says so (`Table.listings_strayKey`).
-/

namespace SchemaScript

/-- A part of a rendered table that lists columns: its text and the names. -/
structure Listing where
  text : String
  columns : List String

namespace Table

open Column (KeyRole)

variable {options : RenderOptions} {t : Table}

/-- The columns that are the whole key of the table. -/
def wholeKeyColumns (t : Table) : List Column :=
  t.columns.filter fun c => KeyRole.inKey t.renderedKey c.name = .whole

/-- The key as it is rendered: at the column that is the whole of it, or as an item of its own. -/
def keyListings (d : Dialect) (t : Table) : List Listing :=
  (t.wholeKeyColumns.map fun c => ⟨c.rendered d .whole, [c.name]⟩) ++
    (t.keyItems d).map fun text => ⟨text, t.renderedKey⟩

/-- The foreign keys as they are rendered. -/
def foreignKeyListings (options : RenderOptions) (t : Table) : List Listing :=
  (t.emittedForeignKeys options).map fun k => ⟨k.rendered options t.name, k.columns⟩

/-- An index as it is rendered, inside of the table or behind it. -/
def renderedIndex (d : Dialect) (t : Table) (i : Index) : String :=
  if d.hasInlineIndexes then i.renderedInline d else i.renderedStatement d t.name

/-- The indexes as they are rendered. -/
def indexListings (options : RenderOptions) (t : Table) : List Listing :=
  (t.emittedIndexes options).map fun i => ⟨t.renderedIndex options.dialect i, i.columns⟩

/-- All that lists columns in a rendered table. -/
def listings (options : RenderOptions) (t : Table) : List Listing :=
  t.keyListings options.dialect ++ t.foreignKeyListings options ++ t.indexListings options

/-- The foreign keys and the indexes that are rendered name columns of the table only. -/
structure RefersToOwnColumns (options : RenderOptions) (t : Table) : Prop where
  foreignKey : options.foreignKeys = true → ∀ k ∈ t.foreignKeys, k.isComplete = true →
    ∀ n ∈ k.columns, t.hasColumn n = true
  index : options.indexes = true → ∀ before i after, t.indexes = before ++ i :: after →
    Index.IsFirst (Index.keySignatures t.renderedKey) before i →
      ∀ n ∈ i.columns, t.hasColumn n = true

/-! ## Where the listings stand -/

/-- A listing is an item of the table or a statement behind it, and apart from the columns that
are not the whole key, all of these are listings. -/
theorem map_text_listings (t : Table) (options : RenderOptions) :
    (t.listings options).map Listing.text =
      (t.wholeKeyColumns.map fun c => c.rendered options.dialect .whole) ++
        t.keyItems options.dialect ++ t.foreignKeyItems options ++
          (t.indexItems options ++ t.indexStatements options) := by
  have hindexes : (t.indexListings options).map Listing.text =
      t.indexItems options ++ t.indexStatements options := by
    have htext : (t.indexListings options).map Listing.text =
        (t.emittedIndexes options).map (t.renderedIndex options.dialect) := by
      simp [indexListings, Function.comp_def]
    rw [htext, indexItems, indexStatements]
    by_cases hinline : options.dialect.hasInlineIndexes = true
    · rw [if_pos hinline, if_pos hinline, List.append_nil]
      exact List.map_congr_left fun i _ => if_pos hinline
    · rw [if_neg hinline, if_neg hinline, List.nil_append]
      exact List.map_congr_left fun i _ => if_neg hinline
  rw [listings, List.map_append, List.map_append, hindexes, keyListings, foreignKeyListings,
    foreignKeyItems, List.map_append, List.map_map, List.map_map, List.map_map]
  simp [Function.comp_def]

/-- The column that is the whole key is rendered as such. -/
theorem rendered_mem_columnItems {d : Dialect} {c : Column} (h : c ∈ t.wholeKeyColumns) :
    c.rendered d .whole ∈ t.columnItems d := by
  obtain ⟨hc, hrole⟩ := List.mem_filter.1 h
  rw [columnItems, ← of_decide_eq_true hrole]
  exact List.mem_map_of_mem (f := fun c => c.rendered d (.inKey t.renderedKey c.name)) hc

/-- Listings are parts of the rendered table. -/
theorem text_mem_of_mem_listings {l : Listing} (h : l ∈ t.listings options) :
    l.text ∈ t.bodyItems options ++ t.indexStatements options := by
  have htext : l.text ∈ (t.listings options).map Listing.text := List.mem_map_of_mem h
  rw [map_text_listings] at htext
  simp only [List.mem_append, List.mem_map] at htext
  simp only [bodyItems, List.mem_append]
  rcases htext with ((⟨c, hc, heq⟩ | hkey) | hforeign) | hindex | hindex
  · exact Or.inl (Or.inl (Or.inl (Or.inl (heq ▸ rendered_mem_columnItems hc))))
  · exact Or.inl (Or.inl (Or.inl (Or.inr hkey)))
  · exact Or.inl (Or.inl (Or.inr hforeign))
  · exact Or.inl (Or.inr hindex)
  · exact Or.inr hindex

/-! ## What they list -/

/-- The key lists columns of the table. -/
theorem hasColumn_of_mem_keyListings {d : Dialect} {l : Listing} (h : l ∈ t.keyListings d) :
    ∀ n ∈ l.columns, t.hasColumn n = true := by
  intro n hn
  rcases List.mem_append.1 h with h | h
  · obtain ⟨c, hc, rfl⟩ := List.mem_map.1 h
    rw [List.mem_singleton.1 hn, hasColumn_iff]
    exact List.mem_map_of_mem (List.mem_filter.1 hc).1
  · obtain ⟨text, -, rfl⟩ := List.mem_map.1 h
    exact (List.mem_filter.1 hn).2

/-- What is left out of a rendered table is reported: names of the key, foreign keys and indexes. -/
structure ReportsOmissions (options : RenderOptions) (t : Table) : Prop where
  key : ∀ n ∈ t.effectiveKey, n ∉ t.renderedKey → .unknownKeyColumn t.name n ∈ t.notices options
  foreignKey : options.foreignKeys = true → ∀ k ∈ t.foreignKeys, k ∉ t.emittedForeignKeys options →
    .incompleteForeignKey t.name (k.nameFor t.name) ∈ t.notices options
  index : options.indexes = true → ∀ i ∈ t.indexes,
    { i with name := some (i.nameFor t.name) } ∉ t.emittedIndexes options →
      .incompleteIndex t.name (i.nameFor t.name) ∈ t.notices options ∨
        .duplicateIndex t.name (i.nameFor t.name) ∈ t.notices options

theorem reportsOmissions (t : Table) (options : RenderOptions) : t.ReportsOmissions options := by
  have hmem : ∀ n, n ∈ t.notices options ↔ ((n ∈ t.keyNotices ∨
      n ∈ t.columns.flatMap (Column.notices options.dialect t.name)) ∨
      n ∈ if options.foreignKeys then t.foreignKeys.flatMap (ForeignKey.notices t.name) else []) ∨
      n ∈ if options.indexes then Index.notices t.name t.renderedKey t.indexes else [] := by
    intro n
    rw [notices, List.mem_append, List.mem_append, List.mem_append]
  refine ⟨fun n hn hout => ?_, fun hforeign k hk hout => ?_, fun hindexes i hi hout => ?_⟩
  · have hunknown : t.hasColumn n = false := by
      by_contra hx
      exact hout (List.mem_filter.2 ⟨hn, Bool.of_not_eq_false hx⟩)
    refine (hmem _).2 (Or.inl (Or.inl (Or.inl ?_)))
    exact List.mem_map_of_mem (List.mem_filter.2 ⟨hn, by rw [hunknown]; rfl⟩)
  · rw [emittedForeignKeys, if_pos hforeign, List.mem_filter] at hout
    refine (hmem _).2 (Or.inl (Or.inr ?_))
    rw [if_pos hforeign]
    refine List.mem_flatMap.2 ⟨k, hk, ?_⟩
    rw [ForeignKey.notices, if_neg fun hx => hout ⟨hk, hx⟩]
    exact List.mem_singleton_self _
  · rw [emittedIndexes, if_pos hindexes] at hout
    obtain ⟨n, hn, heq⟩ := Index.exists_notice_of_notMem_kept hi
      fun hx => hout (List.mem_append_left _ hx)
    have hnotice : n ∈ t.notices options := (hmem n).2 (Or.inr (by rw [if_pos hindexes]; exact hn))
    rcases heq with rfl | rfl
    · exact Or.inl hnotice
    · exact Or.inr hnotice

/-- The foreign keys list columns of the table exactly if the complete ones name such. -/
theorem hasColumn_foreignKeyListings_iff :
    (∀ l ∈ t.foreignKeyListings options, ∀ n ∈ l.columns, t.hasColumn n = true) ↔
      (options.foreignKeys = true → ∀ k ∈ t.foreignKeys, k.isComplete = true →
        ∀ n ∈ k.columns, t.hasColumn n = true) := by
  rw [foreignKeyListings, List.forall_mem_map, emittedForeignKeys]
  cases options.foreignKeys <;> simp

/-- An index that is rendered is the first one over its columns, or supports a foreign key that is
rendered. -/
theorem mem_emittedIndexes {i : Index} (h : i ∈ t.emittedIndexes options) :
    (options.indexes = true ∧ ∃ before j after, t.indexes = before ++ j :: after ∧
      Index.IsFirst (Index.keySignatures t.renderedKey) before j ∧ i.columns = j.columns) ∨
    ∃ k ∈ t.emittedForeignKeys options, i.columns = k.columns := by
  rw [emittedIndexes] at h
  split at h
  · rename_i hindexes
    rcases List.mem_append.1 h with h | h
    · obtain ⟨before, j, after, hsplit, hfirst, rfl⟩ := Index.mem_kept_iff.1 h
      exact Or.inl ⟨hindexes, before, j, after, hsplit, hfirst, rfl⟩
    · obtain ⟨k, hk, rfl⟩ := Index.exists_of_mem_supporting h
      exact Or.inr ⟨k, hk, rfl⟩
  · cases h

/-- **A rendered table lists none but its own columns exactly if its foreign keys and indexes name
none but these.** Its key always does, and whatever is left out of the table is reported. -/
theorem listings_hasColumn_iff (options : RenderOptions) (t : Table) :
    ((t.listings options).map Listing.text =
      (t.wholeKeyColumns.map fun c => c.rendered options.dialect .whole) ++
        t.keyItems options.dialect ++ t.foreignKeyItems options ++
          (t.indexItems options ++ t.indexStatements options)) ∧
    (∀ l ∈ t.listings options, l.text ∈ t.bodyItems options ++ t.indexStatements options) ∧
    (∀ l ∈ t.keyListings options.dialect, ∀ n ∈ l.columns, t.hasColumn n = true) ∧
    t.ReportsOmissions options ∧
    ((∀ l ∈ t.listings options, ∀ n ∈ l.columns, t.hasColumn n = true) ↔
      t.RefersToOwnColumns options) := by
  refine ⟨t.map_text_listings options, fun l hl => text_mem_of_mem_listings hl,
    fun l hl => hasColumn_of_mem_keyListings hl, t.reportsOmissions options, fun h => ⟨?_, ?_⟩, ?_⟩
  · refine hasColumn_foreignKeyListings_iff.1 fun l hl => h l ?_
    exact List.mem_append_left _ (List.mem_append_right _ hl)
  · intro hindexes before i after hsplit hfirst
    have hkept : { i with name := some (i.nameFor t.name) } ∈ t.emittedIndexes options := by
      rw [emittedIndexes, if_pos hindexes]
      exact List.mem_append_left _ (Index.mem_kept_iff.2 ⟨before, i, after, hsplit, hfirst, rfl⟩)
    exact h _ (List.mem_append_right _ (List.mem_map_of_mem hkept))
  · intro h l hl
    have hforeign := hasColumn_foreignKeyListings_iff.2 h.foreignKey
    rcases List.mem_append.1 hl with hl | hl
    · rcases List.mem_append.1 hl with hl | hl
      · exact hasColumn_of_mem_keyListings hl
      · exact hforeign l hl
    · obtain ⟨i, hi, rfl⟩ := List.mem_map.1 hl
      dsimp only
      rcases mem_emittedIndexes hi with
        ⟨hindexes, before, j, after, hsplit, hfirst, hcolumns⟩ | ⟨k, hk, hcolumns⟩
      · rw [hcolumns]
        exact h.index hindexes before j after hsplit hfirst
      · rw [hcolumns]
        exact hforeign _ (List.mem_map_of_mem hk)

/-- A table with a foreign key over a column that it does not have. -/
def strayTable : Table where
  name := "t"
  columns := [{ name := "id", dataType := "INT" }]
  foreignKeys := [{ columns := ["ghost"], referencedTable := "u", referencedColumns := ["id"] }]

/-- The foreign key is rendered with the column, and nothing is reported. -/
theorem listings_strayKey :
    strayTable.fault? = none ∧
      (∃ l ∈ strayTable.listings {}, l.text ∈ strayTable.bodyItems {} ∧
        ∃ n ∈ l.columns, strayTable.hasColumn n = false) ∧
      (strayTable.rendered {}).notices = [] := by
  decide +kernel

end Table
end SchemaScript
