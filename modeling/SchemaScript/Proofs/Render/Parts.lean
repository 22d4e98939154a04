import SchemaScript.Render.Table

/-!
# The parts of a rendered table

The body of a rendered table holds columns, then the key, foreign keys and indexes, and its notices
come from the same four sources. Behind the columns the parts can be told by the word they begin
with (`filter_keyItem`, `filter_foreignKeyItem`), and the notices by their kind
(`filter_isOfKey`, `filter_isOfForeignKey`). A statement about one part is therefore one about
the body, or about the notices, of the whole table.
-/

namespace SchemaScript

namespace Text

/-- Whether a text begins with a word. -/
def begins (word text : String) : Bool :=
  word.toList.isPrefixOf text.toList

theorem begins_append (word rest : String) : begins word (word ++ rest) = true := by
  rw [begins, String.toList_append, List.isPrefixOf_iff_prefix]
  exact List.prefix_append _ _

theorem head?_of_begins {word text : String} {c : Char} (hword : word.toList.head? = some c)
    (h : begins word text = true) : text.toList.head? = some c := by
  obtain ⟨rest, hrest⟩ := List.isPrefixOf_iff_prefix.1 h
  rw [← hrest, List.head?_append, hword]
  rfl

end Text

namespace Notice

/-- Whether the notice is about the primary key. -/
def isOfKey : Notice → Bool
  | unknownKeyColumn .. => true
  | _ => false

/-- Whether the notice is about a foreign key. -/
def isOfForeignKey : Notice → Bool
  | incompleteForeignKey .. | invalidAction .. => true
  | _ => false

end Notice

namespace Table

open Text (begins begins_append head?_of_begins)

variable {options : RenderOptions} {t : Table}

/-! ## Items -/

/-- The items of the body behind the columns. -/
def itemsBehindColumns (options : RenderOptions) (t : Table) : List String :=
  (t.bodyItems options).drop t.columns.length

theorem itemsBehindColumns_eq (options : RenderOptions) (t : Table) :
    t.itemsBehindColumns options =
      t.keyItems options.dialect ++ t.foreignKeyItems options ++ t.indexItems options := by
  have hlength : (t.columnItems options.dialect).length = t.columns.length :=
    List.length_map ..
  rw [itemsBehindColumns, bodyItems, List.append_assoc, List.append_assoc, ← hlength,
    List.drop_left, List.append_assoc]

/-- Items that begin with another letter begin with another word. -/
theorem filter_begins_eq_nil {word : String} {c : Char} {items : List String}
    (hword : word.toList.head? = some c) (h : ∀ item ∈ items, item.toList.head? ≠ some c) :
    items.filter (begins word) = [] :=
  List.filter_eq_nil_iff.2 fun item hitem hbegins => h item hitem (head?_of_begins hword hbegins)

theorem begins_of_mem_keyItems {d : Dialect} {item : String} (h : item ∈ t.keyItems d) :
    begins "PRIMARY KEY(" item = true := by
  rw [keyItems] at h
  split at h
  · rw [List.mem_singleton.1 h, String.append_assoc]
    exact begins_append _ _
  · cases h

theorem begins_of_mem_foreignKeyItems {item : String} (h : item ∈ t.foreignKeyItems options) :
    begins "CONSTRAINT " item = true := by
  rw [foreignKeyItems] at h
  obtain ⟨k, -, rfl⟩ := List.mem_map.1 h
  unfold ForeignKey.rendered
  simp only [String.append_assoc]
  exact begins_append _ _

theorem begins_of_mem_indexItems {item : String} (h : item ∈ t.indexItems options) :
    begins "UNIQUE " item = true ∨ begins "INDEX " item = true := by
  rw [indexItems] at h
  split at h
  · obtain ⟨i, -, rfl⟩ := List.mem_map.1 h
    simp only [Index.renderedInline, Index.uniqueWord, String.append_assoc]
    cases i.unique
    · rw [if_neg Bool.false_ne_true, String.empty_append]
      exact Or.inr (begins_append _ _)
    · rw [if_pos rfl]
      exact Or.inl (begins_append _ _)
  · cases h

/-- An index begins with a letter that neither the key nor a foreign key begins with. -/
theorem head?_of_mem_indexItems {item : String} (h : item ∈ t.indexItems options) :
    item.toList.head? ≠ some 'P' ∧ item.toList.head? ≠ some 'C' := by
  rcases begins_of_mem_indexItems h with h | h
  · rw [head?_of_begins (c := 'U') rfl h]
    decide
  · rw [head?_of_begins (c := 'I') rfl h]
    decide

/-- **The key is the part that begins with its words.** -/
theorem filter_keyItem (options : RenderOptions) (t : Table) :
    (t.itemsBehindColumns options).filter (begins "PRIMARY KEY(") = t.keyItems options.dialect := by
  rw [itemsBehindColumns_eq, List.filter_append, List.filter_append,
    List.filter_eq_self.2 fun item => begins_of_mem_keyItems,
    filter_begins_eq_nil (c := 'P') rfl fun item hitem => (head?_of_mem_indexItems hitem).1,
    filter_begins_eq_nil (c := 'P') rfl, List.append_nil, List.append_nil]
  intro item hitem
  rw [head?_of_begins (c := 'C') rfl (begins_of_mem_foreignKeyItems hitem)]
  decide

/-- **The foreign keys are the parts that begin with the word for a constraint.** -/
theorem filter_foreignKeyItem (options : RenderOptions) (t : Table) :
    (t.itemsBehindColumns options).filter (begins "CONSTRAINT ") = t.foreignKeyItems options := by
  rw [itemsBehindColumns_eq, List.filter_append, List.filter_append,
    List.filter_eq_self.2 fun item => begins_of_mem_foreignKeyItems,
    filter_begins_eq_nil (c := 'C') rfl fun item hitem => (head?_of_mem_indexItems hitem).2,
    filter_begins_eq_nil (c := 'C') rfl, List.nil_append, List.append_nil]
  intro item hitem
  rw [head?_of_begins (c := 'P') rfl (begins_of_mem_keyItems hitem)]
  decide

/-! ## Notices -/

theorem kind_of_mem_keyNotices {n : Notice} (h : n ∈ t.keyNotices) :
    n.isOfKey = true ∧ n.isOfForeignKey = false := by
  obtain ⟨name, -, rfl⟩ := List.mem_map.1 h
  exact ⟨rfl, rfl⟩

theorem kind_of_mem_columnNotices {d : Dialect} {n : Notice}
    (h : n ∈ t.columns.flatMap (Column.notices d t.name)) :
    n.isOfKey = false ∧ n.isOfForeignKey = false := by
  obtain ⟨c, -, hn⟩ := List.mem_flatMap.1 h
  rw [Column.notices, Column.typeNotices, List.mem_append] at hn
  rcases hn with hn | hn
  · split at hn
    · rw [List.mem_singleton.1 hn]
      exact ⟨rfl, rfl⟩
    · cases hn
  · split at hn
    · rw [List.mem_singleton.1 hn]
      exact ⟨rfl, rfl⟩
    · cases hn

theorem kind_of_mem_actionNotices {table constraint : String} {action : Option String}
    {n : Notice} (h : n ∈ ForeignKey.actionNotices table constraint action) :
    n.isOfKey = false ∧ n.isOfForeignKey = true := by
  unfold ForeignKey.actionNotices at h
  split at h
  · cases h
  split at h
  · cases h
  · rw [List.mem_singleton.1 h]
    exact ⟨rfl, rfl⟩

theorem kind_of_mem_foreignKeyNotices {n : Notice}
    (h : n ∈ t.foreignKeys.flatMap (ForeignKey.notices t.name)) :
    n.isOfKey = false ∧ n.isOfForeignKey = true := by
  obtain ⟨k, -, hn⟩ := List.mem_flatMap.1 h
  rw [ForeignKey.notices] at hn
  split at hn
  · rcases List.mem_append.1 hn with hn | hn
    · exact kind_of_mem_actionNotices hn
    · exact kind_of_mem_actionNotices hn
  · rw [List.mem_singleton.1 hn]
    exact ⟨rfl, rfl⟩

theorem kind_of_mem_indexNotices {table : String} {primaryKey : List String}
    {declared : List Index} {n : Notice} (h : n ∈ Index.notices table primaryKey declared) :
    n.isOfKey = false ∧ n.isOfForeignKey = false := by
  obtain ⟨o, -, ho⟩ := List.mem_filterMap.1 h
  cases o with
  | kept i => cases ho
  | incomplete name => cases ho; exact ⟨rfl, rfl⟩
  | duplicate name => cases ho; exact ⟨rfl, rfl⟩

/-- Notices of other kinds are passed over, also where their source may be left out. -/
theorem filter_ite_eq_nil {p : Notice → Bool} {ns : List Notice} (h : ∀ n ∈ ns, p n = false)
    (included : Bool) : (if included then ns else []).filter p = [] := by
  have hnone : ns.filter p = [] :=
    List.filter_eq_nil_iff.2 fun n hn hp => Bool.false_ne_true ((h n hn).symm.trans hp)
  cases included
  · rfl
  · exact hnone

/-- **The notices of the key are those of its kind.** -/
theorem filter_isOfKey (options : RenderOptions) (t : Table) :
    (t.notices options).filter Notice.isOfKey = t.keyNotices := by
  have hcolumns := filter_ite_eq_nil (p := Notice.isOfKey)
    (fun n hn => (kind_of_mem_columnNotices (d := options.dialect) (t := t) hn).1) true
  rw [if_pos rfl] at hcolumns
  rw [notices, List.filter_append, List.filter_append, List.filter_append, hcolumns,
    filter_ite_eq_nil fun n hn => (kind_of_mem_foreignKeyNotices hn).1,
    filter_ite_eq_nil fun n hn => (kind_of_mem_indexNotices hn).1,
    List.filter_eq_self.2 fun n hn => (kind_of_mem_keyNotices hn).1,
    List.append_nil, List.append_nil, List.append_nil]

/-- **The notices of the foreign keys are those of their kind.** -/
theorem filter_isOfForeignKey (hincluded : options.foreignKeys = true) (t : Table) :
    (t.notices options).filter Notice.isOfForeignKey =
      t.foreignKeys.flatMap (ForeignKey.notices t.name) := by
  have hkey := filter_ite_eq_nil (p := Notice.isOfForeignKey)
    (fun n hn => (kind_of_mem_keyNotices (t := t) hn).2) true
  have hcolumns := filter_ite_eq_nil (p := Notice.isOfForeignKey)
    (fun n hn => (kind_of_mem_columnNotices (d := options.dialect) (t := t) hn).2) true
  rw [if_pos rfl] at hkey hcolumns
  rw [notices, if_pos hincluded, List.filter_append, List.filter_append, List.filter_append, hkey,
    hcolumns, filter_ite_eq_nil fun n hn => (kind_of_mem_indexNotices hn).2,
    List.filter_eq_self.2 fun n hn => (kind_of_mem_foreignKeyNotices hn).2,
    List.nil_append, List.nil_append, List.append_nil]

end Table
end SchemaScript
