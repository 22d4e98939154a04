import SchemaScript.Proofs.Render.KeyPlacement
import SchemaScript.Proofs.Render.Tables

/-!
# Derived names

Names that are not given to indexes and foreign keys are derived: they are put together from a
word, the name of the table and names of columns, with underscores in between. So a derived name
begins with `fk_` or `idx_`, and behind that it has no characters but those of the names that it is
derived from and of these words (`ForeignKey.nameFor_cases`, `Index.cases_of_mem_emitted`).

If the names of a table can be rendered and read back, so can those that are derived from them.
None of them is a word that cannot be the name of a constraint or of an index
(`Table.isSettled_of_isNameable`).
-/

namespace SchemaScript

variable {d : Dialect} {names : List String} {m n s : String}

/-! ## The characters of derived names -/

/-- Whether all characters of a text have a property. -/
def HasChars (p : Char → Prop) (s : String) : Prop :=
  ∀ c ∈ s.toList, p c

namespace HasChars

variable {p : Char → Prop}

theorem append (hm : HasChars p m) (hn : HasChars p n) : HasChars p (m ++ n) := by
  unfold HasChars
  rw [String.toList_append]
  exact List.forall_mem_append.2 ⟨hm, hn⟩

theorem of_subset (h : HasChars p n) (hsubset : m.toList ⊆ n.toList) : HasChars p m :=
  fun c hc => h c (hsubset hc)

theorem headD (h : ∀ n ∈ names, HasChars p n) : HasChars p (names.headD "") := by
  cases names with
  | nil => exact fun _ hc => absurd hc List.not_mem_nil
  | cons n names => exact h n List.mem_cons_self

theorem intercalate (hunderscore : HasChars p "_") (h : ∀ n ∈ names, HasChars p n) :
    HasChars p ("_".intercalate names) := by
  induction names with
  | nil => exact fun _ hc => absurd hc List.not_mem_nil
  | cons n names ih =>
    have hn := h n List.mem_cons_self
    have ih := ih fun m hm => h m (List.mem_cons_of_mem n hm)
    cases names with
    | nil => rwa [String.intercalate_singleton]
    | cons m names =>
      rw [String.intercalate_cons_cons]
      exact (hn.append hunderscore).append ih

end HasChars

/-- A name is given, or derived if none is. -/
theorem givenName_cases (name : Option String) (otherwise : String) :
    givenName name otherwise ∈ name ∨ givenName name otherwise = otherwise := by
  unfold givenName
  cases name with
  | none => exact Or.inr rfl
  | some m =>
    dsimp only
    split
    · exact Or.inr rfl
    · exact Or.inl rfl

section Derived

variable {p : Char → Prop} {table : String}

/-- A name that is derived from that of a table, behind the word at its beginning. -/
theorem exists_derived (hunderscore : HasChars p "_") (htable : HasChars p table)
    (hn : HasChars p n) (start : String) :
    ∃ s, start ++ table ++ "_" ++ n = start ++ s ∧ HasChars p s :=
  ⟨table ++ "_" ++ n, by simp only [String.append_assoc],
    (htable.append hunderscore).append hn⟩

/-- The name of a foreign key is given or begins with `fk_`. -/
theorem ForeignKey.nameFor_cases (k : ForeignKey) (hunderscore : HasChars p "_")
    (htable : HasChars p table) (hcolumns : ∀ n ∈ k.columns, HasChars p n) :
    k.nameFor table ∈ k.name ∨ ∃ s, k.nameFor table = "fk_" ++ s ∧ HasChars p s := by
  refine (givenName_cases k.name _).imp_right fun hderived => ?_
  rw [nameFor, hderived]
  exact exists_derived hunderscore htable (HasChars.headD hcolumns) "fk_"

/-- The name of an index is given or begins with `idx_`. -/
theorem Index.nameFor_cases (i : Index) (hunderscore : HasChars p "_")
    (htable : HasChars p table) (hcolumns : ∀ n ∈ i.columns, HasChars p n) :
    i.nameFor table ∈ i.name ∨ ∃ s, i.nameFor table = "idx_" ++ s ∧ HasChars p s := by
  refine (givenName_cases i.name _).imp_right fun hderived => ?_
  rw [nameFor, hderived]
  exact exists_derived hunderscore htable (HasChars.intercalate hunderscore hcolumns) "idx_"

/-- The name of an index that supports a foreign key begins with `idx_`. -/
theorem Index.supportingName_eq {k : ForeignKey} (hunderscore : HasChars p "_")
    (htable : HasChars p table) (h : ∀ n ∈ k.identifiers, HasChars p n) :
    ∃ s, supportingName table k = "idx_" ++ s ∧ HasChars p s := by
  rw [supportingName]
  split
  · rename_i c cs hrest
    obtain ⟨n, hn, hstrip⟩ := Option.bind_eq_some_iff.1 hrest
    have hgiven : HasChars p n := h n (by simp [ForeignKey.identifiers, hn])
    have hsuffix : n.toList = "fk_".toList ++ (c :: cs) := Text.stripStart?_eq_some_iff.1 hstrip
    refine ⟨_, rfl, hgiven.of_subset ?_⟩
    rw [String.toList_ofList, hsuffix]
    exact List.subset_append_right _ _
  · refine exists_derived hunderscore htable (HasChars.headD fun n hn => h n ?_) "idx_"
    simp [ForeignKey.identifiers, hn]

/-- **The indexes that are rendered** have names that are given or begin with `idx_`, and their
columns are those of a declared index or of a foreign key. -/
theorem Index.cases_of_mem_emitted {i : Index} {primaryKey : List String} {declared : List Index}
    {keys : List ForeignKey} (hunderscore : HasChars p "_") (htable : HasChars p table)
    (hdeclared : ∀ j ∈ declared, ∀ n ∈ j.identifiers, HasChars p n)
    (hkeys : ∀ k ∈ keys, ∀ n ∈ k.identifiers, HasChars p n)
    (hi : i ∈ emitted table primaryKey declared keys) :
    (∃ n, i.name = some n ∧ ((∃ j ∈ declared, n ∈ j.name) ∨
      ∃ s, n = "idx_" ++ s ∧ HasChars p s)) ∧
    ((∃ j ∈ declared, i.columns = j.columns) ∨ ∃ k ∈ keys, i.columns = k.columns) := by
  rcases List.mem_append.1 hi with hi | hi
  · obtain ⟨j, hj, rfl⟩ := exists_of_mem_kept hi
    refine ⟨⟨_, rfl, ?_⟩, Or.inl ⟨j, hj, rfl⟩⟩
    exact (j.nameFor_cases hunderscore htable fun n hn =>
      hdeclared j hj n (List.mem_append_right _ hn)).imp_left fun hn => ⟨j, hj, hn⟩
  · obtain ⟨k, hk, rfl⟩ := exists_of_mem_supporting hi
    exact ⟨⟨_, rfl, Or.inr (supportingName_eq hunderscore htable (hkeys k hk))⟩,
      Or.inr ⟨k, hk, rfl⟩⟩

end Derived

/-! ## Names that can be rendered -/

namespace Dialect

/-- Whether a name can go on with the character. -/
def IsNameChar (d : Dialect) (c : Char) : Prop :=
  if d.isMySqlFamily then c ≠ '\x60' else Token.isWordPart c = true

theorem IsNameable.hasChars (h : d.IsNameable n) : HasChars d.IsNameChar n := by
  unfold IsNameable at h
  intro c hc
  unfold IsNameChar
  split
  · rw [if_pos ‹_›] at h
    rintro rfl
    exact h hc
  · rw [if_neg ‹_›] at h
    exact Naming.isWordPart_of_isWord h c hc

theorem IsNameable.append (hm : d.IsNameable m) (hn : HasChars d.IsNameChar n) :
    d.IsNameable (m ++ n) := by
  have hboth := hm.hasChars.append hn
  unfold HasChars IsNameChar at hboth
  unfold IsNameable at *
  split
  · simp only [if_pos ‹_›] at hboth
    exact fun hx => hboth _ hx rfl
  · rw [if_neg ‹_›] at hm
    simp only [if_neg ‹_›] at hboth
    obtain ⟨c, cs, hcs, hstart, -⟩ := Naming.exists_of_isWord hm
    rw [String.toList_append, hcs] at hboth
    rw [Naming.isWord, String.toList_append, hcs]
    exact Bool.and_eq_true_iff.2 ⟨hstart, List.all_eq_true.2 fun e he =>
      hboth e (List.mem_cons_of_mem c he)⟩

theorem hasChars_underscore (d : Dialect) : HasChars d.IsNameChar "_" :=
  (isNameable_of_isWord d (by decide)).hasChars

theorem fullUpper_append (m n : String) :
    Text.fullUpper (m ++ n) = Text.fullUpper m ++ Text.fullUpper n := by
  simp [Text.fullUpper]

/-- What begins with `idx_` is not the word `IF`. -/
theorem isCreatedName_idx (h : HasChars d.IsNameChar s) : d.IsCreatedName ("idx_" ++ s) where
  nameable := (isNameable_of_isWord d (by decide)).append h
  unconditional := by
    intro _
    show (Text.fullUpper ("idx_" ++ s) == "IF") = false
    have hstart : Text.fullUpper "idx_" = "IDX_" := by decide
    rw [fullUpper_append, hstart, beq_eq_false_iff_ne]
    intro hx
    simpa using congrArg String.toList hx

/-- What begins with `fk_` is neither the kind of a constraint nor a type. -/
theorem isConstraintName_fk (h : HasChars d.IsNameChar s) : d.IsConstraintName ("fk_" ++ s) := by
  have hname : d.IsNameable ("fk_" ++ s) := (isNameable_of_isWord d (by decide)).append h
  by_cases hd : d.isMySqlFamily = true
  · exact isConstraintName_of_isMySqlFamily hd hname
  have htoken : d.nameToken ("fk_" ++ s) = .word ("fk_" ++ s) := if_neg hd
  refine ⟨hname, ?_, ?_⟩
  · have hstart : Text.fullUpper "fk_" = "FK_" := by decide
    have hall : ∀ k ∈ ["PRIMARY", "UNIQUE", "FOREIGN", "CHECK"], ¬ "FK_".toList <+: k.toList := by
      decide
    rw [htoken, List.any_eq_false]
    intro k hk hx
    have hword : Text.fullUpper ("fk_" ++ s) = k := by simpa [Token.isKeyword] using hx
    refine hall k hk ⟨(Text.fullUpper s).toList, ?_⟩
    rw [← String.toList_append, ← hstart, ← fullUpper_append, hword]
  · have hall : ∀ v ∈ DataType.vocabulary, ¬ "fk_".toList <+: Text.foldCase v.toList := by
      decide +kernel
    rw [htoken]
    show DataType.isKeyword ("fk_" ++ s) = false
    rw [DataType.isKeyword, List.any_eq_false]
    intro v hv hx
    refine hall v hv ⟨Text.foldCase s.toList, ?_⟩
    have hsame : Text.foldCase v.toList = Text.foldCase ("fk_" ++ s).toList := by
      simpa [Text.sameIgnoringCase] using hx
    rw [hsame, String.toList_append, Text.foldCase_append]
    rfl

end Dialect

namespace Table

variable {t : Table}

/-! ## The names of a table -/

section Identifiers

variable {p : String → Prop} (h : ∀ n ∈ t.identifiers, p n)
include h

theorem forall_name_of_identifiers : p t.name :=
  h t.name (by simp [identifiers])

theorem forall_columns_of_identifiers : ∀ c ∈ t.columns, p c.name := by
  intro c hc
  have hmem : c.name ∈ t.columns.map Column.name := List.mem_map_of_mem hc
  refine h c.name ?_
  simp only [identifiers, List.cons_append, List.mem_cons, List.mem_append]
  tauto

theorem forall_foreignKeys_of_identifiers : ∀ k ∈ t.foreignKeys, ∀ n ∈ k.identifiers, p n := by
  intro k hk n hn
  refine h n ?_
  rw [identifiers, List.mem_append, List.mem_append]
  exact Or.inl (Or.inr (List.mem_flatMap.2 ⟨k, hk, hn⟩))

theorem forall_indexes_of_identifiers : ∀ i ∈ t.indexes, ∀ n ∈ i.identifiers, p n := by
  intro i hi n hn
  refine h n ?_
  rw [identifiers, List.mem_append]
  exact Or.inr (List.mem_flatMap.2 ⟨i, hi, hn⟩)

theorem forall_completeKeys_of_identifiers : ∀ k ∈ t.completeKeys, ∀ n ∈ k.identifiers, p n :=
  fun k hk => forall_foreignKeys_of_identifiers h k (List.mem_filter.1 hk).1

end Identifiers

/-- The indexes of a table have names that are given or derived, and columns that are given. -/
theorem cases_of_mem_allIndexes {p : Char → Prop} {i : Index} (hunderscore : HasChars p "_")
    (h : ∀ n ∈ t.identifiers, HasChars p n) (hi : i ∈ t.allIndexes) :
    (∃ n, i.name = some n ∧ ((∃ j ∈ t.indexes, n ∈ j.name) ∨
      ∃ s, n = "idx_" ++ s ∧ HasChars p s)) ∧
    ((∃ j ∈ t.indexes, i.columns = j.columns) ∨ ∃ k ∈ t.completeKeys, i.columns = k.columns) :=
  Index.cases_of_mem_emitted hunderscore (forall_name_of_identifiers h)
    (forall_indexes_of_identifiers h) (forall_completeKeys_of_identifiers h) hi

/-- What holds of the names that are given holds of the columns of all indexes. -/
theorem forall_columns_of_mem_allIndexes {p : String → Prop} {i : Index}
    (h : ∀ n ∈ t.identifiers, p n) (hi : i ∈ t.allIndexes) : ∀ n ∈ i.columns, p n := by
  have hany : ∀ n ∈ t.identifiers, HasChars (fun _ => True) n := fun _ _ _ _ => trivial
  intro n hn
  rcases (cases_of_mem_allIndexes (fun _ _ => trivial) hany hi).2 with
    ⟨j, hj, hsame⟩ | ⟨k, hk, hsame⟩
  · exact forall_indexes_of_identifiers h j hj n (List.mem_append_right _ (hsame ▸ hn))
  · exact forall_completeKeys_of_identifiers h k hk n
      (List.mem_append_left _ (List.mem_append_right _ (hsame ▸ hn)))

/-- The names in a table can be rendered and read back, where they stand. -/
structure IsNameable (d : Dialect) (t : Table) : Prop where
  identifiers : ∀ n ∈ t.identifiers, d.IsNameable n
  created : ∀ n ∈ t.name :: t.indexes.filterMap Index.name, d.IsCreatedName n
  constraints : ∀ n ∈ t.foreignKeys.filterMap ForeignKey.name, d.IsConstraintName n

/-- In quotes all names that can be rendered can stand anywhere. -/
theorem isNameable_of_isMySqlFamily (hd : d.isMySqlFamily = true)
    (h : ∀ n ∈ t.identifiers, '\x60' ∉ n.toList) : t.IsNameable d := by
  have hall : ∀ n ∈ t.identifiers, d.IsNameable n := fun n hn =>
    Dialect.isNameable_of_isMySqlFamily hd (h n hn)
  refine ⟨hall, fun n hn => ?_, fun n hn => ?_⟩
  · refine Dialect.isCreatedName_of_isMySqlFamily hd ?_
    rcases List.mem_cons.1 hn with rfl | hn
    · exact forall_name_of_identifiers hall
    · obtain ⟨i, hi, hname⟩ := List.mem_filterMap.1 hn
      exact forall_indexes_of_identifiers hall i hi n (by simp [Index.identifiers, hname])
  · refine Dialect.isConstraintName_of_isMySqlFamily hd ?_
    obtain ⟨k, hk, hname⟩ := List.mem_filterMap.1 hn
    exact forall_foreignKeys_of_identifiers hall k hk n (by simp [ForeignKey.identifiers, hname])

/-- **A table with settled columns goes back and forth if its names can be rendered.** -/
theorem isSettled_of_isNameable (h : t.IsNameable d)
    (hcolumns : ∀ c ∈ t.columns, d.IsNameable c.name → c.IsSettled d) : t.IsSettled d := by
  have hchars : ∀ n ∈ t.identifiers, HasChars d.IsNameChar n := fun n hn =>
    (h.identifiers n hn).hasChars
  refine ⟨h.created t.name List.mem_cons_self, fun c hc => hcolumns c hc
    (forall_columns_of_identifiers h.identifiers c hc), fun k hk => ?_, fun i hi => ?_⟩
  · have hnames := forall_completeKeys_of_identifiers h.identifiers k hk
    refine ⟨?_, hnames _ (by simp [ForeignKey.identifiers]), fun n hn =>
      hnames n (by simp [ForeignKey.identifiers, hn]), fun n hn =>
        hnames n (by simp [ForeignKey.identifiers, hn])⟩
    rcases k.nameFor_cases d.hasChars_underscore (forall_name_of_identifiers hchars) (fun n hn =>
      (hnames n (by simp [ForeignKey.identifiers, hn])).hasChars) with hgiven | ⟨s, hs, hderived⟩
    · exact h.constraints _ (List.mem_filterMap.2 ⟨k, (List.mem_filter.1 hk).1, hgiven⟩)
    · rw [hs]
      exact Dialect.isConstraintName_fk hderived
  · obtain ⟨⟨n, hn, hname⟩, -⟩ := cases_of_mem_allIndexes d.hasChars_underscore hchars hi
    refine ⟨⟨n, hn, ?_⟩, forall_columns_of_mem_allIndexes h.identifiers hi⟩
    rcases hname with ⟨j, hj, hgiven⟩ | ⟨s, rfl, hderived⟩
    · exact h.created n (List.mem_cons_of_mem _ (List.mem_filterMap.2 ⟨j, hj, hgiven⟩))
    · exact Dialect.isCreatedName_idx hderived

end Table
end SchemaScript
