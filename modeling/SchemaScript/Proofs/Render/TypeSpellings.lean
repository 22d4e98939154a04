import SchemaScript.Proofs.Render.Types

/-!
# Rendered types are read back

Every type but `DATETIMEOFFSET`, which is no word of the vocabulary, is written as tokens that are
read as a type (`Column.exists_writesType`). What is read is rendered in the same way again with
two exceptions: `TINYINT(1)` is read as a truth value, and the literals of a value set are read
with the backslashes that were doubled when they were written.
-/

namespace SchemaScript

open ColumnDefinition (TypeArguments WritesType)

namespace Dialect

/-- The type that a rendered type is rendered as once it is read, if it is read. -/
def rerendered? (d : Dialect) (type : String) : Option String :=
  (ColumnDefinition.ofText? ("c " ++ type)).map fun p => p.toColumn.renderedType d

variable {d : Dialect} {type : String} {ts : List Token} {p : ColumnDefinition}

/-- A type that is written as tokens is rendered as what they are read as is. -/
theorem rerendered?_of_writesType (h : WritesType type ts p) :
    d.rerendered? type = some (p.toColumn.renderedType d) := by
  rw [rerendered?, h.ofText?]
  rfl

theorem renderedType_of_isFixedDefinition (h : d.isFixedDefinition type p = true) :
    p.toColumn.renderedType d = type := by
  simp only [isFixedDefinition, Bool.and_eq_true, beq_iff_eq] at h
  exact h.1.2

end Dialect

namespace Column

variable {d : Dialect} {c : Column}

/-- **A value set is read back exactly if there is no backslash in its literals.** -/
theorem rerendered?_of_isValueSet (hd : d.isMySqlFamily = true) (h : c.isValueSet = true) :
    (d.rerendered? (c.renderedType d)).isSome = true ∧
      (d.rerendered? (c.renderedType d) = some (c.renderedType d) ↔
        ∀ v ∈ c.values, '\\' ∉ v.toList) := by
  obtain ⟨hw, htext⟩ := renderedType_of_isValueSet hd h
  generalize Text.lower c.dataType = w at hw htext
  have hwrites := writesType_values hw c.escapedValues
  obtain ⟨c', hc'⟩ : ∃ c', c' = ((TypeArguments.values c.escapedValues).definition ""
      (Text.upper w)).toColumn := ⟨_, rfl⟩
  have hvalues : c'.values = c.escapedValues := by rw [hc']; rfl
  have htype : c'.dataType = Text.upper w := by rw [hc']; rfl
  have hall : ∀ w ∈ ["enum", "set"], DataType.isValueSet (Text.upper w) = true ∧
      Text.lower (Text.upper w) = w := by
    decide
  have hset : c'.isValueSet = true := by
    rw [isValueSet, htype, hvalues, (hall w hw).1, escapedValues, List.isEmpty_map]
    exact (Bool.and_eq_true_iff.1 h).2
  have htext' := (renderedType_of_isValueSet hd hset).2
  rw [htype, (hall w hw).2] at htext'
  have hrerendered : d.rerendered? (c.renderedType d) =
      some (w ++ (TypeArguments.values c'.escapedValues).text) := by
    rw [htext, Dialect.rerendered?_of_writesType hwrites, ← hc', htext']
  refine ⟨by rw [hrerendered]; rfl, ?_⟩
  rw [hrerendered, htext, Option.some.injEq, ← escapedValues_eq_iff]
  constructor
  · -- one text is read with one list of literals
    intro hsame
    have hsame' := congrArg (fun type => ColumnDefinition.ofText? ("c " ++ type)) hsame
    simp only [(writesType_values hw _).ofText?] at hsame'
    have hliterals := congrArg ColumnDefinition.values (Option.some.inj hsame')
    rw [← hvalues]
    exact escapedValues_inj.1 hliterals
  · intro hsame
    rw [escapedValues_inj.2 (hvalues.trans hsame)]

/-! ## All types -/

/-- Every type but one is written as tokens that are read as a type. -/
theorem exists_writesType (d : Dialect) (c : Column)
    (hoffset : c.renderedType d ≠ "DATETIMEOFFSET") :
    ∃ ts p, WritesType (c.renderedType d) ts p := by
  rcases renderedType_cases d c with hfixed | ⟨target, a, htakes, htext⟩ | ⟨hd, hset⟩
  · obtain ⟨p, hp, -⟩ := Dialect.exists_writesType_of_mem_fixedTypes hfixed hoffset
    exact ⟨_, p, hp⟩
  · rw [htext]
    exact ⟨_, _, Catalog.writesType_sized htakes⟩
  · obtain ⟨hw, htext⟩ := renderedType_of_isValueSet hd hset
    rw [htext]
    exact ⟨_, _, writesType_values hw _⟩

/-- A type that is read is rendered in the same way again unless it is read as a truth value or
has backslashes in its literals. -/
theorem rerendered?_renderedType (d : Dialect) (c : Column)
    (hoffset : c.renderedType d ≠ "DATETIMEOFFSET") (hone : c.renderedType d ≠ "TINYINT(1)")
    (hvalues : d.isMySqlFamily = true → c.isValueSet = true → ∀ v ∈ c.values, '\\' ∉ v.toList) :
    d.rerendered? (c.renderedType d) = some (c.renderedType d) := by
  rcases renderedType_cases d c with hfixed | ⟨target, a, htakes, htext⟩ | ⟨hd, hset⟩
  · obtain ⟨p, hp, hfixed⟩ := Dialect.exists_writesType_of_mem_fixedTypes hfixed hoffset
    rw [Dialect.rerendered?_of_writesType hp, Dialect.renderedType_of_isFixedDefinition hfixed]
  · rw [htext] at hone ⊢
    rw [Dialect.rerendered?_of_writesType (Catalog.writesType_sized htakes),
      (Catalog.renderedType_definition htakes hone "").2]
  · exact (rerendered?_of_isValueSet hd hset).2.2 (hvalues hd hset)

/-- **Rendered types are read back.** The type of a column is read exactly if it is not
`DATETIMEOFFSET`, and it is read as a type that is rendered in the same way exactly if, besides, it
is not `TINYINT(1)` and no literal of a MySQL value set has a backslash in it. -/
theorem ofText?_renderedType (d : Dialect) (c : Column) :
    ((ColumnDefinition.ofText? ("c " ++ c.renderedType d)).isSome = true ↔
      c.renderedType d ≠ "DATETIMEOFFSET") ∧
    ((∃ p, ColumnDefinition.ofText? ("c " ++ c.renderedType d) = some p ∧
        p.toColumn.renderedType d = c.renderedType d) ↔
      c.renderedType d ≠ "DATETIMEOFFSET" ∧ c.renderedType d ≠ "TINYINT(1)" ∧
        ¬ (d.isMySqlFamily = true ∧ c.isValueSet = true ∧ ∃ v ∈ c.values, '\\' ∈ v.toList)) := by
  have hunread : ColumnDefinition.ofText? ("c " ++ "DATETIMEOFFSET") = none := by decide +kernel
  have hboolean : d.rerendered? "TINYINT(1)" ≠ some "TINYINT(1)" := by
    cases d <;> decide +kernel
  have hsome : (d.rerendered? (c.renderedType d)).isSome =
      (ColumnDefinition.ofText? ("c " ++ c.renderedType d)).isSome := by
    rw [Dialect.rerendered?, Option.isSome_map]
  have hread : (ColumnDefinition.ofText? ("c " ++ c.renderedType d)).isSome = true ↔
      c.renderedType d ≠ "DATETIMEOFFSET" := by
    refine ⟨fun h hoffset => ?_, fun hoffset => ?_⟩
    · rw [hoffset, hunread] at h
      cases h
    · obtain ⟨ts, p, hp⟩ := exists_writesType d c hoffset
      rw [hp.ofText?]
      rfl
  have hreads : (∃ p, ColumnDefinition.ofText? ("c " ++ c.renderedType d) = some p ∧
      p.toColumn.renderedType d = c.renderedType d) ↔
        d.rerendered? (c.renderedType d) = some (c.renderedType d) := by
    rw [Dialect.rerendered?, Option.map_eq_some_iff]
  refine ⟨hread, ?_⟩
  rw [hreads]
  constructor
  · intro h
    refine ⟨hread.1 (by rw [← hsome, h]; rfl), fun hone => ?_, ?_⟩
    · rw [hone] at h
      exact hboolean h
    · rintro ⟨hd, hset, v, hv, hmem⟩
      exact (rerendered?_of_isValueSet hd hset).2.1 h v hv hmem
  · rintro ⟨hoffset, hone, hno⟩
    exact rerendered?_renderedType d c hoffset hone fun hd hset v hv hmem =>
      hno ⟨hd, hset, v, hv, hmem⟩

/-- A timestamp with a time zone is rendered for SQL Server as a type that is not read. -/
theorem ofText?_renderedType_timeZone :
    ¬ ∃ p, ColumnDefinition.ofText? ("c " ++
        Column.renderedType .sqlserver { name := "c", dataType := "TIMESTAMPTZ" }) = some p ∧
      p.toColumn.renderedType .sqlserver =
        Column.renderedType .sqlserver { name := "c", dataType := "TIMESTAMPTZ" } := by
  have hunread : ColumnDefinition.ofText? ("c " ++
      Column.renderedType .sqlserver { name := "c", dataType := "TIMESTAMPTZ" }) = none := by
    decide +kernel
  rintro ⟨p, hp, -⟩
  rw [hunread] at hp
  cases hp

/-- Only SQL Server has a type that is not read again. -/
theorem renderedType_ne_of_ne_sqlserver (hd : d ≠ .sqlserver) (c : Column) :
    c.renderedType d ≠ "DATETIMEOFFSET" := by
  have hparen : ∀ {target : String} {a : ColumnDefinition.TypeArguments},
      '(' ∈ a.text.toList → target ++ a.text ≠ "DATETIMEOFFSET" := by
    intro target a ha hx
    have hmem : '(' ∈ (target ++ a.text).toList := by
      rw [String.toList_append]
      exact List.mem_append_right _ ha
    rw [hx] at hmem
    revert hmem
    decide
  rcases renderedType_cases d c with hfixed | ⟨target, a, htakes, htext⟩ | ⟨hd, hset⟩
  · have hall : ∀ type ∈ d.fixedTypes, type ≠ "DATETIMEOFFSET" := by
      cases d with
      | sqlserver => exact absurd rfl hd
      | _ => decide
    exact hall _ hfixed
  · rw [htext]
    refine hparen ?_
    cases a with
    | absent | values vs => cases htakes
    | length n => simp [ColumnDefinition.TypeArguments.text]
    | lengthScale n s => simp [ColumnDefinition.TypeArguments.text]
  · rw [(renderedType_of_isValueSet hd hset).2]
    exact hparen (by simp [ColumnDefinition.TypeArguments.text])

end Column
end SchemaScript
