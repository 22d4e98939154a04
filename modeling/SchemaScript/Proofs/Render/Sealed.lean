import SchemaScript.Proofs.Render.Cells
import SchemaScript.Proofs.Render.Constraints
import SchemaScript.Proofs.Script.SealedNumbers
import SchemaScript.Render.Table

/-!
# Rendered texts are sealed

For MySQL and MariaDB all names stand in backticks and all texts in single quotes, with the
quotes inside doubled, so they are sealed whatever they are. What stands between them is inert:
keywords, types, numbers, commas and parentheses. So every part of a rendered table is sealed, and
the rendered rows are.

One part of a table is taken over as it is, a default that is the literal of a column which holds
neither truth values nor numbers. Tables with such defaults are left out here
(`Column.HasNumericDefault`).
-/

namespace SchemaScript

open Script

section Family

variable {d : Dialect} (hd : d.isMySqlFamily = true)
include hd

/-! ## Names and literals -/

namespace Dialect

theorem isSealed_quoteColumn (n : String) : IsSealed (d.quoteColumn n).toList := by
  rw [quoteColumn_of_isMySqlFamily hd]
  exact IsSealed.enclose Mode.encloses_backtick n

theorem isSealed_quoteTable (n : String) : IsSealed (d.quoteTable n).toList := by
  rw [quoteTable_of_isMySqlFamily hd]
  exact IsSealed.enclose Mode.encloses_backtick n

theorem isSealed_quoteColumns (names : List String) : IsSealed (d.quoteColumns names).toList :=
  IsSealed.string_intercalate (IsSealed.of_inert rfl)
    (List.forall_mem_map.2 fun n _ => isSealed_quoteColumn hd n)

theorem isSealed_stringLiteral (v : String) : IsSealed (d.stringLiteral v).toList := by
  rw [toList_stringLiteral_of_isMySqlFamily hd]
  exact IsSealed.enclosed Mode.encloses_single _

omit hd in
theorem isSealed_booleanLiteral (b : Bool) : IsSealed (d.booleanLiteral b).toList := by
  cases d <;> cases b <;> exact IsSealed.of_inert rfl

end Dialect

end Family

/-! ## Types -/

namespace Catalog

theorem isSealed_withSize {target size : String} (ht : IsSealed target.toList)
    (hs : IsSealed size.toList) : IsSealed (withSize target size).toList :=
  ((ht.string_append (IsSealed.of_inert rfl)).string_append hs).string_append
    (IsSealed.of_inert rfl)

/-- A type with its size is sealed if it is without. -/
theorem isSealed_sizedType {target : String} (h : IsSealed target.toList)
    (length scale : Option UInt32) : IsSealed (mysql.sizedType target length scale).toList := by
  have hdefault : ∀ size, mysql.defaultSize? target = some size → IsSealed size.toList := by
    intro size hsize
    obtain ⟨before, behind, hentries, -⟩ := List.lookup_eq_some_iff.1 hsize
    have hall : ∀ entry ∈ mysql.defaultSizes, entry.2.toList.all Mode.isInert = true := by
      decide
    exact IsSealed.of_inert (hall (target, size) (hentries ▸ by simp))
  unfold sizedType
  split
  · exact h
  split
  · split
    · rename_i p s
      exact isSealed_withSize h (((IsSealed.toString_nat _).string_append
        (IsSealed.of_inert rfl)).string_append (IsSealed.toString_nat _))
    · exact isSealed_withSize h (IsSealed.toString_nat _)
    · exact h
  split
  · split
    · exact isSealed_withSize h (IsSealed.toString_nat _)
    · rename_i hsize
      exact isSealed_withSize h (hdefault _ hsize)
    · exact h
  · exact h

theorem isSealed_of_lookup {name target : String} (h : mysql.lookup name = some target) :
    IsSealed target.toList := by
  have hall : ∀ entry ∈ mysql.entries, entry.2.toList.all Mode.isInert = true := by
    decide
  obtain ⟨entry, hentry, rfl⟩ := Option.map_eq_some_iff.1 h
  exact IsSealed.of_inert (hall entry (List.mem_of_find?_eq_some hentry))

end Catalog

section Family

variable {d : Dialect} (hd : d.isMySqlFamily = true)
include hd

namespace Column

theorem isSealed_valueSetType {c : Column} (hc : c.isValueSet = true) :
    IsSealed (c.valueSetType d).toList := by
  have hword : IsSealed (Text.lower c.dataType).toList := by
    rw [isValueSet, DataType.isValueSet, Bool.and_eq_true] at hc
    obtain ⟨word, hmem, hsame⟩ := List.any_eq_true.1 hc.1
    have hall : ∀ word ∈ ["ENUM", "SET"], (Text.foldCase word.toList).all Mode.isInert = true := by
      decide
    rw [Text.toList_lower, ← eq_of_beq hsame]
    exact IsSealed.of_inert (hall word hmem)
  rw [valueSetType, if_pos hd]
  refine ((hword.string_append (IsSealed.of_inert rfl)).string_append ?_).string_append
    (IsSealed.of_inert rfl)
  exact IsSealed.string_intercalate (IsSealed.of_inert rfl)
    (List.forall_mem_map.2 fun v _ => Dialect.isSealed_stringLiteral hd v)

theorem isSealed_renderedType (c : Column) : IsSealed (c.renderedType d).toList := by
  have hcatalog : Catalog.ofDialect d = Catalog.mysql := by
    cases d <;> first | rfl | cases hd
  unfold renderedType catalogType?
  rw [hcatalog]
  split
  · rename_i hc
    exact isSealed_valueSetType hd hc
  split
  · cases d <;> exact IsSealed.of_inert rfl
  split
  · rename_i htarget
    exact Catalog.isSealed_sizedType (Catalog.isSealed_of_lookup htarget) _ _
  · exact IsSealed.of_inert rfl

/-! ## Columns -/

omit hd in
/-- Whether a literal is the default of the column only if it holds truth values or numbers. -/
def HasNumericDefault (c : Column) : Prop :=
  ∀ text, c.default = some (.literal text) →
    c.isBoolean = true ∨ c.isInteger = true ∨ c.isFractional = true

omit hd in
theorem isSealed_floatText (s : String) : IsSealed (Literal.floatText s).toList := by
  unfold Literal.floatText
  split
  · rw [String.toList_ofList]
    exact Number.isSealed_plainText _
  · exact IsSealed.of_inert rfl

omit hd in
theorem isSealed_defaultLiteral {c : Column} (raw : String)
    (hc : c.isBoolean = true ∨ c.isInteger = true ∨ c.isFractional = true) :
    IsSealed (c.defaultLiteral d raw).toList := by
  unfold defaultLiteral
  dsimp only
  split
  · exact Dialect.isSealed_booleanLiteral _
  split
  · exact IsSealed.toString_int _
  split
  · exact isSealed_floatText _
  · rename_i hboolean hinteger hfractional
    rcases hc with hc | hc | hc
    · exact absurd hc hboolean
    · exact absurd hc hinteger
    · exact absurd hc hfractional

omit hd in
theorem isSealed_defaultValue? {c : Column} (hc : c.HasNumericDefault) {v : String}
    (h : c.defaultValue? d = some v) : IsSealed v.toList := by
  have hnull : ∀ v, c.nullDefault? = some v → IsSealed v.toList := by
    intro v hv
    unfold nullDefault? at hv
    split at hv
    · cases hv
      exact IsSealed.of_inert rfl
    · cases hv
  unfold defaultValue? at h
  split at h
  · cases h
  · exact hnull v h
  · rename_i text htext
    dsimp only at h
    split at h
    · cases h
    split at h
    · exact hnull v h
    split at h
    · cases h
    · cases h
      exact isSealed_defaultLiteral _ (hc text htext)

theorem isSealed_rendered {c : Column} (hc : c.HasNumericDefault) (role : KeyRole) :
    IsSealed (c.rendered d role).toList := by
  have hnull : ∀ s ∈ c.nullWords d role, IsSealed s.toList := by
    intro s hs
    unfold nullWords at hs
    split at hs
    · cases List.mem_singleton.1 hs
      exact IsSealed.of_inert rfl
    split at hs
    · cases List.mem_singleton.1 hs
      exact IsSealed.of_inert rfl
    · cases hs
  have hcounting : ∀ s ∈ c.countingWords? d, IsSealed s.toList := by
    intro s hs
    unfold countingWords? at hs
    split at hs
    · cases d <;> cases hs <;> exact IsSealed.of_inert rfl
    · cases hs
  have hdefault : ∀ s ∈ c.defaultClause? d role, IsSealed s.toList := by
    intro s hs
    unfold defaultClause? at hs
    split at hs
    · obtain ⟨v, hv, rfl⟩ := Option.map_eq_some_iff.1 hs
      exact IsSealed.string_append (IsSealed.of_inert rfl) (isSealed_defaultValue? hc hv)
    · cases hs
  have hdescription : ∀ s ∈ c.visibleDescription?.map fun text =>
      "COMMENT " ++ d.stringLiteral text, IsSealed s.toList := by
    intro s hs
    obtain ⟨text, -, rfl⟩ := Option.map_eq_some_iff.1 hs
    exact IsSealed.string_append (IsSealed.of_inert rfl) (Dialect.isSealed_stringLiteral hd text)
  refine IsSealed.string_intercalate (IsSealed.of_inert rfl) fun s hs => ?_
  simp only [clauses, List.mem_append, List.mem_cons, List.not_mem_nil, or_false] at hs
  rcases hs with (((((hs | hs) | hs) | hs) | hs) | hs) | hs
  · rw [hs]
    exact Dialect.isSealed_quoteColumn hd c.name
  · rw [hs]
    exact isSealed_renderedType hd c
  · split at hs
    · cases List.mem_singleton.1 hs
      exact IsSealed.of_inert rfl
    · cases hs
  · exact hnull s hs
  · split at hs
    · exact hcounting s (Option.mem_toList.1 hs)
    · cases hs
  · exact hdefault s (Option.mem_toList.1 hs)
  · rw [if_pos hd] at hs
    exact hdescription s (Option.mem_toList.1 hs)

end Column

/-! ## Keys and indexes -/

namespace ForeignKey

omit hd in
theorem isSealed_actionClause {event : String} (he : IsSealed event.toList)
    (action : Option String) : IsSealed (actionClause event action).toList := by
  have hall : ∀ a ∈ actions, a.toList.all Mode.isInert = true := by decide
  unfold actionClause
  split
  · rename_i a ha
    obtain ⟨text, -, htext⟩ := Option.bind_eq_some_iff.1 ha
    have haction : IsSealed a.toList := IsSealed.of_inert (hall a (mem_actions_of_action? htext))
    exact (((IsSealed.of_inert rfl).string_append he).string_append
      (IsSealed.of_inert rfl)).string_append haction
  · exact IsSealed.nil

omit hd in
theorem isSealed_rendered {options : RenderOptions} (hd : options.dialect.isMySqlFamily = true)
    (table : String) (k : ForeignKey) : IsSealed (k.rendered options table).toList := by
  have hdeferrable : IsSealed (if options.deferrable && options.dialect.hasDeferrableKeys then
      " DEFERRABLE INITIALLY DEFERRED" else "").toList := by
    split <;> exact IsSealed.of_inert rfl
  have hname := Dialect.isSealed_quoteColumn hd (k.nameFor table)
  have hcolumns := Dialect.isSealed_quoteColumns hd k.columns
  have htarget := Dialect.isSealed_quoteTable hd k.referencedTable
  have hreferenced := Dialect.isSealed_quoteColumns hd k.referencedColumns
  have hupdate := isSealed_actionClause (IsSealed.keyword "ON UPDATE" rfl) k.onUpdate
  have hdelete := isSealed_actionClause (IsSealed.keyword "ON DELETE" rfl) k.onDelete
  have hkey := (IsSealed.keyword "CONSTRAINT " rfl).string_append hname
    |>.string_append (IsSealed.keyword " FOREIGN KEY (" rfl) |>.string_append hcolumns
  have hreference := hkey.string_append (IsSealed.keyword ") REFERENCES " rfl)
    |>.string_append htarget |>.string_append (IsSealed.keyword "(" rfl)
    |>.string_append hreferenced |>.string_append (IsSealed.keyword ")" rfl)
  exact ((hreference.string_append hupdate).string_append hdelete).string_append hdeferrable

end ForeignKey

theorem Index.isSealed_renderedInline (i : Index) : IsSealed (i.renderedInline d).toList := by
  have hunique : IsSealed i.uniqueWord.toList := by
    unfold uniqueWord
    split <;> exact IsSealed.of_inert rfl
  have hname := Dialect.isSealed_quoteColumn hd (i.name.getD "")
  have hcolumns := Dialect.isSealed_quoteColumns hd i.columns
  exact (hunique.string_append (IsSealed.keyword "INDEX " rfl)).string_append hname
    |>.string_append (IsSealed.keyword " (" rfl) |>.string_append hcolumns
    |>.string_append (IsSealed.keyword ")" rfl)

/-! ## Cells -/

namespace Column

theorem isSealed_presentCell (c : Column) (value : Json) :
    IsSealed (c.presentCell d value).toList := by
  rcases presentCell_cases d c value with ⟨-, b, h⟩ | ⟨-, h⟩ | h
  · rw [h]
    exact Dialect.isSealed_booleanLiteral b
  · exact Number.isSealed_of_decimal? h
  · rw [h]
    exact Dialect.isSealed_stringLiteral hd value.cellText

omit hd in
theorem isSealed_zeroCell (c : Column) : IsSealed (c.zeroCell d).toList := by
  unfold zeroCell
  split
  · exact Dialect.isSealed_booleanLiteral _
  split
  · exact IsSealed.of_inert rfl
  · exact IsSealed.enclosed Mode.encloses_single []

theorem isSealed_of_standIn? {c : Column} (hc : c.HasNumericDefault) {s : String}
    (h : c.standIn? d = some s) : IsSealed s.toList := by
  unfold standIn? at h
  split at h
  · rename_i text htext
    dsimp only at h
    split at h
    · split at h
      · cases h
      · cases h
        exact isSealed_presentCell hd c _
    split at h
    · cases h
    split at h
    · cases h
      exact isSealed_presentCell hd c _
    · rename_i hother
      rw [Bool.or_eq_true, Bool.or_eq_true, or_assoc] at hother
      exact absurd (hc text htext) hother
  · cases h

/-- Every cell is a literal. -/
theorem isSealed_cell {c : Column} (hc : c.HasNumericDefault) (isKey : Bool)
    (value : Option Json) : IsSealed (c.cell d isKey value).toList := by
  unfold cell
  split
  · exact isSealed_presentCell hd c _
  split
  · exact IsSealed.of_inert rfl
  · unfold missingCell
    cases h : c.standIn? d with
    | none => exact isSealed_zeroCell c
    | some s => exact isSealed_of_standIn? hd hc h

end Column

/-! ## Tables -/

namespace Table

variable {t : Table}

theorem isSealed_renderedRow (ht : ∀ c ∈ t.columns, c.HasNumericDefault) (row : Row) :
    IsSealed (t.renderedRow d row).toList := by
  have hcells : ∀ s ∈ t.cells d row, IsSealed s.toList :=
    List.forall_mem_map.2 fun c hc => Column.isSealed_cell hd (ht c hc) _ _
  exact ((IsSealed.keyword "(" rfl).string_append
    (IsSealed.string_intercalate (IsSealed.keyword ", " rfl) hcells)).string_append
      (IsSealed.keyword ")" rfl)

omit hd in
/-- Every item of the body is sealed. -/
theorem isSealed_of_mem_bodyItems {options : RenderOptions}
    (hd : options.dialect.isMySqlFamily = true) (ht : ∀ c ∈ t.columns, c.HasNumericDefault)
    {s : String} (h : s ∈ t.bodyItems options) : IsSealed s.toList := by
  rw [bodyItems, List.mem_append, List.mem_append, List.mem_append] at h
  rcases h with ((h | h) | h) | h
  · obtain ⟨c, hc, rfl⟩ := List.mem_map.1 h
    exact Column.isSealed_rendered hd (ht c hc) _
  · unfold keyItems at h
    split at h
    · cases List.mem_singleton.1 h
      exact ((IsSealed.keyword "PRIMARY KEY(" rfl).string_append
        (Dialect.isSealed_quoteColumns hd _)).string_append (IsSealed.keyword ")" rfl)
    · cases h
  · obtain ⟨k, -, rfl⟩ := List.mem_map.1 h
    exact ForeignKey.isSealed_rendered hd t.name k
  · unfold indexItems at h
    split at h
    · obtain ⟨i, -, rfl⟩ := List.mem_map.1 h
      exact Index.isSealed_renderedInline hd i
    · cases h

end Table

end Family
end SchemaScript
