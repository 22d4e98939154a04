import SchemaScript.Proofs.Render.Cells
import SchemaScript.Proofs.Render.IntegerDefaults

/-!
# Defaults and the cells that they stand in

A column that cannot be null needs a value in every row, and where a row has none, its default
stands in. The text of the default is therefore read twice: for the clause in the definition of
the column, and for the cell.

In a column of truth values the clause and the cell are one literal. In a column of whole numbers
the clause is the number that the text leads with, but the cell is the text as a value of the
column, so the two are one number exactly if the text is a number of 64 bits as a whole, or stands
for null between its quotes (`Column.cell_agrees_with_default_iff`). A fraction is left out in the
clause and kept in the cell, and a number with more bits is zero in the clause and itself in the
cell (`Column.cell_disagrees_with_default`).
-/

namespace SchemaScript

open Number (Spells Leads IsSigned64)

namespace Literal

variable {s text : String} {i : Int}

/-- A text that stands for null leads with no number and is not true. -/
theorem worth_of_null (h : (Text.trimmed s).isEmpty = true ∨ isNullWord (Text.trimmed s) = true) :
    integerOf s = 0 ∧ isTruthy s = false := by
  have hempty : ∀ i, ¬ Leads (Text.trim s.toList) i := by
    intro i hi
    have hall : ∀ c ∈ Number.spellingChars, c.toLower ≠ 'n' := by decide
    obtain ⟨c, rest, hc, hmem⟩ := hi.exists_cons
    rw [← Text.toList_trimmed] at hc
    rcases h with h | h
    · rw [String.isEmpty_iff.1 h] at hc
      cases hc
    · rw [isNullWord_eq_false hc (hall c hmem)] at h
      cases h
  refine ⟨integerOf_of_not_leads hempty, ?_⟩
  rw [isTruthy, List.any_eq_false]
  intro w hw hsame
  have hfold : Text.foldCase (Text.trimmed s).toList ∈ [[], "null".toList] := by
    rcases h with h | h
    · rw [String.isEmpty_iff.1 h]
      decide
    · rw [isNullWord, Text.sameIgnoringCase, beq_iff_eq] at h
      rw [h]
      decide
  have hwords : ∀ w ∈ trueWords, Text.foldCase w.toList ∉ [[], "null".toList] := by decide
  rw [Text.sameIgnoringCase, beq_iff_eq] at hsame
  rw [← hsame] at hfold
  exact hwords w hw hfold

/-- A text that is a whole number of 64 bits is numeric. -/
theorem isNumeric_of_spells (h : Spells (Text.trim s.toList) i) (hi : IsSigned64 i) :
    isNumeric s = true := by
  have hall : ∀ c ∈ Number.spellingChars, isNumberChar c = true := by decide
  have hchars := Number.spelled_of_integer? (Number.integer?_eq_some_iff.2 h)
  rw [isNumeric, h.isSome_float? hi, Bool.and_true, Bool.and_eq_true]
  exact ⟨by simpa using h.ne_nil, List.all_eq_true.2 fun c hc => hall c (hchars c hc)⟩

end Literal

/-- A string literal is no whole number. -/
theorem Dialect.not_spells_stringLiteral (d : Dialect) (s : String) (i : Int) :
    ¬ Spells (d.stringLiteral s).toList i := by
  intro h
  have hall : ∀ c ∈ Number.spellingChars, c ≠ '\'' := by decide
  have hchars := Number.spelled_of_integer? (Number.integer?_eq_some_iff.2 h)
  rw [toList_stringLiteral] at hchars
  exact hall '\'' (hchars '\'' (by simp)) rfl

namespace Column

open Literal

variable {d : Dialect} {c : Column} {text x : String}

/-! ## One text, read twice -/

/-- A column that cannot be null has a default clause if its text is neither empty nor the word for
null and does not ask SQLite for the current time. -/
theorem defaultClause?_eq_some_iff (hnull : c.nullable = false)
    (hdefault : c.default = some (.literal text)) :
    c.defaultClause? d .none = some ("DEFAULT " ++ x) ↔
      ((stripCasts text).isEmpty = false ∧ isNullWord (stripCasts text) = false ∧
        ¬ (d = .sqlite ∧ callsNow (stripCasts text) = true)) ∧
      x = c.defaultLiteral d (stripCasts text) := by
  have hnone : c.nullDefault? = none := by
    rw [nullDefault?, hnull]
    rfl
  by_cases hempty : (stripCasts text).isEmpty = true
  · simp [defaultClause?, defaultValue?, hdefault, hempty]
  by_cases hword : isNullWord (stripCasts text) = true
  · simp [defaultClause?, defaultValue?, hdefault, hempty, hword, hnone]
  rw [Bool.not_eq_true] at hempty hword
  rw [defaultClause?_literal d hdefault hempty hword]
  split
  · rename_i hnow
    exact iff_of_false (Option.some_ne_none _).symm fun h => h.1.2.2 hnow
  · rename_i hnow
    rw [Option.some.injEq, String.append_right_inj, and_iff_right ⟨hempty, hword, hnow⟩, eq_comm]

/-- Where a clause is written for a truth value or a whole number, the cell of a missing value is
the text of the default as a value of the column, or the zero of the column if that text stands
for null. -/
theorem missingCell_of_defaultClause? (hkind : (c.isBoolean || c.isInteger) = true)
    (hnull : c.nullable = false) (hdefault : c.default = some (.literal text))
    (hclause : c.defaultClause? d .none = some ("DEFAULT " ++ x)) :
    c.missingCell d =
      if c.isNullLike (.string (bareText text)) = true then c.zeroCell d
      else c.presentCell d (.string (bareText text)) := by
  obtain ⟨⟨hempty, hword, hnow⟩, -⟩ := (defaultClause?_eq_some_iff hnull hdefault).1 hclause
  rw [missingCell, standIn?, hdefault]
  dsimp only
  cases hquote : unquote? (stripCasts text) with
  | some s =>
    have hbare : bareText text = s := by
      rw [bareText, hquote]
      rfl
    rw [hbare]
    dsimp only
    split <;> rfl
  | none =>
    have hbare : bareText text = stripCasts text := by
      rw [bareText, hquote]
      rfl
    have htrimmed : Text.trimmed (stripCasts text) = stripCasts text := by
      rw [← String.toList_inj, Text.toList_trimmed, trim_stripCasts]
    have hlike : c.isNullLike (.string (stripCasts text)) = false := by
      rw [isNullLike, htrimmed, hempty, hword, Bool.and_false]
      rfl
    have hnow' : (d == .sqlite && callsNow (stripCasts text)) = false := by
      simpa using hnow
    have hnumber : (c.isBoolean || c.isInteger || c.isFractional) = true := by
      rw [hkind]
      rfl
    dsimp only
    rw [hbare, hlike, hempty, hword, hnow', hnumber]
    rfl

/-! ## Truth values -/

/-- In a column of truth values the literal of the clause is the cell. -/
theorem missingCell_eq_of_isBoolean (hboolean : c.isBoolean = true) (hnull : c.nullable = false)
    (hdefault : c.default = some (.literal text))
    (hclause : c.defaultClause? d .none = some ("DEFAULT " ++ x)) :
    x = d.booleanLiteral (isTruthy (bareText text)) ∧ c.missingCell d = x := by
  have hkind : (c.isBoolean || c.isInteger) = true := by rw [hboolean, Bool.true_or]
  obtain ⟨-, hx⟩ := (defaultClause?_eq_some_iff hnull hdefault).1 hclause
  have hliteral : c.defaultLiteral d (stripCasts text) =
      d.booleanLiteral (isTruthy (bareText text)) := by
    rw [defaultLiteral, hboolean]
    rfl
  rw [missingCell_of_defaultClause? hkind hnull hdefault hclause, hx, hliteral]
  refine ⟨rfl, ?_⟩
  split
  · rename_i hlike
    have hnot : isTruthy (bareText text) = false := by
      refine (worth_of_null ?_).2
      rw [isNullLike, Bool.or_eq_true, Bool.and_eq_true] at hlike
      exact hlike.imp_right And.right
    rw [zeroCell, if_pos hboolean, hnot]
  · rw [presentCell, if_pos hboolean]
    rfl

/-! ## Whole numbers -/

/-- In a column of whole numbers the literal of the clause is what the text is worth. -/
theorem spells_defaultLiteral_iff (hboolean : c.isBoolean = false) (hinteger : c.isInteger = true)
    (d : Dialect) (i : Int) :
    Spells (c.defaultLiteral d (stripCasts text)).toList i ↔ i = integerOf (bareText text) := by
  rw [defaultLiteral_of_isInteger hinteger hboolean, ← Number.integer?_eq_some_iff,
    Number.integer?_toString, Option.some.injEq, eq_comm]

/-- A text is a whole number in a cell exactly if it spells that number and is numeric. -/
theorem spells_presentCell_iff (hboolean : c.isBoolean = false) (hinteger : c.isInteger = true)
    (d : Dialect) (s : String) (i : Int) :
    Spells (c.presentCell d (.string s)).toList i ↔
      isNumeric s = true ∧ Spells (Text.trim s.toList) i := by
  have hcell : c.presentCell d (.string s) =
      if isNumeric s = true then Text.trimmed s else d.stringLiteral s := by
    have hnumber : (c.isInteger || c.isFractional) = true := by rw [hinteger, Bool.true_or]
    rw [presentCell, hboolean, if_neg Bool.false_ne_true, if_pos hnumber, numberCell?]
    split <;> rfl
  rw [hcell]
  split
  · rename_i hnumeric
    rw [Text.toList_trimmed]
    exact (and_iff_right hnumeric).symm
  · rename_i hnumeric
    exact iff_of_false (d.not_spells_stringLiteral s i) fun h => hnumeric h.1

/-- In a column of whole numbers the clause and the cell are one number exactly if the text of the
default stands for null between its quotes, or is a number of 64 bits. -/
theorem missingCell_agrees_iff (hboolean : c.isBoolean = false) (hinteger : c.isInteger = true)
    (hnull : c.nullable = false) (hdefault : c.default = some (.literal text))
    (hclause : c.defaultClause? d .none = some ("DEFAULT " ++ x)) :
    (∃ i, Spells x.toList i ∧ Spells (c.missingCell d).toList i) ↔
      c.StandsForNull (some (.string (bareText text))) ∨
        ∃ i, Spells (Text.trim (bareText text).toList) i ∧ IsSigned64 i := by
  have hkind : (c.isBoolean || c.isInteger) = true := by rw [hinteger, Bool.or_true]
  obtain ⟨-, hx⟩ := (defaultClause?_eq_some_iff hnull hdefault).1 hclause
  rw [hx, missingCell_of_defaultClause? hkind hnull hdefault hclause, ← isNullLike_iff]
  simp only [spells_defaultLiteral_iff hboolean hinteger d, exists_eq_left]
  by_cases hlike : c.isNullLike (.string (bareText text)) = true
  · have hzero : c.zeroCell d = "0" := by
      rw [zeroCell, hboolean, hinteger]
      rfl
    have hworth : integerOf (bareText text) = 0 := by
      refine (worth_of_null ?_).1
      rw [isNullLike, Bool.or_eq_true, Bool.and_eq_true] at hlike
      exact hlike.imp_right And.right
    have hspells : Spells "0".toList 0 := Number.integer?_eq_some_iff.1 (by decide)
    rw [if_pos hlike, hzero, hworth]
    exact iff_of_true hspells (Or.inl hlike)
  · rw [if_neg hlike, spells_presentCell_iff hboolean hinteger]
    constructor
    · rintro ⟨-, hspells⟩
      exact Or.inr ⟨_, hspells, isSigned64_integerOf _⟩
    · rintro (hlike' | ⟨i, hspells, hi⟩)
      · exact absurd hlike' hlike
      · have hworth : integerOf (bareText text) = i := by
          rw [integerOf_of_leads hspells.leads, if_pos hi]
        rw [hworth]
        exact ⟨isNumeric_of_spells hspells hi, hspells⟩

/-- **The clause of a default and the cell that it stands in.** Both are one literal in a column of
truth values. In a column of whole numbers they are one number exactly if the text of the default
stands for null between its quotes, or is a whole number of 64 bits, blanks around it aside. -/
theorem cell_agrees_with_default_iff (hnull : c.nullable = false)
    (hdefault : c.default = some (.literal text))
    (hclause : c.defaultClause? d .none = some ("DEFAULT " ++ x)) {value : Option Json}
    (hvalue : c.StandsForNull value) :
    (c.isBoolean = true →
      (∃ b, x = d.booleanLiteral b) ∧ c.cell d false value = x) ∧
    (c.isBoolean = false → c.isInteger = true →
      ((∃ i, Spells x.toList i ∧ Spells (c.cell d false value).toList i) ↔
        c.StandsForNull (some (.string (bareText text))) ∨
          ∃ i, Spells (Text.trim (bareText text).toList) i ∧ IsSigned64 i)) := by
  have hcell : c.cell d false value = c.missingCell d := by
    rw [cell, standsForNull_iff.1 hvalue, hnull]
    rfl
  rw [hcell]
  constructor
  · intro hboolean
    obtain ⟨hx, hsame⟩ := missingCell_eq_of_isBoolean hboolean hnull hdefault hclause
    exact ⟨⟨_, hx⟩, hsame⟩
  · intro hboolean hinteger
    exact missingCell_agrees_iff hboolean hinteger hnull hdefault hclause

/-- A number with zeros in front of it, in quotes and with a cast, and a word for true. -/
theorem cell_agrees_with_default_padded :
    let c : Column :=
      { name := "n", dataType := "INT", nullable := false,
        default := some (.literal "'007'::integer") }
    let c' : Column := { c with dataType := "BOOLEAN", default := some (.literal "'On'") }
    (c.defaultClause? .postgresql .none = some ("DEFAULT " ++ "7") ∧
      c.StandsForNull (some (.string " ")) ∧
      ∃ i, Spells "7".toList i ∧
        Spells (c.cell .postgresql false (some (.string " "))).toList i) ∧
    c'.defaultClause? .postgresql .none = some ("DEFAULT " ++ "TRUE") ∧
      c'.StandsForNull none ∧ c'.cell .postgresql false none = "TRUE" := by
  intro c c'
  have hclause : c.defaultClause? .postgresql .none = some ("DEFAULT " ++ "7") := by
    decide +kernel
  have hclause' : c'.defaultClause? .postgresql .none = some ("DEFAULT " ++ "TRUE") := by
    decide +kernel
  have hblank : c.StandsForNull (some (.string " ")) := isNullLike_iff.1 (by decide)
  have hnone : c'.StandsForNull none := .missing
  have hseven : Spells (Text.trim (bareText "'007'::integer").toList) 7 :=
    Number.integer?_eq_some_iff.1 (by decide +kernel)
  have hagree := cell_agrees_with_default_iff rfl rfl hclause hblank
  have hagree' := cell_agrees_with_default_iff rfl rfl hclause' hnone
  refine ⟨⟨hclause, hblank, ?_⟩, hclause', hnone, (hagree'.1 (by decide)).2⟩
  exact (hagree.2 (by decide) (by decide)).2 (Or.inr ⟨7, hseven, by decide⟩)

/-- A fraction is left out in the clause and kept in the cell. A number of more than 64 bits is
zero in the clause and itself in the cell. -/
theorem cell_disagrees_with_default :
    let c : Column :=
      { name := "a", dataType := "BIGINT", nullable := false, default := some (.literal "1.5") }
    let c' : Column := { c with default := some (.literal "18446744073709551615") }
    c.isBoolean = false ∧ c.isInteger = true ∧ c.StandsForNull none ∧
      c.defaultClause? .mysql .none = some ("DEFAULT " ++ "1") ∧
      c.cell .mysql false none = "1.5" ∧
      (¬ ∃ i, Spells "1".toList i ∧ Spells (c.cell .mysql false none).toList i) ∧
      c'.defaultClause? .mysql .none = some ("DEFAULT " ++ "0") ∧
      c'.cell .mysql false none = "18446744073709551615" ∧
      ¬ ∃ i, Spells "0".toList i ∧ Spells (c'.cell .mysql false none).toList i := by
  intro c c'
  have hcell : c.cell .mysql false none = "1.5" := by decide +kernel
  have hcell' : c'.cell .mysql false none = "18446744073709551615" := by decide +kernel
  rw [hcell, hcell']
  simp only [← Number.integer?_eq_some_iff]
  refine ⟨by decide, by decide, .missing, by decide +kernel, trivial, ?_, by decide +kernel,
    trivial, ?_⟩
  · rintro ⟨i, hone, hfraction⟩
    have hne : Number.integer? "1".toList ≠ Number.integer? "1.5".toList := by decide
    exact hne (hone.trans hfraction.symm)
  · rintro ⟨i, hzero, hlarge⟩
    have hne : Number.integer? "0".toList ≠ Number.integer? "18446744073709551615".toList := by
      decide
    exact hne (hzero.trans hlarge.symm)

end Column
end SchemaScript
