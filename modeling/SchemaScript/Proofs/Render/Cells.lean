import SchemaScript.Proofs.Number.Spelled
import SchemaScript.Proofs.Render.Literals
import SchemaScript.Render.Insert

/-!
# Cells

A cell is null or a literal. A value that does not stand for null becomes a truth value in a column
of truth values, a number where a column of numbers is given one, and a string of its text
everywhere else (`Column.cell_cases`); numbers are texts that spell decimals, so nothing that a
value holds is rendered but in quotes. A cell is null exactly if its value stands for null and the
column can be null (`Column.sameIgnoringCase_cell_null_iff`): the default that stands in for a
missing value is one of these literals or an expression other than the word for null, and the zero
of a type is a literal.

Both rest on the first letter of literals, which is a quote, the letter `E`, a digit or a sign.
-/

namespace SchemaScript

namespace Json

/-- The text of a value: a string is its own text, anything else has that of structured data. -/
def cellText : Json → String
  | .string s => s
  | j => j.compactText

end Json

namespace Literal

/-- A text that spells a number is a decimal, blanks around it aside. -/
theorem isSome_decimal?_of_isNumeric {s : String} (h : isNumeric s = true) :
    (Number.decimal? (Text.trimmed s).toList).isSome = true := by
  have hfloat : (Number.float? (Text.trim s.toList)).isSome = true := (Bool.and_eq_true_iff.1 h).2
  rw [Number.float?] at hfloat
  rw [Text.toList_trimmed]
  cases hdecimal : Number.decimal? (Text.trim s.toList) with
  | none =>
    rw [hdecimal] at hfloat
    cases hfloat
  | some x => rfl

end Literal

namespace Dialect

theorem isNullWord_booleanLiteral (d : Dialect) (b : Bool) :
    Literal.isNullWord (d.booleanLiteral b) = false := by
  cases d <;> cases b <;> decide

/-- A string literal is not the word for null, whatever it says. -/
theorem isNullWord_stringLiteral (d : Dialect) (s : String) :
    Literal.isNullWord (d.stringLiteral s) = false := by
  have hlist := d.toList_stringLiteral s
  by_cases hd : d = postgresql
  · rw [if_pos hd] at hlist
    exact Literal.isNullWord_eq_false hlist (by decide)
  · rw [if_neg hd] at hlist
    exact Literal.isNullWord_eq_false hlist (by decide)

end Dialect

namespace Column

variable {d : Dialect} {c : Column}

/-! ## The cells of values -/

theorem textCell_eq (d : Dialect) (v : Json) : textCell d v = d.stringLiteral v.cellText := by
  cases v <;> rfl

/-- A value that can stand in a column of numbers without quotes spells a decimal. -/
theorem isSome_decimal?_of_numberCell? {v : Json} {text : String} (h : numberCell? v = some text) :
    (Number.decimal? text.toList).isSome = true := by
  cases v with
  | number n =>
    cases h
    rw [String.toList_ofList]
    exact n.isSome_decimal?_print
  | bool b =>
    cases h
    cases b <;> decide
  | string s =>
    rw [numberCell?] at h
    split at h
    · rename_i hnumeric
      cases h
      exact Literal.isSome_decimal?_of_isNumeric hnumeric
    · cases h
  | _ => cases h

/-- A value is rendered as a truth value, as a number or as a string, where the column holds truth
values, where it holds numbers, and anywhere. -/
theorem presentCell_cases (d : Dialect) (c : Column) (v : Json) :
    (c.isBoolean = true ∧ ∃ b, c.presentCell d v = d.booleanLiteral b) ∨
    ((c.isInteger || c.isFractional) = true ∧
      (Number.decimal? (c.presentCell d v).toList).isSome = true) ∨
    c.presentCell d v = d.stringLiteral v.cellText := by
  rw [presentCell]
  split
  · rename_i hboolean
    exact Or.inl ⟨hboolean, _, rfl⟩
  split
  · rename_i hnumber
    cases htext : numberCell? v with
    | none => exact Or.inr (Or.inr (textCell_eq d v))
    | some text => exact Or.inr (Or.inl ⟨hnumber, isSome_decimal?_of_numberCell? htext⟩)
  · exact Or.inr (Or.inr (textCell_eq d v))

theorem cell_of_not_isNullLike {v : Json} (isKey : Bool) (h : c.isNullLike v = false) :
    c.cell d isKey (some v) = c.presentCell d v := by
  rw [cell, Option.filter_some, if_pos (by rw [h]; rfl)]

/-- **A value cannot break out of its cell.** Unless it stands for null, the cell is a truth value,
a decimal, or the string literal of its text. -/
theorem cell_cases (d : Dialect) (isKey : Bool) (c : Column) (v : Json)
    (h : c.isNullLike v = false) :
    (c.isBoolean = true ∧ ∃ b, c.cell d isKey (some v) = d.booleanLiteral b) ∨
    ((c.isInteger || c.isFractional) = true ∧ c.cell d isKey (some v) ≠ "" ∧
      (∀ ch ∈ (c.cell d isKey (some v)).toList, ch ∈ "0123456789+-.eE".toList) ∧
      (Number.decimal? (c.cell d isKey (some v)).toList).isSome = true) ∨
    c.cell d isKey (some v) = d.stringLiteral v.cellText := by
  rw [cell_of_not_isNullLike isKey h]
  refine (presentCell_cases d c v).imp_right (Or.imp_left fun ⟨hnumber, hdecimal⟩ => ?_)
  obtain ⟨hne, hchars⟩ := Number.spelled_of_decimal? hdecimal
  refine ⟨hnumber, fun hempty => hne ?_, hchars, hdecimal⟩
  rw [hempty]
  rfl

/-- A comment in a column of whole numbers has the characters of a number. -/
theorem cell_cases_comment :
    let c : Column := { name := "n", dataType := "INT" }
    let v : Json := .string "--1"
    c.isNullLike v = false ∧
      ((c.isBoolean = true ∧ ∃ b, c.cell .mysql false (some v) = Dialect.mysql.booleanLiteral b) ∨
      ((c.isInteger || c.isFractional) = true ∧ c.cell .mysql false (some v) ≠ "" ∧
        (∀ ch ∈ (c.cell .mysql false (some v)).toList, ch ∈ "0123456789+-.eE".toList) ∧
        (Number.decimal? (c.cell .mysql false (some v)).toList).isSome = true) ∨
      c.cell .mysql false (some v) = Dialect.mysql.stringLiteral v.cellText) :=
  ⟨by decide,
    cell_cases .mysql false { name := "n", dataType := "INT" } (.string "--1") (by decide)⟩

/-! ## Null -/

/-- What stands for null in a column: no value at all, null, a blank text, and the word for null
unless the column holds text. -/
inductive StandsForNull (c : Column) : Option Json → Prop where
  | missing : StandsForNull c none
  | null : StandsForNull c (some .null)
  | blank {s : String} (h : Text.isBlankString s = true) : StandsForNull c (some (.string s))
  | word {s : String} (h : Text.sameIgnoringCase (Text.trimmed s) "null" = true)
    (hc : c.isText = false) : StandsForNull c (some (.string s))

theorem isNullLike_iff {v : Json} : c.isNullLike v = true ↔ c.StandsForNull (some v) := by
  have hempty : ∀ s : String, (Text.trimmed s).isEmpty = Text.isBlankString s := by
    intro s
    rw [Bool.eq_iff_iff, String.isEmpty_iff, ← String.toList_inj, Text.toList_trimmed]
    exact Text.trim_eq_nil_iff
  cases v with
  | null => exact ⟨fun _ => .null, fun _ => rfl⟩
  | string s =>
    have hlike : c.isNullLike (.string s) = true ↔ Text.isBlankString s = true ∨
        c.isText = false ∧ Text.sameIgnoringCase (Text.trimmed s) "null" = true := by
      simp [isNullLike, hempty, Literal.isNullWord]
    rw [hlike]
    constructor
    · rintro (hblank | ⟨hc, hword⟩)
      · exact .blank hblank
      · exact .word hword hc
    · rintro (_ | _ | hblank | ⟨hword, hc⟩)
      · exact Or.inl hblank
      · exact Or.inr ⟨hc, hword⟩
  | _ =>
    constructor
    · intro h
      cases h
    · intro h
      cases h

/-- A value that stands for null is taken for none. -/
theorem standsForNull_iff {value : Option Json} :
    c.StandsForNull value ↔ (value.filter fun v => !c.isNullLike v) = none := by
  cases value with
  | none => exact ⟨fun _ => rfl, fun _ => .missing⟩
  | some v =>
    rw [← isNullLike_iff, Option.filter_some]
    cases c.isNullLike v <;> simp

theorem isNullWord_presentCell (d : Dialect) (c : Column) (v : Json) :
    Literal.isNullWord (c.presentCell d v) = false := by
  rcases presentCell_cases d c v with ⟨-, b, h⟩ | ⟨-, h⟩ | h
  · rw [h]
    exact d.isNullWord_booleanLiteral b
  · exact Literal.isNullWord_of_decimal? h
  · rw [h]
    exact d.isNullWord_stringLiteral v.cellText

/-- A default that stands in is not the word for null. -/
theorem isNullWord_of_standIn? {text : String} (h : c.standIn? d = some text) :
    Literal.isNullWord text = false := by
  unfold standIn? at h
  split at h
  · dsimp only at h
    split at h
    · split at h
      · cases h
      · cases h
        exact isNullWord_presentCell d c _
    split at h
    · cases h
    · rename_i hraw
      simp only [Bool.or_eq_true, not_or] at hraw
      split at h
      · cases h
        exact isNullWord_presentCell d c _
      · cases h
        exact Bool.eq_false_iff.2 hraw.1.2
  · cases h

theorem isNullWord_missingCell (d : Dialect) (c : Column) :
    Literal.isNullWord (c.missingCell d) = false := by
  rw [missingCell]
  cases htext : c.standIn? d with
  | some text => exact isNullWord_of_standIn? htext
  | none =>
    rw [Option.getD_none, zeroCell]
    split
    · exact d.isNullWord_booleanLiteral false
    split <;> decide

/-- **A cell is null exactly if it may be**: the value stands for null, the column can be null, and
it is no part of the key. -/
theorem sameIgnoringCase_cell_null_iff (d : Dialect) (isKey : Bool) (c : Column)
    (value : Option Json) :
    Text.sameIgnoringCase (c.cell d isKey value) "null" = true ↔
      c.StandsForNull value ∧ c.nullable = true ∧ isKey = false := by
  have hword : ∀ s, Text.sameIgnoringCase s "null" = Literal.isNullWord s := fun _ => rfl
  rw [standsForNull_iff, hword, cell]
  cases value.filter fun v => !c.isNullLike v with
  | some v => simp [isNullWord_presentCell]
  | none =>
    dsimp only
    split
    · rename_i hnull
      have hself : Literal.isNullWord "null" = true := Text.sameIgnoringCase_self "null"
      simpa [hself] using hnull
    · rename_i hnull
      rw [isNullWord_missingCell]
      simpa using hnull

end Column
end SchemaScript
