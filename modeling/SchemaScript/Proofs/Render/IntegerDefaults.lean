import SchemaScript.Proofs.Number.Leading
import SchemaScript.Proofs.Render.Literals
import SchemaScript.Proofs.Text.Blanks
import SchemaScript.Render.Column

/-!
# Defaults of columns of whole numbers

The default of a column of whole numbers is written as a whole number: the one that the text of
the default leads with once its casts and quotes are gone (`Literal.bareText`). Whatever stands
behind that number is dropped, and a text that leads with none is written as zero.

The number is kept as long as it has 64 bits. Beyond them it is written as zero, too
(`Column.defaultClause?_of_isInteger`), so the largest numbers that a column without a sign can
hold are lost (`Column.defaultClause?_beyond_signed64`).
-/

namespace SchemaScript

open Number (Leads IsSigned64)

namespace Literal

/-- What is left of the text of a default without its casts and quotes. -/
def bareText (text : String) : String :=
  (unquote? (stripCasts text)).getD (stripCasts text)

variable {s text : String} {i : Int}

/-! ## The number of a text -/

/-- A text is worth the number of 64 bits that is cut off its front. A text that is such a number
as a whole is cut off whole. -/
theorem integerOf_eq (s : String) :
    integerOf s = (Number.signed64? (Number.signedDigits (Text.trim s.toList))).getD 0 := by
  rw [integerOf]
  cases hwhole : Number.signed64? (Text.trim s.toList) with
  | none => rfl
  | some n =>
    have hspells := (Number.signed64?_eq_some_iff.1 hwhole).1
    have hself := hspells.signedDigits_append Text.stops_nil
    rw [List.append_nil] at hself
    rw [hself, hwhole]
    rfl

/-- **A text is worth the number that it leads with**, unless that has more than 64 bits. -/
theorem integerOf_of_leads (h : Leads (Text.trim s.toList) i) :
    integerOf s = if IsSigned64 i then i else 0 := by
  have hspells := Number.integer?_signedDigits_eq_some_iff.2 h
  rw [integerOf_eq, Number.signed64?, hspells, Option.filter_some]
  by_cases hi : IsSigned64 i
  · have hrange : (-0x8000000000000000 ≤ i && i < 0x8000000000000000) = true := by
      simpa [IsSigned64] using hi
    rw [if_pos hi, if_pos hrange]
    rfl
  · have hrange : ¬ (-0x8000000000000000 ≤ i && i < 0x8000000000000000) = true := by
      simpa [IsSigned64] using hi
    rw [if_neg hi, if_neg hrange]
    rfl

/-- A text that leads with no number is worth zero. -/
theorem integerOf_of_not_leads (h : ∀ i, ¬ Leads (Text.trim s.toList) i) : integerOf s = 0 := by
  rw [integerOf_eq, Number.signed64?, Number.integer?_signedDigits_eq_none_iff.2 h]
  rfl

/-! ## Texts of defaults -/

/-- A text that is taken out of its quotes begins with one. -/
theorem exists_cons_of_unquote? {inner : String} (h : unquote? s = some inner) :
    ∃ rest, s.toList = '\'' :: rest := by
  unfold unquote? at h
  split at h
  · rename_i rest hs
    exact ⟨rest, hs⟩
  · cases h

/-- What is left of a text without its casts begins and ends in no blank. -/
theorem trim_stripCasts (text : String) :
    Text.trim (stripCasts text).toList = (stripCasts text).toList := by
  rw [stripCasts, String.toList_ofList, Text.trim_trim]

/-- A default that leads with a number is neither empty nor the word for null, with its quotes or
without them. -/
theorem isEmpty_and_isNullWord_of_leads (h : Leads (Text.trim (bareText text).toList) i) :
    (stripCasts text).isEmpty = false ∧ isNullWord (stripCasts text) = false := by
  obtain ⟨c, rest, hraw, hc⟩ : ∃ c rest, (stripCasts text).toList = c :: rest ∧
      c.toLower ≠ 'n' := by
    cases hquote : unquote? (stripCasts text) with
    | some inner =>
      obtain ⟨rest, hraw⟩ := exists_cons_of_unquote? hquote
      exact ⟨'\'', rest, hraw, by decide⟩
    | none =>
      have hall : ∀ c ∈ Number.spellingChars, c.toLower ≠ 'n' := by decide
      rw [bareText, hquote, Option.getD_none, trim_stripCasts] at h
      obtain ⟨c, rest, hraw, hc⟩ := h.exists_cons
      exact ⟨c, rest, hraw, hall c hc⟩
  refine ⟨?_, isNullWord_eq_false hraw hc⟩
  rw [← Bool.not_eq_true, String.isEmpty_iff, ← String.toList_inj, hraw]
  exact List.cons_ne_nil _ _

/-- A text without casts that leads with a number has no quotes to lose. -/
theorem leads_bareText (hcast : ¬ HasCast text.toList) (h : Leads (Text.trim text.toList) i) :
    Leads (Text.trim (bareText text).toList) i := by
  have hall : ∀ c ∈ Number.spellingChars, c ≠ '\'' := by decide
  have hstrip : stripCasts text = Text.trimmed text := by
    rw [stripCasts, removeCasts_eq_self_iff.2 hcast, Text.trimmed]
  have hquote : unquote? (Text.trimmed text) = none := by
    rw [Option.eq_none_iff_forall_ne_some]
    intro inner hinner
    obtain ⟨rest, hraw⟩ := exists_cons_of_unquote? hinner
    obtain ⟨c, rest', hc, hmem⟩ := h.exists_cons
    rw [Text.toList_trimmed, hc] at hraw
    exact hall c hmem (List.cons.inj hraw).1
  rwa [bareText, hstrip, hquote, Option.getD_none, Text.toList_trimmed, Text.trim_trim]

end Literal

namespace Column

open Literal

variable {c : Column} {text : String}

/-- A text that is neither empty nor the word for null is written as a literal of the column,
unless it asks SQLite for the current time. -/
theorem defaultClause?_literal (d : Dialect) (hdefault : c.default = some (.literal text))
    (hempty : (stripCasts text).isEmpty = false) (hnull : isNullWord (stripCasts text) = false) :
    c.defaultClause? d .none =
      if d = .sqlite ∧ callsNow (stripCasts text) = true then none
      else some ("DEFAULT " ++ c.defaultLiteral d (stripCasts text)) := by
  rw [defaultClause?, if_pos rfl, defaultValue?, hdefault]
  dsimp only
  rw [hempty, hnull, if_neg Bool.false_ne_true, if_neg Bool.false_ne_true]
  split <;> rfl

/-- The literal of a column of whole numbers is what the text is worth. -/
theorem defaultLiteral_of_isInteger (hinteger : c.isInteger = true)
    (hboolean : c.isBoolean = false) (d : Dialect) (text : String) :
    c.defaultLiteral d (stripCasts text) = toString (integerOf (bareText text)) := by
  rw [defaultLiteral, hboolean, hinteger]
  rfl

/-- **The default of a column of whole numbers is the number that its text leads with**, for texts
of any length, if that number has 64 bits. It is zero if the number has more of them, and if the
text leads with none. There is no default for SQLite if the text calls for the current time. -/
theorem defaultClause?_of_isInteger (d : Dialect) (hinteger : c.isInteger = true)
    (hboolean : c.isBoolean = false) (hdefault : c.default = some (.literal text)) :
    (∀ i : Int, Leads (Text.trim (bareText text).toList) i →
      c.defaultClause? d .none =
        if d = .sqlite ∧ callsNow (stripCasts text) = true then none
        else some ("DEFAULT " ++ toString (if IsSigned64 i then i else 0))) ∧
    ((∀ i : Int, ¬ Leads (Text.trim (bareText text).toList) i) →
      (stripCasts text).isEmpty = false → isNullWord (stripCasts text) = false →
        c.defaultClause? d .none =
          if d = .sqlite ∧ callsNow (stripCasts text) = true then none
          else some "DEFAULT 0") := by
  constructor
  · intro i hi
    obtain ⟨hempty, hnull⟩ := isEmpty_and_isNullWord_of_leads hi
    rw [defaultClause?_literal d hdefault hempty hnull,
      defaultLiteral_of_isInteger hinteger hboolean, integerOf_of_leads hi]
  · intro hnone hempty hnull
    rw [defaultClause?_literal d hdefault hempty hnull,
      defaultLiteral_of_isInteger hinteger hboolean, integerOf_of_not_leads hnone]
    rfl

/-- A number with a sign and zeros in front and a unit behind it, in quotes and with a cast, and a
text without a number. -/
theorem defaultClause?_of_isInteger_unit :
    let c : Column :=
      { name := "n", dataType := "INT", default := some (.literal " '-0042px'::integer ") }
    let c' : Column := { c with default := some (.literal "px") }
    (c.isInteger = true ∧ c.isBoolean = false ∧
      Leads (Text.trim (bareText " '-0042px'::integer ").toList) (-42) ∧
      c.defaultClause? .postgresql .none = some "DEFAULT -42") ∧
    (∀ i : Int, ¬ Leads (Text.trim (bareText "px").toList) i) ∧
      (stripCasts "px").isEmpty = false ∧ isNullWord (stripCasts "px") = false ∧
      c'.defaultClause? .postgresql .none = some "DEFAULT 0" := by
  intro c c'
  have hinteger : c.isInteger = true := by decide
  have hboolean : c.isBoolean = false := by decide
  have hleads : Leads (Text.trim (bareText " '-0042px'::integer ").toList) (-42) :=
    Number.integer?_signedDigits_eq_some_iff.1 (by decide +kernel)
  have hnone : ∀ i, ¬ Leads (Text.trim (bareText "px").toList) i :=
    Number.integer?_signedDigits_eq_none_iff.1 (by decide +kernel)
  have hword : (stripCasts "px").isEmpty = false ∧ isNullWord (stripCasts "px") = false := by
    decide +kernel
  have hclause := defaultClause?_of_isInteger .postgresql (c := c) hinteger hboolean rfl
  have hclause' := defaultClause?_of_isInteger .postgresql (c := c') hinteger hboolean rfl
  exact ⟨⟨hinteger, hboolean, hleads, hclause.1 (-42) hleads⟩, hnone, hword.1, hword.2,
    hclause'.2 hnone hword.1 hword.2⟩

/-- The largest number of 64 bits without a sign is not kept. -/
theorem defaultClause?_beyond_signed64 :
    let c : Column :=
      { name := "a", dataType := "BIGINT", default := some (.literal "18446744073709551615") }
    c.isInteger = true ∧ c.isBoolean = false ∧
      Leads (Text.trim "18446744073709551615".toList) 18446744073709551615 ∧
      c.defaultClause? .mysql .none = some "DEFAULT 0" ∧
      c.defaultClause? .mysql .none ≠
        some ("DEFAULT " ++ toString (18446744073709551615 : Int)) := by
  intro c
  have hinteger : c.isInteger = true := by decide
  have hboolean : c.isBoolean = false := by decide
  have hleads : Leads (Text.trim "18446744073709551615".toList) 18446744073709551615 :=
    Number.integer?_signedDigits_eq_some_iff.1 (by decide)
  have hcolon : ':' ∉ "18446744073709551615".toList := by decide
  have hbare := leads_bareText (not_hasCast_of_notMem hcolon) hleads
  obtain ⟨hempty, hnull⟩ := isEmpty_and_isNullWord_of_leads hbare
  have hzero := defaultClause?_literal (c := c) .mysql rfl hempty hnull
  rw [defaultLiteral_of_isInteger hinteger hboolean, integerOf_of_leads hbare] at hzero
  refine ⟨hinteger, hboolean, hleads, hzero, ?_⟩
  rw [hzero]
  decide

end Column
end SchemaScript
