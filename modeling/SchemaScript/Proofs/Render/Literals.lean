import SchemaScript.Proofs.Number.Shortest
import SchemaScript.Proofs.Render.Casts

/-!
# Numbers as literals

A decimal as the text of a default has no casts, no quotes and no blanks, it is not the word for
null, and it does not ask for the current time. So a number that has been rendered is worth itself
when it is read: a whole number as long as it has 64 bits (`Literal.integerOf_toString_int`), a
number with a fraction in any case (`Literal.floatText_floatText`), for it is written with as many
digits as it takes.
-/

namespace SchemaScript
namespace Literal

variable {s : String}

/-- The word for null begins with its first letter. -/
theorem isNullWord_eq_false {c : Char} {cs : List Char} (hs : s.toList = c :: cs)
    (hc : c.toLower ≠ 'n') : isNullWord s = false := by
  rw [isNullWord, Text.sameIgnoringCase, hs, beq_eq_false_iff_ne]
  exact fun hx => hc (List.cons.inj hx).1

/-- There are quotes around a text only if it begins with one. -/
theorem unquote?_eq_none {c : Char} {cs : List Char} (hs : s.toList = c :: cs) (hc : c ≠ '\'') :
    unquote? s = none := by
  unfold unquote?
  split
  · rename_i hx
    exact absurd (List.cons.inj (hs.symm.trans hx)).1 hc
  · rfl

/-! ## Decimals -/

section Decimals

variable (h : (Number.decimal? s.toList).isSome = true)
include h

theorem trim_of_decimal? : Text.trim s.toList = s.toList := by
  have hall : ∀ c ∈ Number.spellingChars, Text.isBlank c = false := by decide
  exact Text.trim_eq_self fun c hc => hall c ((Number.spelled_of_decimal? h).2 c hc)

theorem stripCasts_of_decimal? : stripCasts s = s := by
  have hcolon : ':' ∉ s.toList := fun hc =>
    absurd ((Number.spelled_of_decimal? h).2 ':' hc) (by decide)
  rw [stripCasts, removeCasts_eq_self_iff.2 (not_hasCast_of_notMem hcolon), trim_of_decimal? h]
  exact String.ofList_toList

theorem isEmpty_of_decimal? : s.isEmpty = false := by
  rw [← Bool.not_eq_true, String.isEmpty_iff, ← String.toList_inj]
  exact (Number.spelled_of_decimal? h).1

theorem exists_cons_of_decimal? : ∃ c cs, s.toList = c :: cs ∧ c ∈ Number.spellingChars := by
  obtain ⟨hne, hchars⟩ := Number.spelled_of_decimal? h
  obtain ⟨c, cs, hcs⟩ := List.exists_cons_of_ne_nil hne
  exact ⟨c, cs, hcs, hchars c (by rw [hcs]; exact List.mem_cons_self)⟩

theorem unquote?_of_decimal? : unquote? s = none := by
  have hall : ∀ c ∈ Number.spellingChars, c ≠ '\'' := by decide
  obtain ⟨c, cs, hcs, hc⟩ := exists_cons_of_decimal? h
  exact unquote?_eq_none hcs (hall c hc)

theorem isNullWord_of_decimal? : isNullWord s = false := by
  have hall : ∀ c ∈ Number.spellingChars, c.toLower ≠ 'n' := by decide
  obtain ⟨c, cs, hcs, hc⟩ := exists_cons_of_decimal? h
  exact isNullWord_eq_false hcs (hall c hc)

theorem callsNow_of_decimal? : callsNow s = false := by
  rw [callsNow, Text.containsIgnoringCase, Bool.eq_false_iff]
  intro hx
  obtain ⟨c, hc, hfold⟩ := List.mem_map.1 (Text.subset_of_occursIn hx (by decide : '(' ∈ _))
  rw [Text.eq_of_toLower_eq hfold (by decide)] at hc
  exact absurd ((Number.spelled_of_decimal? h).2 '(' hc) (by decide)

end Decimals

theorem isSome_decimal?_floatText (s : String) :
    (Number.decimal? (floatText s).toList).isSome = true := by
  unfold floatText
  split
  · rw [String.toList_ofList]
    exact Number.isSome_decimal?_plainText _
  · decide

/-! ## Values -/

/-- **A whole number of 64 bits is worth itself.** -/
theorem integerOf_toString_int {i : Int} (h : Number.IsSigned64 i) :
    integerOf (toString i) = i := by
  rw [integerOf, trim_of_decimal? (Number.isSome_decimal?_toString i),
    Number.signed64?_toString h]

/-- The value of a text has 64 bits. -/
theorem isSigned64_integerOf (s : String) : Number.IsSigned64 (integerOf s) := by
  have hzero : Number.IsSigned64 0 := by
    constructor <;> decide
  rw [integerOf]
  split
  · rename_i h
    exact Number.isSigned64_of_signed64? h
  · cases h : Number.signed64? (Number.signedDigits (Text.trim s.toList)) with
    | none => exact hzero
    | some n => exact Number.isSigned64_of_signed64? h

/-- **A number with a fraction is worth itself**, once it has been written. -/
theorem floatText_floatText (s : String) : floatText (floatText s) = floatText s := by
  have htrim := trim_of_decimal? (isSome_decimal?_floatText s)
  cases hvalue : Number.float? (Text.trim s.toList) with
  | none =>
    have hzero : floatText s = "0" := by rw [floatText, hvalue]
    rw [hzero]
    decide
  | some x =>
    have htext : floatText s = String.ofList (Number.plainText x) := by rw [floatText, hvalue]
    have hread : Number.float? (Text.trim (floatText s).toList) = some x := by
      rw [htrim, htext, String.toList_ofList]
      exact Number.float?_plainText (Number.isCanonical_of_float? hvalue)
    rw [floatText, hread, htext]

end Literal
end SchemaScript
