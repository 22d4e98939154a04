import SchemaScript.Dialect
import SchemaScript.Proofs.Number.Digits
import SchemaScript.Proofs.Script.Modes

/-!
# Sealed texts

A text is *sealed* if it leads a scanner from normal mode back to normal mode, whatever stands
behind it. Sealed texts can be put behind each other, and no semicolon in one ends a statement.

Text in quotes is sealed if the quotes in it are doubled, and it does not matter what else it
holds: semicolons, newlines, the brackets of comments or quotes of another kind. Outside of quotes
a text is sealed if its characters are inert, apart from hyphens that a character other than a
hyphen follows, as the signs of numbers are.
-/

namespace SchemaScript
namespace Script

open Mode

/-- Whether a text leads from normal mode back to it, whatever stands behind it. -/
def IsSealed (w : List Char) : Prop :=
  ∀ rest, normal.behind? (w ++ rest) = normal.behind? rest

variable {v w : List Char} {a b : String}

/-- Whether the characters are digits and periods. -/
def IsNumeral (w : List Char) : Prop :=
  ∀ c ∈ w, c.isDigit = true ∨ c = '.'

theorem isNumeral_toDigits (n : Nat) : IsNumeral (Nat.toDigits 10 n) :=
  fun _ hc => Or.inl (List.all_eq_true.1 (Number.all_isDigit_toDigits n) _ hc)

namespace IsSealed

theorem nil : IsSealed [] :=
  fun _ => rfl

theorem append (hv : IsSealed v) (hw : IsSealed w) : IsSealed (v ++ w) := by
  intro rest
  rw [List.append_assoc, hv, hw]

theorem of_inert (h : w.all isInert = true) : IsSealed w :=
  behind?_inert_append (List.all_eq_true.1 h)

theorem cons {c : Char} (hc : isInert c = true) (h : IsSealed w) : IsSealed (c :: w) := by
  intro rest
  rw [List.cons_append, behind?_inert hc, h]

/-- A hyphen in front of another character. -/
theorem hyphen (h : IsSealed w) (hhead : ∃ c ∈ w.head?, c ≠ '-') : IsSealed ('-' :: w) := by
  intro rest
  obtain ⟨c, hc, hne⟩ := hhead
  obtain ⟨w, rfl⟩ := List.head?_eq_some_iff.1 hc
  have hnext : (c :: w ++ rest).head? ≠ some '-' := fun hx => hne (Option.some.inj hx)
  rw [List.cons_append, behind?_hyphen hnext, h]

theorem enclosed {mode : Mode} {q : Char} (h : mode.Encloses q) (v : List Char) :
    IsSealed (q :: Text.double q v ++ [q]) := by
  intro rest
  rw [List.append_assoc, List.cons_append, h.open, List.singleton_append, h.double]

theorem intercalate {sep : List Char} {ws : List (List Char)} (hsep : IsSealed sep)
    (h : ∀ w ∈ ws, IsSealed w) : IsSealed (sep.intercalate ws) := by
  induction ws with
  | nil => exact nil
  | cons w ws ih =>
    have hw := h w List.mem_cons_self
    have hws := ih fun w hw => h w (List.mem_cons_of_mem _ hw)
    cases ws with
    | nil => rwa [List.intercalate_singleton]
    | cons v ws =>
      rw [List.intercalate_cons_cons]
      exact (hw.append hsep).append hws

/-! ## Strings -/

theorem keyword (word : String) (h : word.toList.all isInert = true) : IsSealed word.toList :=
  of_inert h

theorem string_append (ha : IsSealed a.toList) (hb : IsSealed b.toList) :
    IsSealed (a ++ b).toList := by
  rw [String.toList_append]
  exact ha.append hb

theorem string_intercalate {sep : String} {strings : List String} (hsep : IsSealed sep.toList)
    (h : ∀ s ∈ strings, IsSealed s.toList) : IsSealed (sep.intercalate strings).toList := by
  rw [String.toList_intercalate]
  exact intercalate hsep (List.forall_mem_map.2 h)

theorem enclose {mode : Mode} {q : Char} (h : mode.Encloses q) (s : String) :
    IsSealed (Text.enclose q s).toList := by
  rw [Text.toList_enclose]
  exact enclosed h s.toList

/-! ## Numbers -/

theorem of_isNumeral (h : IsNumeral w) : IsSealed w := by
  refine of_inert (List.all_eq_true.2 fun c hc => ?_)
  rcases h c hc with hdigit | rfl
  · exact isInert_of_isDigit hdigit
  · rfl

/-- A minus sign in front of a numeral. -/
theorem minus (hne : w ≠ []) (h : IsNumeral w) (hv : IsSealed v) : IsSealed ('-' :: (w ++ v)) := by
  obtain ⟨c, w, rfl⟩ := List.exists_cons_of_ne_nil hne
  refine hyphen ((of_isNumeral h).append hv) ⟨c, rfl, ?_⟩
  rintro rfl
  rcases h '-' List.mem_cons_self with hx | hx <;> cases hx

theorem toString_nat (n : Nat) : IsSealed (toString n).toList := by
  rw [show (toString n).toList = Nat.toDigits 10 n by simp [toString, Nat.repr]]
  exact of_isNumeral (isNumeral_toDigits n)

theorem toString_int (i : Int) : IsSealed (toString i).toList := by
  rw [Number.toList_toString_int]
  split
  · simpa using minus Nat.toDigits_ne_nil (isNumeral_toDigits i.natAbs) nil
  · exact of_isNumeral (isNumeral_toDigits i.natAbs)

end IsSealed

end Script
end SchemaScript
