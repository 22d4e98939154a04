import SchemaScript.Proofs.Text.Quoted
import SchemaScript.Proofs.Text.Removal
import SchemaScript.Render.Literal

/-!
# Removing casts

A cast is removed wherever one stands, and where none stands the text stays as it is
(`Literal.removeCasts_eq_self_iff`). The quotes of a string do not protect what is between them:
what is left of a quoted text is the quotes around what is left of the text
(`Literal.stripCasts_enclose`), for a cast has no quotes and therefore ends in front of them.
-/

namespace SchemaScript
namespace Literal

/-! ## Casts in a text -/

/-- Whether there is a cast in a text: two colons, and behind them a character that the name of a
type may begin with. -/
def HasCast (cs : List Char) : Prop :=
  ∃ a c b, cs = a ++ ':' :: ':' :: c :: b ∧ isCastStart c = true

theorem not_hasCast_of_notMem {cs : List Char} (h : ':' ∉ cs) : ¬ HasCast cs := by
  rintro ⟨a, c, b, rfl, -⟩
  exact h (by simp)

/-- What follows the name of a type in a text that begins with it, and the sizes and brackets
behind the name. -/
def behindName? : List Char → Option (List Char)
  | [] => none
  | c :: rest =>
    if isCastStart c then some (dropBrackets (dropSizes (rest.dropWhile isCastPart))) else none

/-- A cast is two colons and the name of a type. -/
theorem behindCast?_eq (cs : List Char) :
    behindCast? cs = (Text.stripStart? [':', ':'] cs).bind behindName? := by
  cases h : Text.stripStart? [':', ':'] cs with
  | none =>
    unfold behindCast?
    split
    · simp at h
    · rfl
  | some rest =>
    obtain rfl : cs = ':' :: ':' :: rest := Text.stripStart?_eq_some_iff.1 h
    cases rest <;> rfl

theorem isSome_behindCast?_iff {cs : List Char} :
    (behindCast? cs).isSome = true ↔
      ∃ c b, cs = ':' :: ':' :: c :: b ∧ isCastStart c = true := by
  constructor
  · intro h
    unfold behindCast? at h
    split at h
    · rename_i c b
      split at h
      · rename_i hc
        exact ⟨c, b, rfl, hc⟩
      · cases h
    · cases h
  · rintro ⟨c, b, rfl, hc⟩
    simp [behindCast?, hc]

theorem hasCast_iff {cs : List Char} :
    HasCast cs ↔ ∃ a b, cs = a ++ b ∧ (behindCast? b).isSome = true := by
  simp only [isSome_behindCast?_iff]
  constructor
  · rintro ⟨a, c, b, rfl, hc⟩
    exact ⟨a, _, rfl, c, b, rfl, hc⟩
  · rintro ⟨a, _, rfl, c, b, rfl, hc⟩
    exact ⟨a, c, b, rfl, hc⟩

theorem behindCast?_suffix {cs rest : List Char} (h : behindCast? cs = some rest) :
    rest <:+ cs := by
  unfold behindCast? at h
  split at h
  · split at h
    · cases h
      exact (dropBrackets_suffix _).trans <| (dropSizes_suffix _).trans <|
        (List.dropWhile_suffix _).trans <| (List.suffix_cons _ _).trans <|
          (List.suffix_cons _ _).trans (List.suffix_cons _ _)
    · cases h
  · cases h

/-- Casts are found and removed one after the other. -/
theorem removes_casts : Text.Removes behindCast? removeCasts where
  suffix := behindCast?_suffix
  shorter := length_behindCast?_lt
  nil := by rw [removeCasts]
  found := by
    intro c cs rest h
    rw [removeCasts]
    split
    · rename_i hx
      rw [h] at hx
      cases hx
      rfl
    · rename_i hx
      rw [h] at hx
      cases hx
  kept := by
    intro c cs h
    rw [removeCasts]
    split
    · rename_i hx
      rw [h] at hx
      cases hx
    · rfl

/-- **A text stays as it is exactly if there is no cast in it.** -/
theorem removeCasts_eq_self_iff {cs : List Char} : removeCasts cs = cs ↔ ¬ HasCast cs := by
  rw [hasCast_iff]
  exact removes_casts.eq_self_iff

/-- A text without the casts in it. -/
def withoutCasts (s : String) : String :=
  String.ofList (removeCasts s.toList)

theorem withoutCasts_eq_self_iff {s : String} : withoutCasts s = s ↔ ¬ HasCast s.toList := by
  rw [← removeCasts_eq_self_iff, withoutCasts, ← String.toList_inj, String.toList_ofList]

/-! ## Casts between quotes -/

theorem dropSizes_cons_of_ne {c : Char} (h : c ≠ '(') (cs : List Char) :
    dropSizes (c :: cs) = c :: cs := by
  unfold dropSizes
  split
  · rename_i hx
    exact absurd (List.cons.inj hx).1 h
  · rfl

/-- Sizes end in the parenthesis behind their digits, or they are none. -/
theorem dropSizes_openParen (inside : List Char) :
    dropSizes ('(' :: inside) =
      (Text.stripStart? [')'] (inside.dropWhile fun c => c.isDigit || c == ',' || c == ' ')).getD
        ('(' :: inside) := by
  simp only [dropSizes]
  split
  · rename_i behind h
    rw [h, Text.stripStart?_cons_self, Text.stripStart?_nil, Option.getD_some]
  · rename_i hno
    cases h : Text.stripStart? [')']
        (inside.dropWhile fun c => c.isDigit || c == ',' || c == ' ') with
    | none => rfl
    | some behind => exact absurd (Text.stripStart?_eq_some_iff.1 h) (hno behind)

theorem dropSizes_append_quote (a b : List Char) :
    dropSizes (a ++ '\'' :: b) = dropSizes a ++ '\'' :: b := by
  cases a with
  | nil => rfl
  | cons c a =>
    by_cases hparen : c = '('
    · subst hparen
      rw [List.cons_append, dropSizes_openParen, dropSizes_openParen,
        Text.dropWhile_append_cons (by decide), Text.stripStart?_append_cons (by decide),
        ← List.cons_append, Option.getD_map]
    · rw [List.cons_append, dropSizes_cons_of_ne hparen, dropSizes_cons_of_ne hparen,
        List.cons_append]

theorem dropBrackets_append_quote (a b : List Char) :
    dropBrackets (a ++ '\'' :: b) = dropBrackets a ++ '\'' :: b := by
  rw [dropBrackets, dropBrackets, Text.stripStart?_append_cons (by decide)]
  cases Text.stripStart? ['[', ']'] a <;> rfl

/-- No cast reaches across a quote. -/
theorem behindCast?_append_quote (a b : List Char) :
    behindCast? (a ++ '\'' :: b) = (behindCast? a).map (· ++ '\'' :: b) := by
  rw [behindCast?_eq, behindCast?_eq, Text.stripStart?_append_cons (by decide)]
  cases Text.stripStart? [':', ':'] a with
  | none => rfl
  | some rest =>
    rw [Option.map_some, Option.bind_some, Option.bind_some]
    cases rest with
    | nil => rfl
    | cons c rest =>
      rw [List.cons_append, behindName?, behindName?, Text.dropWhile_append_cons (by decide),
        dropSizes_append_quote, dropBrackets_append_quote]
      cases isCastStart c <;> rfl

/-- **Removing casts from a quoted text removes them between the quotes.** -/
theorem stripCasts_enclose (s : String) :
    stripCasts (Text.enclose '\'' s) = Text.enclose '\'' (withoutCasts s) := by
  have hclosed := removes_casts.append_cons behindCast?_append_quote
    (Text.double '\'' s.toList) []
  have hremoved : removeCasts (Text.enclose '\'' s).toList =
      (Text.enclose '\'' (withoutCasts s)).toList := by
    rw [Text.toList_enclose, Text.toList_enclose, withoutCasts, String.toList_ofList,
      List.cons_append, removes_casts.kept (behindCast?_append_quote [] _), hclosed,
      removes_casts.double behindCast?_append_quote, removes_casts.nil, List.cons_append]
  rw [stripCasts, hremoved, Text.trim_enclose, String.ofList_toList]

end Literal
end SchemaScript
