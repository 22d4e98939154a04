import SchemaScript.Naming
import SchemaScript.Proofs.Text.Blanks

/-!
# Names that are the last part of themselves

`Naming.unqualified` takes a name to its last part and drops the quotes around that. On a name that
has no quotes any more it does harm where the name looks like one that is qualified or quoted. It
leaves a name alone exactly if the name has no period outside quotes, no blanks around it and no
pair of quotes around it (`Naming.unqualified_eq_self_iff`); in all other cases the result is
shorter than the name.

Which periods stand outside quotes is decided by what stands in front of them. `Naming.openQuote`
tells which quote is still to be closed behind a text, and the search for the last period finds one
exactly if it meets a period with no quote open (`Naming.behindLastPeriod?_eq_none_iff`).
-/

namespace SchemaScript
namespace Naming

/-! ## Periods outside quotes -/

/-- The closing quote that is missing behind a text, if one is. The first argument is the one that
is missing in front of it. -/
def openQuote (quote : Option Char) : List Char → Option Char
  | [] => quote
  | c :: cs =>
    match quote with
    | some q => openQuote (if c = q then none else some q) cs
    | none => openQuote (closing? c) cs

/-- Whether a period stands in a text where no quote is open. -/
def HasOuterPeriod (quote : Option Char) (cs : List Char) : Prop :=
  ∃ a b, cs = a ++ '.' :: b ∧ openQuote quote a = none

variable {quote : Option Char} {c : Char} {cs rest : List Char}

theorem not_hasOuterPeriod_nil : ¬ HasOuterPeriod quote [] := by
  rintro ⟨a, b, hab, -⟩
  simp at hab

/-- A period is the first character, with no quote open, or stands behind it. -/
theorem hasOuterPeriod_cons_iff :
    HasOuterPeriod quote (c :: cs) ↔
      (c = '.' ∧ quote = none) ∨ HasOuterPeriod (openQuote quote [c]) cs := by
  have hopen : ∀ a, openQuote quote (c :: a) = openQuote (openQuote quote [c]) a := by
    intro a
    cases quote <;> rfl
  constructor
  · rintro ⟨a, b, hab, ha⟩
    cases a with
    | nil => exact Or.inl ⟨(List.cons.inj hab).1, ha⟩
    | cons d a =>
      obtain ⟨rfl, hcs⟩ := List.cons.inj hab
      exact Or.inr ⟨a, b, hcs, by rwa [← hopen]⟩
  · rintro (⟨rfl, rfl⟩ | ⟨a, b, rfl, ha⟩)
    · exact ⟨[], cs, rfl, rfl⟩
    · exact ⟨c :: a, b, rfl, by rwa [hopen]⟩

/-- **The search for the last period finds none exactly if none stands outside quotes.** -/
theorem behindLastPeriod?_eq_none_iff :
    behindLastPeriod? quote cs = none ↔ ¬ HasOuterPeriod quote cs := by
  induction cs generalizing quote with
  | nil => exact iff_of_true rfl not_hasOuterPeriod_nil
  | cons c cs ih =>
    rw [hasOuterPeriod_cons_iff, not_or]
    cases quote with
    | some q =>
      rw [behindLastPeriod?, ih]
      simp [openQuote]
    | none =>
      have hperiod : closing? '.' = none := by decide
      rw [behindLastPeriod?]
      cases hclosing : closing? c with
      | some q =>
        have hc : c ≠ '.' := by
          rintro rfl
          rw [hperiod] at hclosing
          cases hclosing
        simp [ih, openQuote, hclosing, hc]
      | none =>
        by_cases hc : c = '.'
        · simp [hc]
        · simp [ih, openQuote, hclosing, hc]

/-- What stands behind the last period is shorter than the name. -/
theorem length_lt_of_behindLastPeriod? (h : behindLastPeriod? quote cs = some rest) :
    rest.length < cs.length := by
  induction cs generalizing quote rest with
  | nil => cases h
  | cons c cs ih =>
    rw [List.length_cons]
    unfold behindLastPeriod? at h
    split at h
    · exact Nat.lt_succ_of_lt (ih h)
    split at h
    · exact Nat.lt_succ_of_lt (ih h)
    split at h
    · obtain rfl := Option.some.inj h
      cases hlast : behindLastPeriod? none cs with
      | none => exact Nat.lt_succ_self _
      | some last => exact Nat.lt_succ_of_lt (ih hlast)
    · exact Nat.lt_succ_of_lt (ih h)

/-! ## Quotes around a name -/

/-- Whether a text stands between two characters that a name may stand between. -/
def IsEnclosed (cs : List Char) : Prop :=
  ∃ p ∈ delimiters, ∃ inner, cs = p.1 :: inner ++ [p.2]

theorem isEnclosed_cons_iff {d : Char} :
    IsEnclosed (c :: d :: rest) ↔
      (delimiters.any fun p => p.1 == c && (d :: rest).getLast? == some p.2) = true := by
  rw [List.any_eq_true]
  refine exists_congr fun p => and_congr_right fun _ => ?_
  rw [Bool.and_eq_true, beq_iff_eq, beq_iff_eq, List.getLast?_eq_some_iff]
  constructor
  · rintro ⟨inner, h⟩
    obtain ⟨rfl, hrest⟩ := List.cons.inj h
    exact ⟨rfl, inner, hrest⟩
  · rintro ⟨rfl, inner, hrest⟩
    exact ⟨inner, by rw [hrest]; rfl⟩

theorem not_isEnclosed_nil : ¬ IsEnclosed [] := by
  rintro ⟨p, -, inner, h⟩
  simp at h

theorem not_isEnclosed_singleton : ¬ IsEnclosed [c] := by
  rintro ⟨p, -, inner, h⟩
  simp at h

/-- A text that is as long as it is without the blanks around it has none. -/
theorem trim_eq_self_of_length_le (h : cs.length ≤ (Text.trim cs).length) : Text.trim cs = cs := by
  obtain ⟨blanks, hend, -⟩ := Text.exists_trimEnd_append (Text.trimStart cs)
  have hinfix : Text.trim cs <:+: cs :=
    (List.prefix_iff_exists_append_eq.2 ⟨blanks, hend.symm⟩).isInfix.trans
      (Text.trimStart_suffix cs).isInfix
  exact hinfix.eq_of_length (Nat.le_antisymm hinfix.length_le h)

/-- Unquoting brings no characters in. -/
theorem length_unquoteChars_le (cs : List Char) :
    (unquoteChars cs).length ≤ (Text.trim cs).length := by
  rw [unquoteChars]
  split
  · rename_i h
    rw [h]
  · rename_i h
    rw [h]
  · rename_i h
    rw [h]
    split
    · simp only [List.length_dropLast, List.length_cons]
      omega
    · exact Nat.le_refl _

/-- **Unquoting leaves a text alone exactly if it has no blanks and no quotes around it.** -/
theorem unquoteChars_eq_self_iff :
    unquoteChars cs = cs ↔ Text.trim cs = cs ∧ ¬ IsEnclosed cs := by
  have htrimmed : unquoteChars cs = cs → Text.trim cs = cs := by
    intro h
    have hle := length_unquoteChars_le cs
    rw [h] at hle
    exact trim_eq_self_of_length_le hle
  rw [← and_iff_right_of_imp htrimmed]
  refine and_congr_right fun htrim => ?_
  rw [unquoteChars, htrim]
  match cs with
  | [] => exact iff_of_true rfl not_isEnclosed_nil
  | [c] => exact iff_of_true rfl not_isEnclosed_singleton
  | c :: d :: rest =>
    rw [isEnclosed_cons_iff]
    dsimp only
    split
    · rename_i h
      refine iff_of_false (fun heq => ?_) (not_not_intro h)
      have hlength := congrArg List.length heq
      simp only [List.length_dropLast, List.length_cons] at hlength
      omega
    · rename_i h
      exact iff_of_true rfl h

/-! ## Simple names -/

/-- A name that no qualification, no blanks and no quotes can be taken off. -/
structure IsSimple (name : String) : Prop where
  noOuterPeriod : ¬ HasOuterPeriod none name.toList
  trimmed : Text.trim name.toList = name.toList
  notEnclosed : ¬ IsEnclosed name.toList

/-- **Only a simple name is its own last part.** -/
theorem unqualified_eq_self_iff {name : String} : unqualified name = name ↔ IsSimple name := by
  have hchars : unqualified name = name ↔
      unquoteChars ((behindLastPeriod? none name.toList).getD name.toList) = name.toList := by
    rw [unqualified, ← String.toList_inj, String.toList_ofList]
  rw [hchars]
  cases hlast : behindLastPeriod? none name.toList with
  | none =>
    rw [Option.getD_none, unquoteChars_eq_self_iff]
    exact ⟨fun ⟨htrim, hquotes⟩ => ⟨behindLastPeriod?_eq_none_iff.1 hlast, htrim, hquotes⟩,
      fun h => ⟨h.trimmed, h.notEnclosed⟩⟩
  | some rest =>
    refine iff_of_false (fun h => ?_) fun h => ?_
    · have hle : (unquoteChars rest).length ≤ rest.length :=
        Nat.le_trans (length_unquoteChars_le rest) (Text.length_trim_le rest)
      rw [show unquoteChars rest = name.toList from h] at hle
      exact Nat.not_lt.2 hle (length_lt_of_behindLastPeriod? hlast)
    · rw [behindLastPeriod?_eq_none_iff.2 h.noOuterPeriod] at hlast
      cases hlast

end Naming
end SchemaScript
