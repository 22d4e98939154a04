import SchemaScript.Definition.Default
import SchemaScript.Proofs.Text.Balanced

/-!
# Parentheses around a default

The text of a default in parentheses loses those of them that enclose all of it, and keeps the
others: `((0))` becomes `0`, while `(a) + (b)` stays as it is, although it begins and ends in a
parenthesis too. Which pair encloses the whole of a text is decided by counting from the first
parenthesis on (`DefaultClause.closesAtEnd_iff`): the last one has to be its match, and this is so
exactly if what stands between the two is balanced (`DefaultClause.IsWrapped`).

What is left of a balanced text is balanced, is wrapped no more, and is what the text was before
some matching pairs of parentheses and blanks were put around it
(`DefaultClause.isCore_stripParens`).
-/

namespace SchemaScript
namespace DefaultClause

open Text

variable {depth : ℕ} {inString : Bool} {c : Char} {r cs rest : List Char}

/-! ## Wrapped texts -/

/-- Whether the first and the last character of a text are parentheses that match. -/
def IsWrapped (cs : List Char) : Prop :=
  ∃ inner, cs = '(' :: (inner ++ [')']) ∧ IsBalanced inner

/-- The text `r` in some number of matching pairs of parentheses, with blanks between them. -/
inductive Wraps (r : List Char) : List Char → Prop where
  | blanks {a b : List Char} (ha : allBlank a = true) (hb : allBlank b = true) :
    Wraps r (a ++ (r ++ b))
  | parens {a b inner : List Char} (ha : allBlank a = true) (hb : allBlank b = true)
    (hinner : IsBalanced inner) (h : Wraps r inner) :
    Wraps r (a ++ ('(' :: (inner ++ [')']) ++ b))

/-! ## The match of the first parenthesis -/

/-- A character is the closing parenthesis at the end, or stands in front of it. -/
theorem exists_cons_eq_concat_iff {p : List Char → Prop} :
    (∃ inner, c :: cs = inner ++ [')'] ∧ p inner) ↔
      c = ')' ∧ cs = [] ∧ p [] ∨ ∃ inner, cs = inner ++ [')'] ∧ p (c :: inner) := by
  constructor
  · rintro ⟨inner, h, hp⟩
    cases inner with
    | nil =>
      obtain ⟨rfl, rfl⟩ := List.cons.inj h
      exact Or.inl ⟨rfl, rfl, hp⟩
    | cons d inner =>
      obtain ⟨rfl, rfl⟩ := List.cons.inj h
      exact Or.inr ⟨inner, rfl, hp⟩
  · rintro (⟨rfl, rfl, hp⟩ | ⟨inner, rfl, hp⟩)
    · exact ⟨[], rfl, hp⟩
    · exact ⟨c :: inner, rfl, hp⟩

theorem closesAtEnd_cons_true (depth : ℕ) (c : Char) (cs : List Char) :
    closesAtEnd depth true (c :: cs) = closesAtEnd depth (c != '\'') cs := by
  rw [closesAtEnd]
  by_cases hc : c = '\''
  · rw [if_pos hc, hc]
    rfl
  · rw [if_neg hc, if_neg (by simp), if_neg (by simp), bne_iff_ne.2 hc]

theorem closesAtEnd_closeParen_one (cs : List Char) :
    closesAtEnd 1 false (')' :: cs) = cs.isEmpty :=
  rfl

theorem closesAtEnd_closeParen (depth : ℕ) (cs : List Char) :
    closesAtEnd (depth + 2) false (')' :: cs) = closesAtEnd (depth + 1) false cs := by
  rw [closesAtEnd, if_neg (by decide), if_neg (by decide), if_pos ⟨rfl, rfl⟩, if_neg (by omega)]
  rfl

theorem closesAtEnd_other (hquote : c ≠ '\'') (hopen : c ≠ '(') (hclose : c ≠ ')') (depth : ℕ)
    (cs : List Char) : closesAtEnd depth false (c :: cs) = closesAtEnd depth false cs := by
  rw [closesAtEnd, if_neg hquote, if_neg (hopen ·.1), if_neg (hclose ·.1)]

/-- **The outermost of the open parentheses closes at the end** exactly if nothing else is open in
front of the last character, which closes it. -/
theorem closesAtEnd_iff :
    closesAtEnd (depth + 1) inString cs = true ↔
      ∃ inner, cs = inner ++ [')'] ∧ openBehind? depth inString inner = some (0, false) := by
  induction cs generalizing depth inString with
  | nil => simp [closesAtEnd]
  | cons c cs ih =>
    rw [exists_cons_eq_concat_iff]
    cases inString with
    | true =>
      have hnil : openBehind? depth true [] ≠ some (0, false) := by simp [openBehind?]
      rw [closesAtEnd_cons_true, ih, or_iff_right fun h => hnil h.2.2]
      simp only [openBehind?_cons_true]
    | false =>
      by_cases hclose : c = ')'
      · subst hclose
        cases depth with
        | zero =>
          rw [closesAtEnd_closeParen_one, List.isEmpty_iff, or_iff_left, and_iff_right rfl]
          · exact (and_iff_left rfl).symm
          · rintro ⟨inner, -, h⟩
            rw [openBehind?_closeParen_zero] at h
            cases h
        | succ depth =>
          rw [closesAtEnd_closeParen, ih, or_iff_right (by simp [openBehind?])]
          simp only [openBehind?_closeParen]
      rw [or_iff_right fun h => hclose h.1]
      by_cases hquote : c = '\''
      · subst hquote
        simp only [openBehind?_quote]
        exact ih
      by_cases hopen : c = '('
      · subst hopen
        simp only [openBehind?_openParen]
        exact ih
      · rw [closesAtEnd_other hquote hopen hclose, ih]
        simp only [openBehind?_other hquote hopen hclose]

/-- A text is wrapped exactly if its last character closes the parenthesis that it begins with. -/
theorem isWrapped_cons_iff :
    IsWrapped (c :: rest) ↔
      c = '(' ∧ rest.getLast? = some ')' ∧ closesAtEnd 1 false rest = true := by
  have hlast : closesAtEnd 1 false rest = true → rest.getLast? = some ')' := by
    intro h
    obtain ⟨inner, rfl, -⟩ := closesAtEnd_iff.1 h
    exact List.getLast?_concat
  rw [and_iff_right_of_imp hlast, closesAtEnd_iff]
  constructor
  · rintro ⟨inner, h, hinner⟩
    obtain ⟨rfl, rfl⟩ := List.cons.inj h
    exact ⟨rfl, inner, rfl, isBalanced_iff.1 hinner⟩
  · rintro ⟨rfl, inner, rfl, hinner⟩
    exact ⟨inner, rfl, isBalanced_iff.2 hinner⟩

instance (cs : List Char) : Decidable (IsWrapped cs) :=
  match cs with
  | [] => isFalse fun ⟨_, h, _⟩ => List.cons_ne_nil _ _ h.symm
  | _ :: _ => decidable_of_iff _ isWrapped_cons_iff.symm

/-! ## Stripping -/

/-- The parentheses around a wrapped text are taken off, and stripping goes on. -/
theorem stripParens_of_wrapped {inner : List Char} (htrim : trim cs = '(' :: (inner ++ [')']))
    (hinner : IsBalanced inner) : stripParens cs = stripParens inner := by
  have hwrapped := isWrapped_cons_iff.1 ⟨inner, rfl, hinner⟩
  rw [stripParens]
  split
  · rename_i h
    rw [htrim] at h
    cases h
  · rename_i c rest h
    rw [htrim] at h
    obtain ⟨rfl, rfl⟩ := List.cons.inj h
    rw [if_pos hwrapped, List.dropLast_concat]

/-- A text that is not wrapped loses the blanks around it. -/
theorem stripParens_of_not_wrapped (h : ¬ IsWrapped (trim cs)) : stripParens cs = trim cs := by
  rw [stripParens]
  split
  · rename_i htrim
    exact htrim.symm
  · rename_i c rest htrim
    rw [htrim] at h ⊢
    rw [if_neg (isWrapped_cons_iff.not.1 h)]

/-- `r` is what is left of a text when the parentheses and blanks around it are taken off. -/
structure IsCore (r cs : List Char) : Prop where
  trimmed : trim r = r
  balanced : IsBalanced r
  notWrapped : ¬ IsWrapped r
  wraps : Wraps r cs

/-- A balanced text that is not wrapped is left as it is but for the blanks around it. -/
theorem isCore_trim (h : IsBalanced cs) (hwrapped : ¬ IsWrapped (trim cs)) :
    IsCore (trim cs) cs := by
  obtain ⟨a, b, hcs, ha, hb⟩ := exists_append_trim cs
  refine ⟨trim_trim cs, isBalanced_trim_iff.2 h, hwrapped, ?_⟩
  have hwraps : Wraps (trim cs) (a ++ (trim cs ++ b)) := .blanks ha hb
  rwa [← hcs] at hwraps

/-- One more pair of parentheses makes no difference to what is left. -/
theorem IsCore.of_wrapped {inner : List Char} (h : IsCore r inner)
    (htrim : trim cs = '(' :: (inner ++ [')'])) (hinner : IsBalanced inner) : IsCore r cs := by
  obtain ⟨a, b, hcs, ha, hb⟩ := exists_append_trim cs
  refine ⟨h.trimmed, h.balanced, h.notWrapped, ?_⟩
  rw [hcs, htrim]
  exact .parens ha hb hinner h.wraps

/-- **Stripping takes off the parentheses around a text and nothing else.** What is left of a
balanced text is balanced, has no blanks and no matching parentheses around it, and with some of
both around it is the text again. A text that is not wrapped loses no parenthesis. -/
theorem isCore_stripParens (h : IsBalanced cs) :
    IsCore (stripParens cs) cs ∧ (¬ IsWrapped (trim cs) → stripParens cs = trim cs) := by
  refine ⟨?_, stripParens_of_not_wrapped⟩
  induction hlength : cs.length using Nat.strongRecOn generalizing cs with
  | _ n ih =>
    by_cases hwrapped : IsWrapped (trim cs)
    · obtain ⟨inner, htrim, hinner⟩ := hwrapped
      have hlt : inner.length < n := by
        have hle := length_trim_le cs
        rw [htrim, List.length_cons, List.length_append, List.length_singleton] at hle
        omega
      rw [stripParens_of_wrapped htrim hinner]
      exact (ih _ hlt hinner rfl).of_wrapped htrim hinner
    · rw [stripParens_of_not_wrapped hwrapped]
      exact isCore_trim h hwrapped

/-- Two pairs are taken off, with the blanks between them. Of what is left, the first parenthesis
is not closed by the last one, and the one in the string does not count. -/
theorem isCore_stripParens_sum :
    IsBalanced " ( ((a) || ')''' || (b))\t) ".toList ∧
      stripParens " ( ((a) || ')''' || (b))\t) ".toList = "(a) || ')''' || (b)".toList ∧
      IsCore "(a) || ')''' || (b)".toList " ( ((a) || ')''' || (b))\t) ".toList := by
  have hcs : IsBalanced " ( ((a) || ')''' || (b))\t) ".toList := by decide
  have hr : stripParens " ( ((a) || ')''' || (b))\t) ".toList = "(a) || ')''' || (b)".toList := by
    have houter : trim " ( ((a) || ')''' || (b))\t) ".toList =
        '(' :: (" ((a) || ')''' || (b))\t".toList ++ [')']) := by decide
    have hinner : trim " ((a) || ')''' || (b))\t".toList =
        '(' :: ("(a) || ')''' || (b)".toList ++ [')']) := by decide
    rw [stripParens_of_wrapped houter (by decide), stripParens_of_wrapped hinner (by decide),
      stripParens_of_not_wrapped (by decide)]
    decide
  have hcore := (isCore_stripParens hcs).1
  rw [hr] at hcore
  exact ⟨hcs, hr, hcore⟩

end DefaultClause
end SchemaScript
