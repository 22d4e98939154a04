import SchemaScript.Proofs.Text.Blanks

/-!
# Balanced texts

A text is balanced if each of its parentheses has a match and each of its strings is closed, where
what stands in a string is no parenthesis. `Text.IsBalanced` says so as a grammar: a balanced text
is put together from single characters, strings and groups in parentheses.

Whether a text is balanced can be told by counting. `Text.openBehind?` counts the parentheses that
are open behind a text and remembers whether a string is, and a text is balanced exactly if the
count goes from nothing to nothing (`Text.isBalanced_iff`). With some parentheses open in front of
it, a text has to be a balanced one up to the parenthesis that closes the innermost of them
(`Text.beginsBalanced_of_openBehind?`); this is how the grammar is found again in the count.
-/

namespace SchemaScript
namespace Text

/-! ## The grammar -/

/-- A text in which all parentheses outside of strings match and all strings are closed. -/
inductive IsBalanced : List Char → Prop where
  | nil : IsBalanced []
  | other {c : Char} {cs : List Char} (hquote : c ≠ '\'') (hopen : c ≠ '(') (hclose : c ≠ ')')
    (h : IsBalanced cs) : IsBalanced (c :: cs)
  | string {s cs : List Char} (hs : '\'' ∉ s) (h : IsBalanced cs) :
    IsBalanced ('\'' :: (s ++ '\'' :: cs))
  | group {inner cs : List Char} (hinner : IsBalanced inner) (h : IsBalanced cs) :
    IsBalanced ('(' :: (inner ++ ')' :: cs))

/-! ## The count -/

/-- How many parentheses are open behind a text, and whether a string is, given the same of what
stands in front of it. There is no answer if a parenthesis closes that is not open. -/
def openBehind? : ℕ → Bool → List Char → Option (ℕ × Bool)
  | depth, inString, [] => some (depth, inString)
  | depth, true, c :: cs => openBehind? depth (c != '\'') cs
  | depth, false, c :: cs =>
    if c = '\'' then openBehind? depth true cs
    else if c = '(' then openBehind? (depth + 1) false cs
    else if c = ')' then
      match depth with
      | 0 => none
      | depth + 1 => openBehind? depth false cs
    else openBehind? depth false cs

variable {depth : ℕ} {inString : Bool} {c : Char} {a b s cs : List Char}

theorem openBehind?_cons_true (depth : ℕ) (c : Char) (cs : List Char) :
    openBehind? depth true (c :: cs) = openBehind? depth (c != '\'') cs := by
  cases depth <;> rfl

theorem openBehind?_quote (depth : ℕ) (cs : List Char) :
    openBehind? depth false ('\'' :: cs) = openBehind? depth true cs := by
  cases depth <;> rfl

theorem openBehind?_openParen (depth : ℕ) (cs : List Char) :
    openBehind? depth false ('(' :: cs) = openBehind? (depth + 1) false cs := by
  cases depth <;> rfl

theorem openBehind?_closeParen_zero (cs : List Char) : openBehind? 0 false (')' :: cs) = none :=
  rfl

theorem openBehind?_closeParen (depth : ℕ) (cs : List Char) :
    openBehind? (depth + 1) false (')' :: cs) = openBehind? depth false cs :=
  rfl

theorem openBehind?_other (hquote : c ≠ '\'') (hopen : c ≠ '(') (hclose : c ≠ ')') (depth : ℕ)
    (cs : List Char) : openBehind? depth false (c :: cs) = openBehind? depth false cs := by
  rw [openBehind?.eq_def]
  dsimp only
  rw [if_neg hquote, if_neg hopen, if_neg hclose]

/-- A string goes on up to the next quote. -/
theorem openBehind?_string (hs : '\'' ∉ s) (depth : ℕ) (cs : List Char) :
    openBehind? depth true (s ++ '\'' :: cs) = openBehind? depth false cs := by
  induction s with
  | nil => rfl
  | cons c s ih =>
    obtain ⟨hc, hs⟩ := not_or.1 (List.mem_cons.not.1 hs)
    have hne : (c != '\'') = true := bne_iff_ne.2 (Ne.symm hc)
    rw [List.cons_append, openBehind?_cons_true, hne, ih hs]

theorem openBehind?_append (depth : ℕ) (inString : Bool) (a b : List Char) :
    openBehind? depth inString (a ++ b) =
      (openBehind? depth inString a).bind fun p => openBehind? p.1 p.2 b := by
  induction a generalizing depth inString with
  | nil => rfl
  | cons c a ih =>
    rw [List.cons_append]
    cases inString with
    | true => exact ih depth _
    | false =>
      simp only [openBehind?]
      split
      · exact ih _ _
      split
      · exact ih _ _
      split
      · cases depth with
        | zero => rfl
        | succ depth => exact ih _ _
      · exact ih _ _

/-! ## Balance by counting -/

/-- Nothing is open behind a balanced text that was not in front of it. -/
theorem IsBalanced.openBehind? (h : IsBalanced cs) (depth : ℕ) :
    openBehind? depth false cs = some (depth, false) := by
  induction h generalizing depth with
  | nil => rfl
  | other hquote hopen hclose _ ih => rw [openBehind?_other hquote hopen hclose, ih]
  | string hs _ ih => rw [openBehind?_quote, openBehind?_string hs, ih]
  | group _ _ ihinner ih =>
    rw [openBehind?_openParen, openBehind?_append, ihinner, Option.bind_some,
      openBehind?_closeParen, ih]

/-- A string that is open is closed by the next quote. -/
theorem exists_string_append (h : openBehind? depth true cs = some (0, false)) :
    ∃ s rest, cs = s ++ '\'' :: rest ∧ '\'' ∉ s ∧
      openBehind? depth false rest = some (0, false) := by
  induction cs with
  | nil => cases h
  | cons c cs ih =>
    rw [openBehind?_cons_true] at h
    by_cases hc : c = '\''
    · subst hc
      exact ⟨[], cs, rfl, List.not_mem_nil, h⟩
    · rw [bne_iff_ne.2 hc] at h
      obtain ⟨s, rest, rfl, hs, hrest⟩ := ih h
      refine ⟨c :: s, rest, rfl, ?_, hrest⟩
      rw [List.mem_cons, not_or]
      exact ⟨Ne.symm hc, hs⟩

/-- The text is balanced up to its end if nothing is open in front of it, and up to the
parenthesis that closes the innermost open one otherwise. -/
def BeginsBalanced (depth : ℕ) (cs : List Char) : Prop :=
  ∃ first, IsBalanced first ∧ (depth = 0 ∧ cs = first ∨ ∃ d rest, depth = d + 1 ∧
    cs = first ++ ')' :: rest ∧ openBehind? d false rest = some (0, false))

/-- What may stand in front of a balanced text may stand in front of a balanced beginning. -/
theorem BeginsBalanced.append {front more : List Char} (h : BeginsBalanced depth more)
    (hfront : ∀ {first}, IsBalanced first → IsBalanced (front ++ first)) :
    BeginsBalanced depth (front ++ more) := by
  obtain ⟨first, hfirst, hend⟩ := h
  refine ⟨front ++ first, hfront hfirst, hend.imp (And.imp_right (congrArg (front ++ ·))) ?_⟩
  rintro ⟨d, rest, hd, rfl, hrest⟩
  exact ⟨d, rest, hd, (List.append_assoc ..).symm, hrest⟩

/-- What closes all that is open begins balanced. -/
theorem beginsBalanced_of_openBehind? (h : openBehind? depth false cs = some (0, false)) :
    BeginsBalanced depth cs := by
  induction hlength : cs.length using Nat.strongRecOn generalizing cs depth with
  | _ n ih =>
    cases cs with
    | nil =>
      obtain ⟨rfl, -⟩ := Prod.mk.inj (Option.some.inj h)
      exact ⟨[], .nil, Or.inl ⟨rfl, rfl⟩⟩
    | cons c cs =>
      rw [List.length_cons] at hlength
      by_cases hquote : c = '\''
      · subst hquote
        rw [openBehind?_quote] at h
        obtain ⟨s, rest, rfl, hs, hrest⟩ := exists_string_append h
        have hmore : BeginsBalanced depth rest := by
          refine ih _ ?_ hrest rfl
          rw [List.length_append, List.length_cons] at hlength
          omega
        have hfront : '\'' :: (s ++ '\'' :: rest) = '\'' :: (s ++ ['\'']) ++ rest := by simp
        rw [hfront]
        exact hmore.append fun hfirst => by simpa using IsBalanced.string hs hfirst
      by_cases hopen : c = '('
      · subst hopen
        rw [openBehind?_openParen] at h
        obtain ⟨inner, hinner, ⟨hzero, -⟩ | ⟨d, rest, hd, rfl, hrest⟩⟩ := ih _ (by omega) h rfl
        · cases hzero
        obtain rfl := Nat.succ.inj hd
        have hmore : BeginsBalanced depth rest := by
          refine ih _ ?_ hrest rfl
          rw [List.length_append, List.length_cons] at hlength
          omega
        have hfront : '(' :: (inner ++ ')' :: rest) = '(' :: (inner ++ [')']) ++ rest := by simp
        rw [hfront]
        exact hmore.append fun hfirst => by simpa using IsBalanced.group hinner hfirst
      by_cases hclose : c = ')'
      · subst hclose
        cases depth with
        | zero =>
          rw [openBehind?_closeParen_zero] at h
          cases h
        | succ d =>
          rw [openBehind?_closeParen] at h
          exact ⟨[], .nil, Or.inr ⟨d, cs, rfl, rfl, h⟩⟩
      · rw [openBehind?_other hquote hopen hclose] at h
        have hmore : BeginsBalanced depth cs := ih _ (by omega) h rfl
        rw [← List.singleton_append]
        exact hmore.append (.other hquote hopen hclose)

/-- **A text is balanced exactly if nothing is open behind it** that was not in front of it. -/
theorem isBalanced_iff : IsBalanced cs ↔ openBehind? 0 false cs = some (0, false) := by
  constructor
  · exact fun h => h.openBehind? 0
  · intro h
    obtain ⟨first, hfirst, ⟨-, rfl⟩ | ⟨d, rest, hd, -⟩⟩ := beginsBalanced_of_openBehind? h
    · exact hfirst
    · cases hd

instance (cs : List Char) : Decidable (IsBalanced cs) :=
  decidable_of_iff _ isBalanced_iff.symm

/-! ## Blanks -/

/-- Blanks open and close nothing. -/
theorem openBehind?_allBlank (h : allBlank a = true) (depth : ℕ) (inString : Bool) :
    openBehind? depth inString a = some (depth, inString) := by
  induction a with
  | nil => rfl
  | cons c a ih =>
    obtain ⟨hc, ha⟩ := Bool.and_eq_true_iff.1 h
    have hne : ∀ d : Char, isBlank d = false → c ≠ d := by
      rintro d hd rfl
      exact Bool.false_ne_true (hd.symm.trans hc)
    cases inString with
    | true => rw [openBehind?_cons_true, bne_iff_ne.2 (hne '\'' rfl), ih ha]
    | false => rw [openBehind?_other (hne '\'' rfl) (hne '(' rfl) (hne ')' rfl), ih ha]

/-- **Blanks around a text do not matter for its balance.** -/
theorem isBalanced_trim_iff : IsBalanced (trim cs) ↔ IsBalanced cs := by
  obtain ⟨a, b, hcs, ha, hb⟩ := exists_append_trim cs
  have hopen : openBehind? 0 false cs = openBehind? 0 false (trim cs) := by
    calc openBehind? 0 false cs
      _ = openBehind? 0 false (a ++ (trim cs ++ b)) := by rw [← hcs]
      _ = openBehind? 0 false (trim cs ++ b) := by
        rw [openBehind?_append, openBehind?_allBlank ha]
        rfl
      _ = openBehind? 0 false (trim cs) := by
        rw [openBehind?_append]
        simp only [openBehind?_allBlank hb]
        exact Option.bind_fun_some _
  rw [isBalanced_iff, isBalanced_iff, hopen]

end Text
end SchemaScript
