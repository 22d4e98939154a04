import SchemaScript.Proofs.Definition.Nesting
import SchemaScript.Proofs.Reader.Bounded

/-!
# The guard in front of a table definition

A statement may begin with the condition that its table does not exist: the words `IF` and
`OBJECT_ID`, something in parentheses, and the words `IS` and `NULL`, with blanks between them
(`IsGuard`). The reader takes a guard with the blanks behind it and nothing less
(`run_existenceGuard_iff`). In particular its parentheses are closed: where they are not, no token
is left to be the word `IS`.
-/

namespace SchemaScript
namespace TableDefinition

open Token Reader

variable {t : Token} {ts us rest : List Token}

/-! ## Parentheses -/

/-- **What is left behind closed parentheses is what stands behind their match.** -/
theorem splitClosed_of_closes {depth : ℕ} (h : Closes depth us) (rest : List Token) :
    splitClosed (depth + 1) (us ++ .mark .closeParen :: rest) =
      (us ++ [.mark .closeParen], rest) := by
  induction us generalizing depth with
  | nil =>
    obtain rfl := Int.natCast_eq_zero.1 (closes_nil_iff.1 h)
    rfl
  | cons t us ih =>
    rw [List.cons_append, splitClosed]
    by_cases hopen : t = .mark .openParen
    · subst hopen
      rw [if_pos (isMark_iff.2 rfl), ih (closes_openParen_iff.1 h)]
      rfl
    by_cases hclose : t = .mark .closeParen
    · subst hclose
      obtain ⟨d, rfl, hus⟩ := closes_closeParen_iff.1 h
      rw [if_neg (by decide), if_pos (isMark_iff.2 rfl), if_neg (by omega), Nat.add_sub_cancel,
        ih hus]
      rfl
    · rw [if_neg (isMark_iff.not.2 hopen), if_neg (isMark_iff.not.2 hclose),
        ih ((closes_cons_of_ne hopen hclose).1 h)]
      rfl

/-- If something is left behind parentheses, they are closed. -/
theorem exists_closes_of_splitClosed {depth : ℕ} (h : (splitClosed (depth + 1) ts).2 ≠ []) :
    ∃ us, Closes depth us ∧
      ts = us ++ .mark .closeParen :: (splitClosed (depth + 1) ts).2 := by
  induction ts generalizing depth with
  | nil => exact absurd rfl h
  | cons t ts ih =>
    rw [splitClosed] at h ⊢
    by_cases hopen : t.isMark .openParen = true
    · rw [if_pos hopen] at h ⊢
      obtain ⟨us, hus, hts⟩ := ih h
      obtain rfl := isMark_iff.1 hopen
      exact ⟨_ :: us, closes_openParen_iff.2 hus, congrArg (_ :: ·) hts⟩
    rw [if_neg hopen] at h ⊢
    by_cases hclose : t.isMark .closeParen = true
    · rw [if_pos hclose] at h ⊢
      obtain rfl := isMark_iff.1 hclose
      cases depth with
      | zero => exact ⟨[], closes_nil_iff.2 rfl, rfl⟩
      | succ depth =>
        rw [if_neg (by omega)] at h ⊢
        obtain ⟨us, hus, hts⟩ := ih h
        exact ⟨_ :: us, closes_closeParen_iff.2 ⟨depth, rfl, hus⟩, congrArg (_ :: ·) hts⟩
    · rw [if_neg hclose] at h ⊢
      obtain ⟨us, hus, hts⟩ := ih h
      exact ⟨t :: us, (closes_cons_of_ne (isMark_iff.not.1 hopen) (isMark_iff.not.1 hclose)).2 hus,
        congrArg (t :: ·) hts⟩

/-- What stands in parentheses is skipped. -/
theorem run_skipParenthesized_of_isBalanced (h : IsBalanced us) (rest : List Token) :
    skipParenthesized.run (.mark .openParen :: (us ++ .mark .closeParen :: rest)) =
      (some (), rest) := by
  rw [run_skipParenthesized, run_parenthesized_of_pos rfl, splitClosed_of_closes h]

/-- Parentheses that are skipped with tokens left behind them are closed. -/
theorem exists_isBalanced_of_run_skipParenthesized (ht : t.isMark .openParen = true)
    (h : skipParenthesized.run (t :: ts) = (some (), rest)) (hne : rest ≠ []) :
    ∃ us, IsBalanced us ∧ ts = us ++ .mark .closeParen :: rest := by
  rw [run_skipParenthesized, run_parenthesized_of_pos ht] at h
  obtain rfl : (splitClosed 1 ts).2 = rest := congrArg Prod.snd h
  exact exists_closes_of_splitClosed hne

/-! ## Words -/

/-- A token with a property, and blanks behind it. -/
inductive IsWordOf (p : Token → Bool) : List Token → Prop where
  | cons {t : Token} {bs : List Token} (h : p t = true) (hbs : AllBlank bs) : IsWordOf p (t :: bs)

variable {p : Token → Bool}

theorem IsWordOf.append (h : IsWordOf p us) {bs : List Token} (hbs : AllBlank bs) :
    IsWordOf p (us ++ bs) := by
  cases h with
  | cons h hus => exact .cons h fun t ht => (List.mem_append.1 ht).elim (hus t) (hbs t)

theorem IsWordOf.isBlank_head (h : IsWordOf p us) (hp : ∀ t, t.isBlank = true → p t = false)
    (rest : List Token) : ∀ t ∈ (us ++ rest).head?, t.isBlank = false := by
  cases h with
  | @cons t _ h _ =>
    rintro _ ⟨⟩
    by_contra hblank
    rw [hp t (by simpa using hblank)] at h
    cases h

/-- **A word is read with the blanks behind it**, and nothing else is. -/
theorem run_expect_iff :
    (expect p).run ts = (some (), rest) ↔
      ∃ us, ts = us ++ rest ∧ IsWordOf p us ∧ ∀ t ∈ rest.head?, t.isBlank = false := by
  constructor
  · intro h
    obtain ⟨t, us, rfl, ht, rfl⟩ := exists_of_run_expect h
    obtain ⟨bs, hbs, hus⟩ := exists_allBlank_append us
    exact ⟨t :: bs, congrArg (t :: ·) hus, .cons ht hbs, isBlank_head_dropWhile us⟩
  · rintro ⟨_, rfl, ⟨ht, hbs⟩, hrest⟩
    rw [List.cons_append, run_expect_of_pos ht, dropWhile_isBlank_append hbs hrest]

/-! ## The guard -/

/-- The tokens of a guard, with the blanks behind each of its parts. -/
inductive IsGuard : List Token → Prop where
  | parts {word objectId inner bs is null : List Token}
    (hword : IsWordOf (isKeyword "IF") word) (hobjectId : IsWordOf (isWord "OBJECT_ID") objectId)
    (hinner : IsBalanced inner) (hbs : AllBlank bs) (his : IsWordOf (isKeyword "IS") is)
    (hnull : IsWordOf (isKeyword "NULL") null) :
    IsGuard (word ++ (objectId ++
      (.mark .openParen :: (inner ++ .mark .closeParen :: (bs ++ (is ++ null))))))

theorem IsGuard.append (h : IsGuard us) {bs : List Token} (hbs : AllBlank bs) :
    IsGuard (us ++ bs) := by
  cases h with
  | parts hword hobjectId hinner hmid his hnull =>
    simpa using IsGuard.parts hword hobjectId hinner hmid his (hnull.append hbs)

/-- What is read as a guard is one, and no blank is left behind it. -/
theorem exists_isGuard_of_run_existenceGuard (h : existenceGuard.run ts = (some (), rest)) :
    ∃ us, ts = us ++ rest ∧ IsGuard us ∧ ∀ t ∈ rest.head?, t.isBlank = false := by
  rw [existenceGuard] at h
  obtain ⟨_, behindWord, hword, h⟩ := exists_of_run_bind h
  obtain ⟨_, behindObjectId, hobjectId, h⟩ := exists_of_run_bind h
  obtain ⟨opens, _, hsees, h⟩ := exists_of_run_bind h
  cases opens with
  | false => cases h
  | true =>
  obtain ⟨_, behind, hskip, h⟩ := exists_of_run_bind h
  obtain ⟨_, atIs, hblanks, h⟩ := exists_of_run_bind h
  obtain ⟨_, atNull, his, hnull⟩ := exists_of_run_bind h
  obtain ⟨t, us, hus, rfl, ht⟩ := exists_of_run_sees hsees
  obtain rfl : behind.dropWhile isBlank = atIs := congrArg Prod.snd hblanks
  obtain ⟨word, hword, hwordOf, -⟩ := run_expect_iff.1 hword
  obtain ⟨objectId, hobjectId, hobjectIdOf, -⟩ := run_expect_iff.1 hobjectId
  obtain ⟨is, his, hisOf, -⟩ := run_expect_iff.1 his
  obtain ⟨null, hnull, hnullOf, hend⟩ := run_expect_iff.1 hnull
  obtain ⟨bs, hbs, hbehind⟩ := exists_allBlank_append behind
  -- the word IS is left behind the parentheses, so they are closed
  have hne : behind ≠ [] := by
    rintro rfl
    cases hisOf with
    | cons => cases his
  obtain ⟨inner, hinner, hclosed⟩ := exists_isBalanced_of_run_skipParenthesized ht hskip hne
  refine ⟨_, ?_, .parts hwordOf hobjectIdOf hinner hbs hisOf hnullOf, hend⟩
  rw [hword, hobjectId, hus, isMark_iff.1 ht, hclosed, hbehind, his, hnull]
  simp

/-- A guard is read in front of everything that is no blank. -/
theorem run_existenceGuard_append (h : IsGuard us)
    (hend : ∀ t ∈ rest.head?, t.isBlank = false) :
    existenceGuard.run (us ++ rest) = (some (), rest) := by
  cases h with
  | @parts word objectId inner bs is null hword hobjectId hinner hbs his hnull =>
    have hblanks :
        skipBlanks.run (bs ++ (is ++ (null ++ rest))) = (some (), is ++ (null ++ rest)) := by
      rw [run_skipBlanks,
        dropWhile_isBlank_append hbs (his.isBlank_head isKeyword_of_isBlank _)]
    have his := run_expect_iff.2 ⟨is, rfl, his, hnull.isBlank_head isKeyword_of_isBlank rest⟩
    have hopen : ∀ more, ∀ t ∈ (Token.mark .openParen :: more).head?, t.isBlank = false := by
      rintro more _ ⟨⟩
      rfl
    simp only [List.append_assoc, List.cons_append]
    refine (run_bind_of_some (run_expect_iff.2
      ⟨word, rfl, hword, hobjectId.isBlank_head isWord_of_isBlank _⟩) _).trans ?_
    refine (run_bind_of_some (run_expect_iff.2 ⟨objectId, rfl, hobjectId, hopen _⟩) _).trans ?_
    refine (run_bind_of_some (run_seesMark _ _ _) _).trans ?_
    refine (run_bind_of_some (run_skipParenthesized_of_isBalanced hinner _) _).trans ?_
    refine (run_bind_of_some hblanks _).trans ?_
    refine (run_bind_of_some his _).trans ?_
    exact run_expect_iff.2 ⟨null, rfl, hnull, hend⟩

/-- **A guard is read with the blanks behind it**, and nothing else is. -/
theorem run_existenceGuard_iff :
    existenceGuard.run ts = (some (), rest) ↔
      ∃ us, ts = us ++ rest ∧ IsGuard us ∧ ∀ t ∈ rest.head?, t.isBlank = false := by
  constructor
  · exact exists_isGuard_of_run_existenceGuard
  · rintro ⟨us, rfl, hus, hend⟩
    exact run_existenceGuard_append hus hend

/-- **The guard is taken if it is complete, and left as it is otherwise.** -/
theorem run_skipExistenceGuard_cases (ts : List Token) :
    ∃ rest, skipExistenceGuard.run ts = (some (), rest) ∧
      ((∃ us, ts = us ++ rest ∧ IsGuard us) ∨ rest = ts ∧ ∀ us, IsGuard us → ¬ us <+: ts) := by
  cases hguard : existenceGuard.run ts with
  | mk answer rest =>
    cases answer with
    | some _ =>
      obtain ⟨us, hts, hus, -⟩ := run_existenceGuard_iff.1 hguard
      refine ⟨rest, ?_, Or.inl ⟨us, hts, hus⟩⟩
      rw [skipExistenceGuard, run_bind_of_some (run_attempt_of_some hguard)]
      rfl
    | none =>
      refine ⟨ts, ?_, Or.inr ⟨rfl, ?_⟩⟩
      · rw [skipExistenceGuard,
          run_bind_of_some (run_attempt_of_none (congrArg Prod.fst hguard))]
        rfl
      · rintro us hus ⟨more, rfl⟩
        -- the blanks behind a guard can be counted as part of it
        obtain ⟨bs, hbs, hmore⟩ := exists_allBlank_append more
        have hrun := run_existenceGuard_iff.2
          ⟨_, rfl, hus.append hbs, isBlank_head_dropWhile more⟩
        rw [List.append_assoc, ← hmore, hguard] at hrun
        cases hrun

/-- **A guard in front of a statement is passed over.** -/
theorem run_header_guard (h : IsGuard us) (hblank : t.isBlank = false)
    (hif : t.isKeyword "IF" = false) (ts : List Token) :
    header.run (us ++ t :: ts) = header.run (t :: ts) := by
  have hend : ∀ u ∈ (t :: ts).head?, u.isBlank = false := by
    rintro _ ⟨⟩
    exact hblank
  have hguard : skipExistenceGuard.run (us ++ t :: ts) = (some (), t :: ts) := by
    rw [skipExistenceGuard,
      run_bind_of_some (run_attempt_of_some (run_existenceGuard_append h hend))]
    rfl
  rw [header, run_bind_of_some hguard, run_bind_of_some (run_skipExistenceGuard hif ts)]

end TableDefinition
end SchemaScript
