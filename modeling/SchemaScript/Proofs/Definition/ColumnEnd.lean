import SchemaScript.Definition.Column
import SchemaScript.Proofs.Reader.Trailing

/-!
# Column definitions ignore the blanks behind them

Every reader that takes part in reading a column definition ignores the blanks at the end of
the tokens, from the value of a default up to the definition itself
(`ColumnDefinition.ofTokens?_eq_of_sameButEnd`). The proofs follow the definitions. Only two
readers look further than the combinators allow: the lists of literals and of other arguments
of a type ask whether any token is left, and for these a round is written out first.
-/

namespace SchemaScript

open Reader

/-! ## Defaults -/

namespace DefaultClause

theorem ignoresEnd_callArguments : IgnoresEnd callArguments := by
  refine ignoresEnd_skipBlanks.bind fun _ => (ignoresEnd_seesMark _).bind fun opens => ?_
  cases opens with
  | false => exact ignoresEnd_fail
  | true => exact ignoresEnd_parenthesized

theorem ignoresEnd_wordValue (w : String) : IgnoresEnd (wordValue w) := by
  refine ignoresEnd_callArguments.attempt.bind fun group => ?_
  cases group with
  | none => exact ignoresEnd_pure _
  | some group =>
    dsimp only
    split
    · exact ignoresEnd_pure _
    · exact ignoresEnd_pure _

theorem ignoresEnd_valueOf (t : Token) : IgnoresEnd (valueOf t) := by
  unfold valueOf
  split
  · exact ignoresEnd_parenthesized.bind fun _ => ignoresEnd_pure _
  · exact ignoresEnd_advancePastBlanks.bind fun _ =>
      ignoresEnd_number.bind fun _ => ignoresEnd_pure _
  · exact ignoresEnd_advancePastBlanks.bind fun _ => ignoresEnd_number
  · exact ignoresEnd_advance.bind fun _ => ignoresEnd_pure _
  · exact ignoresEnd_advance.bind fun _ => ignoresEnd_pure _
  · exact ignoresEnd_advance.bind fun _ => ignoresEnd_pure _
  · exact ignoresEnd_advance.bind fun _ => ignoresEnd_pure _
  · exact ignoresEnd_advance.bind fun _ => ignoresEnd_wordValue _
  · exact ignoresEnd_advance.bind fun _ => ignoresEnd_fail

theorem ignoresEnd_castWord : IgnoresEnd castWord := by
  refine ignoresEnd_skipBlanks.bind fun _ => ignoresEnd_token fun t ht => ?_
  have hnone : castWords.any t.isWord = false :=
    List.any_eq_false.2 fun w _ => by simp [isWord_of_isBlank t ht]
  rw [hnone]
  rfl

theorem ignoresEnd_castWordRound (text : String) : IgnoresEnd (castWordRound text) := by
  refine ignoresEnd_castWord.attempt.bind fun w => ?_
  cases w with
  | none => exact ignoresEnd_pure _
  | some w => exact ignoresEnd_pure _

theorem takes_castWordRound (text : String) : Takes GoesOn (castWordRound text) :=
  takes_attempt (takes_bind _ fun _ => takes_token _) takes_stop

theorem ignoresEnd_castRound (text : String) : IgnoresEnd (castRound text) := by
  refine (ignoresEnd_skipBlanks.bind fun _ => ignoresEnd_mark _).attempt.bind fun mark => ?_
  cases mark with
  | none => exact ignoresEnd_pure _
  | some _ =>
    refine ignoresEnd_name.possibly.bind fun type => ?_
    cases type with
    | none => exact ignoresEnd_pure _
    | some type =>
      exact (ignoresEnd_loop ignoresEnd_castWordRound takes_castWordRound _).bind fun _ =>
        ignoresEnd_pure _

theorem takes_castRound (text : String) : Takes GoesOn (castRound text) :=
  takes_attempt (takes_bind _ fun _ => takes_expect _) takes_stop

/-- A default looks at the next token before it takes it. -/
theorem ignoresEndFrom_text : IgnoresEndFrom text := by
  refine ignoresEndFrom_peek fun t => (IgnoresEnd.bind ?_ fun t => ?_).fromHere
  · exact ignoresEnd_ofOption t
  · exact (ignoresEnd_valueOf t).bind fun v =>
      ignoresEnd_loop ignoresEnd_castRound takes_castRound v

theorem ignoresEndFrom_reader : IgnoresEndFrom DefaultClause.reader := by
  refine ignoresEndFrom_text.possibly.bind fun t => ?_
  cases t with
  | none => exact ignoresEnd_pure _
  | some t => exact ignoresEnd_pure _

end DefaultClause

/-! ## References -/

namespace Reference

theorem ignoresEnd_wordText : IgnoresEnd (token Token.wordText?) :=
  ignoresEnd_token fun _ h => wordText?_of_isBlank h

theorem ignoresEnd_action : IgnoresEnd action := by
  refine ignoresEnd_wordText.bind fun first => ?_
  dsimp only
  split
  · refine ignoresEnd_skipBlanks.bind fun _ => ignoresEnd_wordText.possibly.bind fun second => ?_
    cases second with
    | none => exact ignoresEnd_pure _
    | some second => exact ignoresEnd_pure _
  · exact ignoresEnd_pure _

theorem ignoresEnd_event (r : Reference) : IgnoresEnd (event r) := by
  refine ignoresEnd_advancePastBlanks.bind fun _ =>
    (ignoresEnd_keyword _).possibly.bind fun delete => ?_
  cases delete with
  | some _ => exact ignoresEnd_action.possibly.bind fun _ => ignoresEnd_pure _
  | none =>
    exact (ignoresEnd_keyword _).bind fun _ =>
      ignoresEnd_action.possibly.bind fun _ => ignoresEnd_pure _

theorem ignoresEnd_seesNotDeferrable : IgnoresEnd seesNotDeferrable := by
  refine (ignoresEnd_seesKeyword _).bind fun not => ?_
  cases not with
  | false => exact ignoresEnd_pure _
  | true =>
    refine ignoresEnd_peekSecond.bind fun second => ?_
    split
    · exact ignoresEnd_pure _
    · exact ignoresEnd_pure _

theorem ignoresEnd_optionRound (r : Reference) : IgnoresEnd (optionRound r) := by
  refine ignoresEnd_skipBlanks.bind fun _ => (ignoresEnd_seesKeyword _).bind fun on => ?_
  cases on with
  | true =>
    refine (ignoresEnd_event r).attempt.bind fun r' => ?_
    cases r' with
    | none => exact ignoresEnd_pure _
    | some r' => exact ignoresEnd_pure _
  | false =>
  refine (ignoresEnd_seesWord _).bind fun matching => ?_
  cases matching with
  | true =>
    exact ignoresEnd_advancePastBlanks.bind fun _ => ignoresEnd_advance.bind fun _ =>
      ignoresEnd_pure _
  | false =>
  refine (ignoresEnd_seesAnyWord _).bind fun deferral => ?_
  cases deferral with
  | true =>
    refine ignoresEnd_advancePastBlanks.bind fun _ => (ignoresEnd_seesAnyWord _).bind fun time => ?_
    cases time with
    | true => exact ignoresEnd_advance.bind fun _ => ignoresEnd_pure _
    | false => exact ignoresEnd_pure _
  | false =>
  refine ignoresEnd_seesNotDeferrable.bind fun not => ?_
  cases not with
  | true =>
    exact ignoresEnd_advancePastBlanks.bind fun _ => ignoresEnd_advance.bind fun _ =>
      ignoresEnd_pure _
  | false => exact ignoresEnd_pure _

/-- Asking for `NOT DEFERRABLE` takes nothing. -/
theorem rest_seesNotDeferrable (ts : List Token) : (seesNotDeferrable.run ts).2 = ts := by
  cases ts with
  | nil => rfl
  | cons t ts =>
    by_cases ht : t.isKeyword "NOT" = true
    · simp only [seesNotDeferrable, run_bind, seesKeyword, run_sees, List.head?_cons,
        Option.any_some, ht, if_true, peekSecond]
      split <;> rfl
    · have hf : t.isKeyword "NOT" = false := by simpa using ht
      simp [seesNotDeferrable, run_bind, seesKeyword, hf]

/-- Every option of a reference takes the word it begins with. -/
theorem takes_optionRound (r : Reference) : Takes GoesOn (optionRound r) := by
  refine takes_bind _ fun _ => takes_sees_bind (fun t ts b hb hgo => ?_) <|
    takes_sees_bind (fun t ts b _ _ => length_advancePastBlanks_bind_lt _ t ts) <|
    takes_sees_bind (fun t ts b _ _ => length_advancePastBlanks_bind_lt _ t ts) ?_
  · have hevent : ((event r).run (t :: ts)).2.length < (t :: ts).length :=
      length_advancePastBlanks_bind_lt _ t ts
    dsimp only at hb ⊢
    rw [if_pos rfl, run_bind, run_attempt] at hb ⊢
    generalize (event r).run (t :: ts) = rr at *
    obtain ⟨a, rest⟩ := rr
    cases a with
    | none =>
      cases hb
      cases hgo
    | some r' => exact hevent
  · rw [if_neg Bool.false_ne_true]
    intro ts b hb hgo
    have hrest := rest_seesNotDeferrable ts
    cases hn : (seesNotDeferrable.run ts).1 with
    | none =>
      rw [run_bind_of_none (Prod.ext hn rfl)] at hb
      cases hb
    | some not =>
      rw [run_bind_of_some (Prod.ext hn hrest)] at hb ⊢
      cases not with
      | false =>
        cases hb
        cases hgo
      | true =>
        cases ts with
        | nil => cases hn
        | cons t ts => exact length_advancePastBlanks_bind_lt _ t ts

theorem ignoresEnd_reader : IgnoresEnd Reference.reader := by
  refine ignoresEnd_skipBlanks.bind fun _ => ignoresEnd_qualifiedName.bind fun table =>
    ignoresEnd_skipBlanks.bind fun _ => (ignoresEnd_seesMark _).bind fun opens => ?_
  have hoptions : ∀ r, IgnoresEnd (loop optionRound r) :=
    ignoresEnd_loop ignoresEnd_optionRound takes_optionRound
  cases opens with
  | true => exact ignoresEnd_nameList.bind fun _ => hoptions _
  | false => exact (ignoresEnd_answer []).bind fun _ => hoptions _

end Reference

/-! ## Types and their arguments -/

namespace ColumnDefinition

theorem ignoresEnd_typeWord : IgnoresEnd typeWord := by
  refine ignoresEnd_token fun t h => ?_
  cases t with
  | blank kind => rfl
  | _ => cases h

theorem ignoresEnd_timeZone : IgnoresEnd timeZone := by
  refine IgnoresEnd.bind (ignoresEnd_token fun t h => ?_) fun zoned =>
    ignoresEnd_skipBlanks.bind fun _ => (ignoresEnd_word _).bind fun _ =>
      (ignoresEnd_word _).bind fun _ => ignoresEnd_pure _
  rw [isKeyword_of_isBlank t h, isWord_of_isBlank t h]
  rfl

/-- A further word of a type, which is taken if it is there. -/
theorem ignoresEnd_expectedWord (w n : String) :
    IgnoresEnd (do
      let .true ← seesWord w | fail
      advance
      return n) := by
  refine (ignoresEnd_seesWord w).bind fun seen => ?_
  cases seen with
  | false => exact ignoresEnd_fail
  | true => exact ignoresEnd_advance.bind fun _ => ignoresEnd_pure n

theorem ignoresEnd_longTypeName (first : String) : IgnoresEnd (longTypeName first) := by
  refine ignoresEnd_skipBlanks.bind fun _ => ?_
  split
  · exact ignoresEnd_expectedWord _ _
  split
  · exact ignoresEnd_expectedWord _ _
  split
  · have hzone : IgnoresEnd (timeZone >>= fun zoned =>
        (if (first == "TIME") = true then pure "TIME"
        else pure (if zoned = true then "TIMESTAMPTZ" else "TIMESTAMP") : Reader String)) := by
      refine ignoresEnd_timeZone.bind fun zoned => ?_
      split
      · exact ignoresEnd_pure _
      · exact ignoresEnd_pure _
    refine (ignoresEnd_seesMark _).bind fun opens => ?_
    cases opens with
    | true =>
      exact ignoresEnd_skipParenthesized.bind fun _ => ignoresEnd_skipBlanks.bind fun _ => hzone
    | false => exact hzone
  · exact ignoresEnd_fail

theorem ignoresEnd_dataTypeName : IgnoresEnd dataTypeName := by
  refine ignoresEnd_typeWord.bind fun first =>
    (ignoresEnd_longTypeName first).attempt.bind fun n => ?_
  cases n with
  | none => exact ignoresEnd_pure _
  | some n => exact ignoresEnd_pure _

theorem ignoresEnd_size : IgnoresEnd size := by
  refine ignoresEnd_token fun t h => ?_
  cases t with
  | blank kind => rfl
  | _ => cases h

theorem ignoresEnd_sizes : IgnoresEnd sizes := by
  refine (ignoresEnd_seesWord _).bind fun max => ?_
  cases max with
  | true => exact ignoresEnd_advancePastBlanks.bind fun _ => ignoresEnd_pure _
  | false =>
    refine ignoresEnd_size.possibly.bind fun length => ignoresEnd_skipBlanks.bind fun _ =>
      (ignoresEnd_mark _).possibly.bind fun comma => ?_
    cases comma with
    | none => exact ignoresEnd_pure _
    | some _ =>
      exact ignoresEnd_size.possibly.bind fun _ => ignoresEnd_skipBlanks.bind fun _ =>
        ignoresEnd_pure _

/-- One round of a list of literals, written out. -/
theorem run_valueRound (values : List String) (ts : List Token) :
    (valueRound values).run ts =
      match ts.dropWhile Token.isBlank with
      | [] => (none, [])
      | t :: rest =>
        match t.stringValue? with
        | some v => (some (.inl (values ++ [v])), rest)
        | none =>
          if t.isMark .closeParen then (some (.inr values), rest.dropWhile Token.isBlank)
          else (some (.inl values), rest) := by
  simp only [valueRound, run_bind, run_skipBlanks, run_possibly, stringLiteral, token]
  cases ts.dropWhile Token.isBlank with
  | nil => rfl
  | cons t rest =>
    cases hv : t.stringValue? with
    | some v => simp [hv]
    | none =>
      by_cases hclose : t.isMark .closeParen = true
      · simp [hv, mark, expect, hclose, run_bind]
      · simp [hv, mark, expect, hclose, run_bind, atEnd]

theorem ignoresEnd_valueRound (values : List String) : IgnoresEnd (valueRound values) := by
  intro x y h
  rw [run_valueRound, run_valueRound]
  rcases h.dropWhile with ⟨hx, hy⟩ | ⟨t, x', y', hx, hy, -, -, hxy⟩
  · rw [hx, hy]
    exact ⟨rfl, sameButEnd_of_allBlank (by simp [Token.AllBlank]) (by simp [Token.AllBlank])⟩
  · rw [hx, hy]
    dsimp only
    cases t.stringValue? with
    | some v => exact ⟨rfl, hxy⟩
    | none =>
      dsimp only
      split
      · exact ⟨rfl, (ignoresEnd_skipBlanks x' y' hxy).2⟩
      · exact ⟨rfl, hxy⟩

theorem takes_valueRound (values : List String) : Takes GoesOn (valueRound values) := by
  intro ts b hb hgo
  rw [run_valueRound] at hb ⊢
  have hle := length_dropWhile_le ts
  cases hts : ts.dropWhile Token.isBlank with
  | nil =>
    rw [hts] at hb
    cases hb
  | cons t rest =>
    rw [hts] at hb hle
    rw [List.length_cons] at hle
    dsimp only at hb ⊢
    have hlt : rest.length < ts.length := by omega
    cases t.stringValue? with
    | some v => exact hlt
    | none =>
      dsimp only
      split
      · exact Nat.lt_of_le_of_lt (length_dropWhile_le rest) hlt
      · exact hlt

/-- The arguments behind the sizes are passed over up to the closing parenthesis. -/
theorem run_argumentRest (ts : List Token) :
    (loop argumentRestRound ()).run ts =
      match ts.dropWhile fun t => !t.isMark .closeParen with
      | [] => (none, [])
      | _ :: rest => (some (), rest.dropWhile Token.isBlank) := by
  have hround : ∀ t rest, (argumentRestRound ()).run (t :: rest) =
      if t.isMark .closeParen then (some (.inr ()), rest.dropWhile Token.isBlank)
      else (some (.inl ()), rest) := by
    intro t rest
    by_cases ht : t.isMark .closeParen = true
    · simp [argumentRestRound, run_bind, mark, expect, ht]
    · simp [argumentRestRound, run_bind, mark, expect, ht, atEnd]
  induction ts with
  | nil =>
    rw [run_loop]
    rfl
  | cons t ts ih =>
    rw [run_loop, hround]
    by_cases ht : t.isMark .closeParen = true
    · simp [ht]
    · simp [ht, ih]

theorem ignoresEnd_argumentRest : IgnoresEnd (loop argumentRestRound ()) := by
  intro x y h
  obtain ⟨core, a, b, depth, rfl, rfl, ha, hb, hd⟩ := h
  rw [run_argumentRest, run_argumentRest]
  have hnone : ∀ ts, Token.AllBlank ts → ts.dropWhile (fun t => !t.isMark .closeParen) = [] := by
    intro ts hts
    rw [List.dropWhile_eq_nil_iff]
    intro t ht
    rw [Token.isMark_eq_false_of_isBlank (hts t ht)]
    rfl
  induction core generalizing depth with
  | nil =>
    rw [List.nil_append, List.nil_append, hnone a ha, hnone b hb]
    exact ⟨rfl, sameButEnd_of_allBlank (by simp [Token.AllBlank]) (by simp [Token.AllBlank])⟩
  | cons t core ih =>
    obtain ⟨depth', hd'⟩ := depthAfter_tail hd
    rw [List.cons_append, List.cons_append, List.dropWhile_cons, List.dropWhile_cons]
    by_cases ht : t.isMark .closeParen = true
    · simp only [ht, Bool.not_true, Bool.false_eq_true, if_false]
      exact ⟨trivial, (ignoresEnd_skipBlanks _ _
        ⟨core, a, b, depth', rfl, rfl, ha, hb, hd'⟩).2⟩
    · simp only [ht, Bool.not_false, if_true]
      exact ih depth' hd'

theorem ignoresEnd_arguments (d : ColumnDefinition) : IgnoresEnd (arguments d) := by
  refine (ignoresEnd_mark _).bind fun _ => ?_
  split
  · exact (ignoresEnd_loop ignoresEnd_valueRound takes_valueRound []).bind fun _ =>
      ignoresEnd_pure _
  · exact ignoresEnd_sizes.bind fun _ => ignoresEnd_argumentRest.bind fun _ => ignoresEnd_pure _

/-! ## Modifiers -/

theorem ignoresEnd_sortOrder : IgnoresEnd sortOrder := by
  refine ignoresEnd_skipBlanks.bind fun _ => (ignoresEnd_seesAnyWord _).bind fun order => ?_
  cases order with
  | false => exact ignoresEnd_fail
  | true => exact ignoresEnd_advance

theorem ignoresEnd_notClause (d : Draft) : IgnoresEnd (notClause d) := by
  refine ignoresEnd_advancePastBlanks.bind fun _ => (ignoresEnd_seesKeyword _).bind fun null => ?_
  cases null with
  | true => exact ignoresEnd_advance.bind fun _ => ignoresEnd_pure _
  | false => exact ignoresEnd_pure _

theorem ignoresEnd_primaryClause (d : Draft) : IgnoresEnd (primaryClause d) := by
  refine ignoresEnd_advancePastBlanks.bind fun _ => (ignoresEnd_seesKeyword _).bind fun key => ?_
  cases key with
  | true =>
    exact ignoresEnd_advance.bind fun _ => ignoresEnd_sortOrder.attempt.bind fun _ =>
      ignoresEnd_pure _
  | false => exact ignoresEnd_pure _

theorem ignoresEnd_uniqueClause (d : Draft) : IgnoresEnd (uniqueClause d) := by
  refine ignoresEnd_advancePastBlanks.bind fun _ => (ignoresEnd_seesKeyword _).bind fun key => ?_
  cases key with
  | true => exact ignoresEnd_advance.bind fun _ => ignoresEnd_pure _
  | false => exact ignoresEnd_pure _

theorem ignoresEnd_defaultClause (d : Draft) : IgnoresEnd (defaultClause d) :=
  ignoresEnd_advancePastBlanks_bind
    (DefaultClause.ignoresEndFrom_reader.bind fun _ => ignoresEnd_pure _)

theorem ignoresEnd_generationTime : IgnoresEnd generationTime := by
  refine (ignoresEnd_word _).possibly.bind fun always => ?_
  cases always with
  | some _ => exact ignoresEnd_pure _
  | none =>
    refine (ignoresEnd_word _).possibly.bind fun byDefault => ?_
    cases byDefault with
    | some _ => exact (ignoresEnd_keyword _).possibly.bind fun _ => ignoresEnd_pure _
    | none => exact ignoresEnd_pure _

theorem ignoresEnd_generatedClause (d : Draft) : IgnoresEnd (generatedClause d) := by
  refine ignoresEnd_advancePastBlanks.bind fun _ => ignoresEnd_generationTime.bind fun _ =>
    (ignoresEnd_keyword _).possibly.bind fun as => ?_
  cases as with
  | none => exact ignoresEnd_pure _
  | some _ =>
    refine (ignoresEnd_seesWord _).bind fun identity => ?_
    cases identity with
    | true =>
      exact ignoresEnd_advancePastBlanks.bind fun _ => ignoresEnd_skipParenthesized.bind fun _ =>
        ignoresEnd_pure _
    | false => exact ignoresEnd_skipParenthesized.bind fun _ => ignoresEnd_pure _

theorem ignoresEnd_characterSetClause (d : Draft) : IgnoresEnd (characterSetClause d) := by
  refine ignoresEnd_advancePastBlanks.bind fun _ => (ignoresEnd_word _).possibly.bind fun set => ?_
  cases set with
  | some _ => exact ignoresEnd_skipNameOrString.bind fun _ => ignoresEnd_pure _
  | none => exact ignoresEnd_pure _

theorem ignoresEnd_onUpdateClause (d : Draft) : IgnoresEnd (onUpdateClause d) := by
  refine ignoresEnd_advancePastBlanks.bind fun _ =>
    (ignoresEnd_keyword _).possibly.bind fun update => ?_
  cases update with
  | some _ =>
    exact ignoresEnd_advancePastBlanks.bind fun _ => ignoresEnd_skipParenthesized.bind fun _ =>
      ignoresEnd_pure _
  | none => exact ignoresEnd_pure _

theorem ignoresEnd_otherClause (d : Draft) : IgnoresEnd (otherClause d) := by
  refine (ignoresEnd_seesMark _).bind fun opens => ?_
  cases opens with
  | true => exact ignoresEnd_skipParenthesized.bind fun _ => ignoresEnd_pure _
  | false => exact ignoresEnd_advance.bind fun _ => ignoresEnd_pure _

theorem ignoresEnd_modifier (d : Draft) (clause : Clause) : IgnoresEnd (modifier d clause) := by
  cases clause with
  | not => exact ignoresEnd_notClause d
  | null => exact ignoresEnd_advance.bind fun _ => ignoresEnd_pure _
  | constraint =>
    exact ignoresEnd_advancePastBlanks.bind fun _ => ignoresEnd_name.possibly.bind fun _ =>
      ignoresEnd_pure _
  | primary => exact ignoresEnd_primaryClause d
  | unique => exact ignoresEnd_uniqueClause d
  | default => exact ignoresEnd_defaultClause d
  | comment =>
    exact ignoresEnd_advancePastBlanks.bind fun _ =>
      ignoresEnd_stringLiteral.possibly.bind fun _ => ignoresEnd_pure _
  | counting => exact ignoresEnd_advance.bind fun _ => ignoresEnd_pure _
  | identity =>
    exact ignoresEnd_advancePastBlanks.bind fun _ => ignoresEnd_skipParenthesized.bind fun _ =>
      ignoresEnd_pure _
  | generated => exact ignoresEnd_generatedClause d
  | references =>
    exact ignoresEnd_advance.bind fun _ => Reference.ignoresEnd_reader.possibly.bind fun _ =>
      ignoresEnd_pure _
  | check =>
    exact ignoresEnd_advancePastBlanks.bind fun _ => ignoresEnd_skipParenthesized.bind fun _ =>
      ignoresEnd_pure _
  | named =>
    exact ignoresEnd_advancePastBlanks.bind fun _ => ignoresEnd_skipNameOrString.bind fun _ =>
      ignoresEnd_pure _
  | characterSet => exact ignoresEnd_characterSetClause d
  | onUpdate => exact ignoresEnd_onUpdateClause d
  | other => exact ignoresEnd_otherClause d

/-- Every modifier takes the token it begins with. -/
theorem length_modifier_lt (d : Draft) (clause : Clause) (t : Token) (ts : List Token) :
    ((modifier d clause).run (t :: ts)).2.length < (t :: ts).length := by
  cases clause with
  | null => exact length_advance_bind_lt _ t ts
  | counting => exact length_advance_bind_lt _ t ts
  | references => exact length_advance_bind_lt _ t ts
  | other =>
    by_cases ht : t.isMark .openParen = true
    · have hrun : (modifier d .other).run (t :: ts) = (some d, (splitClosed 1 ts).2) := by
        simp [modifier, otherClause, run_bind, seesMark, skipParenthesized, parenthesized, ht,
          splitClosed]
      rw [hrun]
      have happ := congrArg List.length (splitClosed_append 1 ts)
      rw [List.length_append] at happ
      show (splitClosed 1 ts).2.length < ts.length + 1
      omega
    · have hrun : (modifier d .other).run (t :: ts) = (some d, ts) := by
        simp [modifier, otherClause, run_bind, seesMark, ht]
      rw [hrun]
      exact Nat.lt_succ_self _
  | _ => exact length_advancePastBlanks_bind_lt _ t ts

theorem ignoresEnd_modifierRound (d : Draft) : IgnoresEnd (modifierRound d) := by
  refine ignoresEnd_skipBlanks_bind (ignoresEndFrom_peek fun t => ?_)
  cases t with
  | none => exact (ignoresEnd_pure _).fromHere
  | some t => exact ((ignoresEnd_modifier d _).bind fun _ => ignoresEnd_pure _).fromHere

theorem takes_modifierRound (d : Draft) : Takes GoesOn (modifierRound d) := by
  intro ts b hb hgo
  have hle := length_dropWhile_le ts
  rw [modifierRound, run_bind_of_some (run_skipBlanks ts), run_bind_of_some (run_peek _)] at hb ⊢
  generalize ts.dropWhile Token.isBlank = behind at *
  cases behind with
  | nil =>
    cases hb
    cases hgo
  | cons t rest =>
    refine Nat.lt_of_lt_of_le ?_ hle
    exact Nat.lt_of_le_of_lt (length_run_bind_le _ _ _) (length_modifier_lt d _ t rest)

theorem ignoresEnd_modifiers (d : ColumnDefinition) : IgnoresEnd (modifiers d) :=
  ignoresEnd_loop ignoresEnd_modifierRound takes_modifierRound _

/-! ## The definition -/

/-- **Reading a column definition ignores the blanks behind it.** -/
theorem ignoresEnd_reader : IgnoresEnd ColumnDefinition.reader := by
  refine ignoresEnd_skipBlanks.bind fun _ => ignoresEnd_name.bind fun columnName =>
    ignoresEnd_skipBlanks.bind fun _ => ignoresEnd_dataTypeName.bind fun type =>
      ignoresEnd_skipBlanks.bind fun _ => (ignoresEnd_seesMark _).bind fun opens => ?_
  cases opens with
  | true => exact (ignoresEnd_arguments _).bind ignoresEnd_modifiers
  | false => exact (ignoresEnd_answer _).bind ignoresEnd_modifiers

theorem ofTokens?_eq_of_sameButEnd {x y : List Token} (h : SameButEnd x y) :
    ofTokens? x = ofTokens? y :=
  (ignoresEnd_reader x y h).1

end ColumnDefinition
end SchemaScript
