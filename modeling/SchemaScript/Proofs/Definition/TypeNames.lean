import SchemaScript.Definition.Column
import SchemaScript.Proofs.Definition.TypeFolding
import SchemaScript.Proofs.Reader.Answers

/-!
# The types that columns are read with

The type of a column is settled by the words behind its name: it is the canonical name of one of
the words of the vocabulary, since the types of several words have such a name as well. The
arguments of the type and the modifiers behind it leave it as it is (`answers_modifier`). So
there are only finitely many types that a column can be read with (`dataType_mem_readable`).
-/

namespace SchemaScript

namespace DataType

theorem eq_of_isValueSet {n : String} (h : n ∈ readable) (hn : isValueSet n = true) :
    n = "ENUM" ∨ n = "SET" := by
  obtain ⟨v, hv, hsame⟩ := List.any_eq_true.1 hn
  have hupper := Text.upper_eq_of_sameIgnoringCase hsame
  rw [upper_of_mem_readable n h] at hupper
  rw [← hupper]
  rcases List.mem_cons.1 hv with rfl | hv
  · exact Or.inl (by decide)
  · rw [List.mem_singleton.1 hv]
    exact Or.inr (by decide)

/-- Types of whole numbers are read with their own names. -/
theorem mem_of_isInteger {n : String} (h : n ∈ readable) (hn : isInteger n = true) :
    n ∈ ["TINYINT", "SMALLINT", "MEDIUMINT", "INT", "BIGINT"] := by
  have hother : "INTEGER" ∉ readable := fun hx => absurd (mem_readable_iff.1 hx) (by decide)
  have hmem : n ∈ integerNames := by
    rw [isInteger, fold_of_mem_readable n h] at hn
    simpa using hn
  simp only [integerNames, List.mem_cons, List.not_mem_nil, or_false] at hmem ⊢
  rcases hmem with rfl | rfl | rfl | rfl | rfl | rfl
  · simp
  · simp
  · simp
  · simp
  · exact absurd h hother
  · simp

end DataType

namespace ColumnDefinition

open Reader

variable {n type : String}

/-! ## The name of the type -/

/-- A word that names a type is, in upper case, a word of the vocabulary. -/
theorem answers_typeWord : Answers (· ∈ DataType.vocabulary) typeWord := by
  refine answers_token fun t w ht => ?_
  split at ht
  · rename_i htype
    obtain ⟨text, htext, rfl⟩ := Option.map_eq_some_iff.1 ht
    rw [isTypeWord, htext, Option.any_some, DataType.isKeyword, List.any_eq_true] at htype
    obtain ⟨v, hv, hsame⟩ := htype
    have hall : DataType.vocabulary.map Text.upper = DataType.vocabulary.map id := rfl
    have hupper : Text.upper v = v := List.map_inj_left.1 hall v hv
    rw [← Text.upper_eq_of_sameIgnoringCase hsame, hupper]
    exact hv
  · cases ht

/-- A type whose second word is expected. -/
theorem answers_secondWord {w n : String} (hn : n ∈ DataType.readable) :
    Answers (· ∈ DataType.readable) (do
      let .true ← seesWord w | fail
      advance
      return n) := by
  refine answers_bind fun seen => ?_
  cases seen with
  | false => exact answers_fail
  | true => exact answers_bind fun _ => answers_pure hn

/-- The type of several words is one of the vocabulary as well. -/
theorem answers_longTypeName (first : String) :
    Answers (· ∈ DataType.readable) (longTypeName first) := by
  have hmem : ∀ w ∈ ["VARCHAR", "DOUBLE", "TIME", "TIMESTAMPTZ", "TIMESTAMP"],
      w ∈ DataType.readable := by
    simp only [DataType.mem_readable_iff]
    decide
  refine answers_bind fun _ => ?_
  split
  · exact answers_secondWord (hmem _ (by simp))
  split
  · exact answers_secondWord (hmem _ (by simp))
  split
  · have hzone : Answers (· ∈ DataType.readable) (timeZone >>= fun zoned =>
        (if (first == "TIME") = true then pure "TIME"
        else pure (if zoned = true then "TIMESTAMPTZ" else "TIMESTAMP") : Reader String)) := by
      refine answers_bind fun zoned => ?_
      split
      · exact answers_pure (hmem _ (by simp))
      · refine answers_pure (hmem _ ?_)
        cases zoned <;> simp
    refine answers_bind fun opens => ?_
    cases opens with
    | true => exact answers_bind fun _ => answers_bind fun _ => hzone
    | false => exact hzone
  · exact answers_fail

theorem answers_dataTypeName :
    Answers (fun r => r.1 ∈ DataType.readable) dataTypeName := by
  refine answers_typeWord.bind fun first hfirst => ?_
  refine (answers_longTypeName first).attempt.bind fun n hn => ?_
  cases n with
  | none => exact answers_pure (List.mem_map_of_mem hfirst)
  | some n => exact answers_pure (hn n rfl)

/-! ## Arguments and modifiers -/

/-- Arguments do not change the type. -/
theorem answers_arguments (d : ColumnDefinition) :
    Answers (fun d' => d'.dataType = d.dataType) (arguments d) := by
  refine answers_bind fun _ => ?_
  split
  · exact answers_bind fun _ => answers_pure rfl
  · exact answers_bind fun _ => answers_bind fun _ => answers_pure rfl

/-- Whether a draft has the given type. -/
def HasType (type : String) (d : Draft) : Prop :=
  d.definition.dataType = type

/-- **Modifiers do not change the type.** -/
theorem answers_modifier {d : Draft} (h : HasType type d) (clause : Clause) :
    Answers (HasType type) (modifier d clause) := by
  have hdone : ∀ {d' : Draft}, d'.definition.dataType = d.definition.dataType →
      Answers (HasType type) (pure d') := fun hd' => answers_pure (hd'.trans h)
  have hsame : Answers (HasType type) (pure d) := hdone rfl
  cases clause with
  | not =>
    refine answers_bind fun _ => answers_bind fun seen => ?_
    cases seen with
    | true => exact answers_bind fun _ => hdone rfl
    | false => exact hsame
  | null => exact answers_bind fun _ => hdone rfl
  | constraint => exact answers_bind fun _ => answers_bind fun _ => hdone rfl
  | primary =>
    refine answers_bind fun _ => answers_bind fun seen => ?_
    cases seen with
    | true => exact answers_bind fun _ => answers_bind fun _ => hdone rfl
    | false => exact hdone rfl
  | unique =>
    refine answers_bind fun _ => answers_bind fun seen => ?_
    cases seen with
    | true => exact answers_bind fun _ => hdone rfl
    | false => exact hdone rfl
  | default =>
    refine answers_bind fun _ => answers_bind fun value => hdone ?_
    cases value <;> rfl
  | comment => exact answers_bind fun _ => answers_bind fun _ => hdone rfl
  | counting => exact answers_bind fun _ => hdone rfl
  | identity => exact answers_bind fun _ => answers_bind fun _ => hdone rfl
  | generated =>
    refine answers_bind fun _ => answers_bind fun _ => answers_bind fun as => ?_
    cases as with
    | none => exact hsame
    | some _ =>
      refine answers_bind fun seen => ?_
      cases seen with
      | true => exact answers_bind fun _ => answers_bind fun _ => hdone rfl
      | false => exact answers_bind fun _ => hsame
  | references => exact answers_bind fun _ => answers_bind fun _ => hdone rfl
  | check => exact answers_bind fun _ => answers_bind fun _ => hdone rfl
  | named => exact answers_bind fun _ => answers_bind fun _ => hsame
  | characterSet =>
    refine answers_bind fun _ => answers_bind fun set => ?_
    cases set with
    | none => exact hsame
    | some _ => exact answers_bind fun _ => hsame
  | onUpdate =>
    refine answers_bind fun _ => answers_bind fun update => ?_
    cases update with
    | none => exact hsame
    | some _ => exact answers_bind fun _ => answers_bind fun _ => hsame
  | other =>
    refine answers_bind fun opens => ?_
    cases opens with
    | true => exact answers_bind fun _ => hsame
    | false => exact answers_bind fun _ => hsame

theorem answers_modifiers (d : ColumnDefinition) :
    Answers (fun d' => d'.dataType = d.dataType) (modifiers d) := by
  refine answers_loop (p := HasType d.dataType) (fun draft hdraft => ?_) rfl
  refine answers_bind fun _ => answers_bind fun t => ?_
  cases t with
  | none => exact answers_pure hdraft
  | some t => exact (answers_modifier hdraft _).bind fun _ hd => answers_pure hd

/-- **A column is read with one of finitely many types.** -/
theorem dataType_mem_readable {ts : List Token} {d : ColumnDefinition}
    (h : ofTokens? ts = some d) : d.dataType ∈ DataType.readable := by
  have hreader : Answers (fun d => d.dataType ∈ DataType.readable) reader := by
    refine answers_bind fun _ => answers_bind fun n => answers_bind fun _ =>
      answers_dataTypeName.bind fun r hr => ?_
    obtain ⟨type, counting⟩ := r
    have hmodifiers : ∀ d : ColumnDefinition, d.dataType = type →
        Answers (fun d => d.dataType ∈ DataType.readable) (modifiers d) := by
      intro d hd ts d' hd'
      rw [answers_modifiers d ts d' hd', hd]
      exact hr
    refine answers_bind fun _ => answers_bind fun opens => ?_
    cases opens with
    | true => exact (answers_arguments _).bind fun d hd => hmodifiers d hd
    | false =>
      refine (answers_answer (p := fun d => d.dataType = type) ?_).bind fun d hd => hmodifiers d hd
      rfl
  exact hreader ts d h

end ColumnDefinition
end SchemaScript
