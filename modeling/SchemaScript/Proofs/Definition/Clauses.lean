import SchemaScript.Definition.Constraint
import SchemaScript.Proofs.Reader.Names
import SchemaScript.Render.ForeignKey

/-!
# Constraint clauses as they are written

A key, an index or a foreign key is written in one way, whatever its parts are, and the tokens it
is written with are read as these parts. Names are given as tokens here, so that quoted names
and bare ones are dealt with together; the name of a constraint must not be a word that says
which constraint it is.
-/

namespace SchemaScript
namespace Reference

open Reader

/-! ## Actions of foreign keys -/

/-- The tokens of an action. -/
def actionTokens : String → List Token
  | "NO ACTION" => [.word "NO", .blank .space, .word "ACTION"]
  | "SET NULL" => [.word "SET", .blank .space, .word "NULL"]
  | "SET DEFAULT" => [.word "SET", .blank .space, .word "DEFAULT"]
  | a => [.word a]

/-- The tokens of an action on an event. -/
def eventTokens (event : String) : Option String → List Token
  | some a => .blank .space :: .word "ON" :: .blank .space :: .word event :: .blank .space ::
      actionTokens a
  | none => []

theorem run_action {a : String} (h : a ∈ ForeignKey.actions) (rest : List Token) :
    action.run (actionTokens a ++ rest) = (some a, rest) := by
  have hone : ∀ w ∈ ["RESTRICT", "CASCADE"],
      action.run (.word w :: rest) = (some (Text.upper w), rest) := by
    intro w hw
    have hno : (Text.upper w == "SET" || Text.upper w == "NO") = false := by
      revert hw
      revert w
      decide
    rw [action, run_bind_of_some (run_token_of_some (a := w) rfl rest)]
    dsimp only
    rw [hno]
    rfl
  have htwo : ∀ w ∈ ["SET", "NO"], ∀ v, action.run
      (.word w :: .blank .space :: .word v :: rest) =
        (some (Text.upper w ++ " " ++ Text.upper v), rest) := by
    intro w hw v
    have hno : (Text.upper w == "SET" || Text.upper w == "NO") = true := by
      revert hw
      revert w
      decide
    rw [action, run_bind_of_some (run_token_of_some (a := w) rfl _)]
    dsimp only
    rw [if_pos hno, run_bind_of_some (run_skipBlanks _), dropWhile_isBlank_blank,
      dropWhile_isBlank_cons rfl,
      run_bind_of_some (run_possibly_of_eq (run_token_of_some (a := v) rfl _))]
    rfl
  have hupper : ∀ w ∈ ["RESTRICT", "CASCADE", "SET", "NO", "NULL", "DEFAULT", "ACTION"],
      Text.upper w = w := by
    decide
  have hmem : a = "NO ACTION" ∨ a = "RESTRICT" ∨ a = "CASCADE" ∨ a = "SET NULL" ∨
      a = "SET DEFAULT" := by
    simpa [ForeignKey.actions] using h
  rcases hmem with rfl | rfl | rfl | rfl | rfl
  · exact (htwo "NO" (by simp) "ACTION").trans
      (by rw [hupper "NO" (by simp), hupper "ACTION" (by simp)]; rfl)
  · exact (hone "RESTRICT" (by simp)).trans (by rw [hupper "RESTRICT" (by simp)])
  · exact (hone "CASCADE" (by simp)).trans (by rw [hupper "CASCADE" (by simp)])
  · exact (htwo "SET" (by simp) "NULL").trans
      (by rw [hupper "SET" (by simp), hupper "NULL" (by simp)]; rfl)
  · exact (htwo "SET" (by simp) "DEFAULT").trans
      (by rw [hupper "SET" (by simp), hupper "DEFAULT" (by simp)]; rfl)

/-- The action of an event is read behind the word `ON`. -/
theorem run_event_update {a : String} (h : a ∈ ForeignKey.actions) (r : Reference)
    (rest : List Token) :
    (event r).run (.word "ON" :: .blank .space :: .word "UPDATE" :: .blank .space ::
      (actionTokens a ++ rest)) = (some { r with onUpdate := some a }, rest) := by
  have hfirst : ∃ w ts, actionTokens a = .word w :: ts := by
    unfold actionTokens
    split <;> exact ⟨_, _, rfl⟩
  obtain ⟨w, ts, hw⟩ := hfirst
  have hdrop : (actionTokens a ++ rest).dropWhile Token.isBlank = actionTokens a ++ rest := by
    rw [hw]
    rfl
  rw [event, run_bind_of_some (run_advancePastBlanks _), List.tail_cons, dropWhile_isBlank_blank,
    dropWhile_isBlank_cons rfl,
    run_bind_of_some (run_possibly_of_eq (run_keyword_of_neg (by decide) _))]
  show Reader.run (do
    keyword "UPDATE"
    let a ← possibly action
    pure { r with onUpdate := a }) _ = _
  rw [run_bind_of_some (run_keyword_of_pos (by decide) _), dropWhile_isBlank_blank, hdrop,
    run_bind_of_some (run_possibly_of_eq (run_action h rest))]
  rfl

theorem run_event_delete {a : String} (h : a ∈ ForeignKey.actions) (r : Reference)
    (rest : List Token) :
    (event r).run (.word "ON" :: .blank .space :: .word "DELETE" :: .blank .space ::
      (actionTokens a ++ rest)) = (some { r with onDelete := some a }, rest) := by
  have hfirst : ∃ w ts, actionTokens a = .word w :: ts := by
    unfold actionTokens
    split <;> exact ⟨_, _, rfl⟩
  obtain ⟨w, ts, hw⟩ := hfirst
  have hdrop : (actionTokens a ++ rest).dropWhile Token.isBlank = actionTokens a ++ rest := by
    rw [hw]
    rfl
  rw [event, run_bind_of_some (run_advancePastBlanks _), List.tail_cons, dropWhile_isBlank_blank,
    dropWhile_isBlank_cons rfl,
    run_bind_of_some (run_possibly_of_eq (run_keyword_of_pos (by decide) _)),
    dropWhile_isBlank_blank, hdrop]
  show Reader.run (do
    let a ← possibly action
    pure { r with onDelete := a }) _ = _
  rw [run_bind_of_some (run_possibly_of_eq (run_action h rest))]
  rfl

/-- An event goes on the loop over the options. -/
theorem run_options_event {r r' : Reference} {rest ts : List Token}
    (h : (event r).run (.word "ON" :: ts) = (some r', rest)) (hlt : rest.length < ts.length) :
    (loop optionRound r).run (.blank .space :: .word "ON" :: ts) =
      (loop optionRound r').run rest := by
  refine run_loop_inl ?_ (by simp; omega)
  have hon : (Token.word "ON").isKeyword "ON" = true := by decide
  rw [optionRound, run_bind_of_some (run_skipBlanks _), dropWhile_isBlank_blank,
    dropWhile_isBlank_cons rfl, run_bind_of_some (run_seesKeyword _ _ _), if_pos hon,
    run_bind_of_some (run_attempt_of_some h)]
  rfl

/-- Where nothing but blanks follows the options have an end. -/
theorem run_options_end (r : Reference) {ts : List Token}
    (hts : ts.dropWhile Token.isBlank = []) : (loop optionRound r).run ts = (some r, []) := by
  refine run_loop_inr ?_
  rw [optionRound, run_bind_of_some (run_skipBlanks _), hts]
  rfl

/-- The options of a reference are read as they are written. -/
theorem run_options {r : Reference} (hupdate : ∀ a ∈ r.onUpdate, a ∈ ForeignKey.actions)
    (hdelete : ∀ a ∈ r.onDelete, a ∈ ForeignKey.actions) {rest : List Token}
    (hrest : rest.dropWhile Token.isBlank = []) :
    (loop optionRound { r with onUpdate := none, onDelete := none }).run
      (eventTokens "UPDATE" r.onUpdate ++ (eventTokens "DELETE" r.onDelete ++ rest)) =
        (some r, []) := by
  have hdel : ∀ r' : Reference, r'.onDelete = none →
      (loop optionRound r').run (eventTokens "DELETE" r.onDelete ++ rest) =
        (some { r' with onDelete := r.onDelete }, []) := by
    intro r' hr'
    cases hd : r.onDelete with
    | none =>
      have hsame : { r' with onDelete := none } = r' := by
        cases r'
        cases hr'
        rfl
      rw [hsame]
      exact run_options_end r' hrest
    | some a =>
      refine (run_options_event (run_event_delete (hdelete a hd) r' rest)
        ?_).trans (run_options_end _ hrest)
      simp
      omega
  cases hu : r.onUpdate with
  | none =>
    refine (hdel _ rfl).trans ?_
    rw [← hu]
  | some a =>
    refine (run_options_event (run_event_update (hupdate a hu) _ _) ?_).trans
      ((hdel _ rfl).trans ?_)
    · simp
      omega
    · rw [← hu]

/-- The tokens of a reference: the table, its columns and the actions. -/
def tokens (t : Token) (f : String → Token) (r : Reference) : List Token :=
  t :: .mark .openParen :: (nameTokens f r.columns ++ .mark .closeParen ::
    (eventTokens "UPDATE" r.onUpdate ++ eventTokens "DELETE" r.onDelete))

/-- **A reference is read as it is written.** -/
theorem run_tokens {t : Token} {f : String → Token} {r : Reference}
    (htable : t.wordText? = some r.table) (hcolumns : ∀ n ∈ r.columns, (f n).wordText? = some n)
    (hupdate : ∀ a ∈ r.onUpdate, a ∈ ForeignKey.actions)
    (hdelete : ∀ a ∈ r.onDelete, a ∈ ForeignKey.actions) {rest : List Token}
    (hrest : rest.dropWhile Token.isBlank = []) :
    reader.run (tokens t f r ++ rest) = (some r, []) := by
  have htokens : tokens t f r ++ rest = t :: .mark .openParen ::
      (nameTokens f r.columns ++ .mark .closeParen ::
        (eventTokens "UPDATE" r.onUpdate ++ (eventTokens "DELETE" r.onDelete ++ rest))) := by
    simp [tokens]
  have hsees : ∀ ts, (seesMark .openParen).run (.mark .openParen :: ts) =
      (some true, .mark .openParen :: ts) := fun _ => rfl
  rw [htokens, reader, run_bind_of_some (run_skipBlanks _),
    dropWhile_isBlank_cons (isBlank_of_wordText? htable),
    run_bind_of_some (run_qualifiedName htable rfl), run_bind_of_some (run_skipBlanks _),
    dropWhile_isBlank_cons rfl, run_bind_of_some (hsees _), if_pos rfl,
    run_bind_of_some (run_nameList hcolumns _)]
  exact run_options hupdate hdelete hrest

end Reference

namespace Constraint

open Reader

variable {f : String → Token} {names : List String} {t : Token} {n : String}

/-! ## Keys and indexes -/

/-- Where no option of an index stands nothing is taken. -/
theorem run_skipIndexOptions (h : ["CLUSTERED", "NONCLUSTERED"].any t.isWord = false)
    (h' : t.isWord "USING" = false) (ts : List Token) :
    skipIndexOptions.run (t :: ts) = (some (), t :: ts) := by
  refine run_loop_inr ?_
  have hstored : (seesAnyWord ["CLUSTERED", "NONCLUSTERED"]).run (t :: ts) =
      (some false, t :: ts) := by
    rw [run_seesAnyWord, h]
  have husing : (seesWord "USING").run (t :: ts) = (some false, t :: ts) := by
    rw [run_seesWord, h']
  rw [indexOptionRound, run_bind_of_some hstored, if_neg Bool.false_ne_true,
    run_bind_of_some husing]
  rfl

/-- A clause that does not begin with the word `CONSTRAINT` has no name in front. -/
theorem run_constraintName_of_neg (h : t.isKeyword "CONSTRAINT" = false) (ts : List Token) :
    constraintName.run (t :: ts) = (some none, t :: ts) := by
  rw [constraintName, run_bind_of_some (run_possibly_of_eq (run_keyword_of_neg h ts))]
  rfl

/-- The tokens of a key with the given columns. -/
def keyTokens (f : String → Token) (names : List String) : List Token :=
  .word "PRIMARY" :: .blank .space :: .word "KEY" :: .mark .openParen ::
    (nameTokens f names ++ [.mark .closeParen])

/-- **A primary key is read as it is written.** -/
theorem run_keyTokens (hf : ∀ n ∈ names, (f n).wordText? = some n) (rest : List Token) :
    reader.run (keyTokens f names ++ rest) = (some (.primaryKey names), rest) := by
  have htokens : keyTokens f names ++ rest =
      .word "PRIMARY" :: .blank .space :: .word "KEY" :: .mark .openParen ::
        (nameTokens f names ++ .mark .closeParen :: rest) := by
    simp [keyTokens]
  have hprimary : (possibly (keyword "PRIMARY")).run (.word "PRIMARY" :: .blank .space ::
      .word "KEY" :: .mark .openParen :: (nameTokens f names ++ .mark .closeParen :: rest)) =
        (some (some ()), .word "KEY" :: .mark .openParen ::
          (nameTokens f names ++ .mark .closeParen :: rest)) :=
    run_possibly_of_eq (run_keyword_of_pos (by decide) _)
  have hclause : primaryKeyClause.run (.word "KEY" :: .mark .openParen ::
      (nameTokens f names ++ .mark .closeParen :: rest)) = (some (.primaryKey names), rest) := by
    rw [primaryKeyClause, run_bind_of_some (run_keyword_of_pos (by decide) _),
      dropWhile_isBlank_cons rfl, run_bind_of_some (run_skipIndexOptions rfl rfl _),
      run_bind_of_some (run_nameList hf rest)]
    rfl
  rw [htokens, reader, run_bind_of_some (run_skipBlanks _), dropWhile_isBlank_cons rfl,
    run_bind_of_some (run_constraintName_of_neg (by decide) _),
    run_bind_of_some hprimary]
  exact hclause

/-- The name of an index in front of its columns. -/
theorem run_indexName (ht : t.wordText? = some n) (rest : List Token) :
    indexName.run (t :: .blank .space :: .mark .openParen :: rest) =
      (some (some n), .mark .openParen :: rest) := by
  have hsees : (seesMark .openParen).run (t :: .blank .space :: .mark .openParen :: rest) =
      (some false, t :: .blank .space :: .mark .openParen :: rest) := by
    rw [run_seesMark, isMark_of_wordText? ht]
  rw [indexName, run_bind_of_some hsees, if_neg Bool.false_ne_true,
    run_bind_of_some (run_possibly_of_eq (run_name ht _)), run_bind_of_some (run_skipBlanks _),
    dropWhile_isBlank_blank, dropWhile_isBlank_cons rfl,
    run_bind_of_some (run_skipIndexOptions rfl rfl _)]
  rfl

/-- The tokens of an index with the given name and columns. -/
def indexTokens (unique : Bool) (t : Token) (f : String → Token) (names : List String) :
    List Token :=
  (if unique then [.word "UNIQUE", .blank .space] else []) ++
    .word "INDEX" :: .blank .space :: t :: .blank .space :: .mark .openParen ::
      (nameTokens f names ++ [.mark .closeParen])

/-- The clause that declares an index. -/
def ofIndex (unique : Bool) (name : Option String) (columns : List String) : Constraint :=
  if unique then .unique name columns else .index name columns

/-- **An index is read as it is written**, unless its name is a word for how it is stored. -/
theorem run_indexTokens (unique : Bool) (ht : t.wordText? = some n)
    (hstored : ["CLUSTERED", "NONCLUSTERED"].any t.isWord = false)
    (husing : t.isWord "USING" = false)
    (hf : ∀ n ∈ names, (f n).wordText? = some n) (rest : List Token) :
    reader.run (indexTokens unique t f names ++ rest) =
      (some (ofIndex unique (some n) names), rest) := by
  have hblank : t.isBlank = false := isBlank_of_wordText? ht
  have hlist := run_nameList hf rest
  have hindexWord : ∀ ts, seesIndexWord.run (.word "INDEX" :: ts) =
      (some true, .word "INDEX" :: ts) := by
    intro ts
    have hword : ((Token.word "INDEX").isKeyword "KEY" || (Token.word "INDEX").isKeyword "INDEX") =
        true := by decide
    rw [seesIndexWord, run_sees, List.head?_cons, Option.any_some, hword]
  cases unique with
  | true =>
    have htokens : indexTokens true t f names ++ rest =
        .word "UNIQUE" :: .blank .space :: .word "INDEX" :: .blank .space :: t ::
          .blank .space :: .mark .openParen ::
            (nameTokens f names ++ .mark .closeParen :: rest) := by
      simp [indexTokens]
    have hclause : (uniqueClause none).run (.word "INDEX" :: .blank .space :: t ::
        .blank .space :: .mark .openParen :: (nameTokens f names ++ .mark .closeParen :: rest)) =
          (some (.unique (some n) names), rest) := by
      rw [uniqueClause, run_bind_of_some (hindexWord _), if_pos rfl,
        run_bind_of_some (run_advancePastBlanks _), List.tail_cons, dropWhile_isBlank_blank,
        dropWhile_isBlank_cons hblank, run_bind_of_some (run_skipIndexOptions hstored husing _),
        run_bind_of_some (run_indexName ht _), run_bind_of_some hlist]
      rfl
    rw [htokens, reader, run_bind_of_some (run_skipBlanks _), dropWhile_isBlank_cons rfl,
      run_bind_of_some (run_constraintName_of_neg (by decide) _),
      run_bind_of_some (run_possibly_of_eq (run_keyword_of_neg (by decide) _)),
      run_bind_of_some (run_possibly_of_eq (run_keyword_of_pos (by decide) _)),
      dropWhile_isBlank_blank, dropWhile_isBlank_cons rfl]
    exact hclause
  | false =>
    have htokens : indexTokens false t f names ++ rest =
        .word "INDEX" :: .blank .space :: t :: .blank .space :: .mark .openParen ::
          (nameTokens f names ++ .mark .closeParen :: rest) := by
      simp [indexTokens]
    have hclause : indexClause.run (.word "INDEX" :: .blank .space :: t ::
        .blank .space :: .mark .openParen :: (nameTokens f names ++ .mark .closeParen :: rest)) =
          (some (.index (some n) names), rest) := by
      rw [indexClause, run_bind_of_some (run_advancePastBlanks _), List.tail_cons,
        dropWhile_isBlank_blank, dropWhile_isBlank_cons hblank,
        run_bind_of_some (run_indexName ht _), run_bind_of_some hlist]
      rfl
    rw [htokens, reader, run_bind_of_some (run_skipBlanks _), dropWhile_isBlank_cons rfl,
      run_bind_of_some (run_constraintName_of_neg (by decide) _),
      run_bind_of_some (run_possibly_of_eq (run_keyword_of_neg (by decide) _)),
      run_bind_of_some (run_possibly_of_eq (run_keyword_of_neg (by decide) _)),
      run_bind_of_some (hindexWord _)]
    exact hclause

/-! ## Foreign keys -/

/-- A name behind the word `CONSTRAINT`. -/
theorem run_constraintName (ht : t.wordText? = some n)
    (hkind : ["PRIMARY", "UNIQUE", "FOREIGN", "CHECK"].any t.isKeyword = false)
    {u : Token} (hu : u.isBlank = false) (rest : List Token) :
    constraintName.run (.word "CONSTRAINT" :: .blank .space :: t :: .blank .space :: u :: rest) =
      (some (some n), u :: rest) := by
  have hsees : seesKind.run (t :: .blank .space :: u :: rest) =
      (some false, t :: .blank .space :: u :: rest) := by
    rw [seesKind, run_sees, List.head?_cons, Option.any_some, hkind]
  rw [constraintName,
    run_bind_of_some (run_possibly_of_eq (run_keyword_of_pos (by decide) _)),
    dropWhile_isBlank_blank, dropWhile_isBlank_cons (isBlank_of_wordText? ht)]
  show Reader.run (do
    if ← seesKind then
      return none
    let n ← possibly name
    skipBlanks
    return n) _ = _
  rw [run_bind_of_some hsees, if_neg Bool.false_ne_true,
    run_bind_of_some (run_possibly_of_eq (run_name ht _)), run_bind_of_some (run_skipBlanks _),
    dropWhile_isBlank_blank, dropWhile_isBlank_cons hu]
  rfl

/-- The tokens of a foreign key with the given name, columns and target, `u` being the token of
the table that it refers to. -/
def foreignKeyTokens (t u : Token) (f : String → Token) (names : List String)
    (target : Reference) : List Token :=
  .word "CONSTRAINT" :: .blank .space :: t :: .blank .space :: .word "FOREIGN" :: .blank .space ::
    .word "KEY" :: .blank .space :: .mark .openParen :: (nameTokens f names ++
      .mark .closeParen :: .blank .space :: .word "REFERENCES" :: .blank .space ::
        target.tokens u f)

/-- **A foreign key is read as it is written**, unless its name is a word for a kind of
constraint. -/
theorem run_foreignKeyTokens {u : Token} (target : Reference) (ht : t.wordText? = some n)
    (hkind : ["PRIMARY", "UNIQUE", "FOREIGN", "CHECK"].any t.isKeyword = false)
    (hf : ∀ n ∈ names, (f n).wordText? = some n) (hu : u.wordText? = some target.table)
    (htarget : ∀ n ∈ target.columns, (f n).wordText? = some n)
    (hupdate : ∀ a ∈ target.onUpdate, a ∈ ForeignKey.actions)
    (hdelete : ∀ a ∈ target.onDelete, a ∈ ForeignKey.actions) {rest : List Token}
    (hrest : rest.dropWhile Token.isBlank = []) :
    reader.run (foreignKeyTokens t u f names target ++ rest) =
      (some (.foreignKey (some n) names target), []) := by
  have htokens : foreignKeyTokens t u f names target ++ rest =
      .word "CONSTRAINT" :: .blank .space :: t :: .blank .space :: .word "FOREIGN" ::
        .blank .space :: .word "KEY" :: .blank .space :: .mark .openParen ::
          (nameTokens f names ++ .mark .closeParen :: .blank .space :: .word "REFERENCES" ::
            .blank .space :: (target.tokens u f ++ rest)) := by
    simp [foreignKeyTokens]
  have hindexName : ∀ ts, indexName.run (.mark .openParen :: ts) =
      (some none, .mark .openParen :: ts) := fun _ => rfl
  have hdrop : (target.tokens u f ++ rest).dropWhile Token.isBlank = target.tokens u f ++ rest :=
    dropWhile_isBlank_cons (isBlank_of_wordText? hu) _
  have hindexWord : ∀ ts, seesIndexWord.run (.word "FOREIGN" :: ts) =
      (some false, .word "FOREIGN" :: ts) := by
    intro ts
    have hword : ((Token.word "FOREIGN").isKeyword "KEY" ||
        (Token.word "FOREIGN").isKeyword "INDEX") = false := by
      decide
    rw [seesIndexWord, run_sees, List.head?_cons, Option.any_some, hword]
  have hclause : (foreignKeyClause (some n)).run (.word "KEY" :: .blank .space ::
      .mark .openParen :: (nameTokens f names ++ .mark .closeParen :: .blank .space ::
        .word "REFERENCES" :: .blank .space :: (target.tokens u f ++ rest))) =
          (some (.foreignKey (some n) names target), []) := by
    rw [foreignKeyClause, run_bind_of_some (run_keyword_of_pos (by decide) _),
      dropWhile_isBlank_blank, dropWhile_isBlank_cons rfl, run_bind_of_some (hindexName _),
      run_bind_of_some (run_nameList hf _), run_bind_of_some (run_skipBlanks _),
      dropWhile_isBlank_blank, dropWhile_isBlank_cons rfl,
      run_bind_of_some (run_keyword_of_pos (by decide) _), dropWhile_isBlank_blank, hdrop,
      run_bind_of_some (Reference.run_tokens hu htarget hupdate hdelete hrest)]
    rfl
  rw [htokens, reader, run_bind_of_some (run_skipBlanks _), dropWhile_isBlank_cons rfl,
    run_bind_of_some (run_constraintName ht hkind rfl _),
    run_bind_of_some (run_possibly_of_eq (run_keyword_of_neg (by decide) _)),
    run_bind_of_some (run_possibly_of_eq (run_keyword_of_neg (by decide) _)),
    run_bind_of_some (hindexWord _), if_neg Bool.false_ne_true,
    run_bind_of_some (run_possibly_of_eq (run_keyword_of_pos (by decide) _)),
    dropWhile_isBlank_blank, dropWhile_isBlank_cons rfl]
  exact hclause

end Constraint
end SchemaScript
