import SchemaScript.Proofs.Reader.Names
import SchemaScript.Proofs.Token.Bracketed

/-!
# Spellings of names

A name is spelled as a bare word, between double quotes or backticks, or as any tokens between
square brackets, and it may be qualified by names in front of it. `Naming.Spells` relates such a
text to the tokens that it is cut into and to the name that is read from them; that this is so, in
front of a blank, a period or the end of the text, is `Naming.Spells.tokenize_append` and
`Naming.Spells.run_qualifiedName`.

A text between brackets is a spelling if the bracket behind it is the first one that is a token of
its own: in `[it's]` it is part of a string that nothing closes.
-/

namespace SchemaScript
namespace Naming

open Token Reader

/-! ## The relation -/

/-- A text without periods outside quotes, its tokens, and the name they are read as. -/
inductive SpellsPart : List Char → List Token → String → Prop where
  | word {w : String} (h : (Token.word w).ReadsBack) : SpellsPart w.toList [.word w] w
  | quoted (q : NameQuote) (text : String) :
    SpellsPart (Text.enclose q.char text).toList [.quotedWord q text] text
  | bracketed {cs : List Char} {ts : List Token}
    (h : tokenize (cs ++ [']']) = some (ts ++ [.mark .closeBracket]))
    (hts : .mark .closeBracket ∉ ts) :
    SpellsPart ('[' :: (cs ++ [']'])) (.mark .openBracket :: (ts ++ [.mark .closeBracket]))
      (bracketedName ts)

/-- A text, its tokens, and the name they are read as: the last part of the text. -/
inductive Spells : List Char → List Token → String → Prop where
  | part {cs : List Char} {ts : List Token} {n : String} (h : SpellsPart cs ts n) : Spells cs ts n
  | qualified {cs cs' : List Char} {ts ts' : List Token} {m n : String} (h : SpellsPart cs ts m)
    (h' : Spells cs' ts' n) : Spells (cs ++ '.' :: cs') (ts ++ .mark .period :: ts') n

variable {cs more : List Char} {ts : List Token} {n : String}

/-! ## Texts -/

/-- A text in front of which every spelling ends. -/
def EndsName (more : List Char) : Prop :=
  ∀ c ∈ more.head?, c = ' ' ∨ c = '.'

theorem SpellsPart.tokenize_append (h : SpellsPart cs ts n) (hmore : EndsName more) :
    tokenize (cs ++ more) = (tokenize more).map (ts ++ ·) := by
  cases h with
  | word hback =>
    have hfollow : Follows (Token.word n).print (.word n) more := by
      cases more with
      | nil => exact follows_word_nil
      | cons c more =>
        refine follows_word ?_
        rcases hmore c rfl with rfl | rfl <;> decide
    exact tokenize_of_scan? (hback.scan?_append hfollow)
  | quoted q =>
    have hhead : more.head? ≠ some q.char := by
      intro hq
      rcases hmore _ hq with hc | hc <;> cases q <;> cases hc
    exact tokenize_of_scan? (scan?_enclose q n hhead)
  | @bracketed cs ts hclose _ =>
    rw [List.cons_append, List.append_assoc, List.singleton_append, tokenize_cons_openBracket,
      tokenize_append_closeBracket hclose, Option.map_map]
    congr 1
    funext us
    simp

/-- No spelling begins with a digit, which would make a number of the period in front of it. -/
theorem SpellsPart.stops_isDigit (h : SpellsPart cs ts n) (more : List Char) :
    Text.Stops Char.isDigit (cs ++ more) := by
  cases h with
  | word hback =>
    obtain ⟨c, cs, hprint⟩ := List.exists_cons_of_ne_nil hback.print_ne_nil
    rw [show n.toList = c :: cs from hprint]
    refine Text.stops_cons.2 ?_
    rw [Bool.eq_false_iff]
    intro hdigit
    rcases hback.number_of_isDigit hprint (Or.inl hdigit) with ⟨text, hnumber⟩ | hperiod
    · cases hnumber
    · cases hperiod
  | quoted q =>
    rw [Text.toList_enclose]
    refine Text.stops_cons.2 ?_
    cases q <;> decide
  | bracketed => exact Text.stops_cons.2 (by decide)

theorem Spells.stops_isDigit (h : Spells cs ts n) (more : List Char) :
    Text.Stops Char.isDigit (cs ++ more) := by
  cases h with
  | part h => exact h.stops_isDigit more
  | qualified h h' =>
    rw [List.append_assoc]
    exact h.stops_isDigit _

/-- A period that no digit follows is a token of its own. -/
theorem tokenize_cons_period (hcs : Text.Stops Char.isDigit cs) :
    tokenize ('.' :: cs) = (tokenize cs).map (.mark .period :: ·) :=
  have hback : (Token.mark .period).ReadsBack := by decide
  tokenize_of_scan? (hback.scan?_append hcs)

/-- **A spelling is cut into its tokens** where a blank, a period or nothing stands behind it. -/
theorem Spells.tokenize_append (h : Spells cs ts n) (hmore : EndsName more) :
    tokenize (cs ++ more) = (tokenize more).map (ts ++ ·) := by
  induction h with
  | part h => exact h.tokenize_append hmore
  | @qualified cs cs' ts ts' m n h h' ih =>
    have hperiod : EndsName ('.' :: (cs' ++ more)) := fun c hc => Or.inr (Option.some.inj hc).symm
    rw [List.append_assoc, List.cons_append, h.tokenize_append hperiod,
      tokenize_cons_period (h'.stops_isDigit more), ih, Option.map_map, Option.map_map]
    congr 1
    funext us
    simp

/-! ## Tokens -/

theorem SpellsPart.isName (h : SpellsPart cs ts n) : IsName ts n := by
  cases h with
  | word | quoted => exact .word rfl
  | bracketed _ hts => exact .bracketed hts

theorem SpellsPart.run_name (h : SpellsPart cs ts n) (rest : List Token) :
    name.run (ts ++ rest) = (some n, rest) :=
  run_name_iff.2 ⟨ts, rfl, h.isName⟩

/-- The first token of a spelling is no blank. It may be a bare word, which begins the spelling
or is all of it. -/
theorem SpellsPart.exists_cons (h : SpellsPart cs ts n) :
    ∃ t us, ts = t :: us ∧ t.isBlank = false ∧ (t.bareWord? = none ∨ us = []) := by
  cases h with
  | word => exact ⟨_, _, rfl, rfl, Or.inr rfl⟩
  | quoted | bracketed => exact ⟨_, _, rfl, rfl, Or.inl rfl⟩

theorem Spells.exists_cons (h : Spells cs ts n) :
    ∃ t us, ts = t :: us ∧ t.isBlank = false ∧
      (t.bareWord? = none ∨ us = [] ∨ ∃ vs, us = .mark .period :: vs) := by
  cases h with
  | part h =>
    obtain ⟨t, us, hts, ht, hus⟩ := h.exists_cons
    exact ⟨t, us, hts, ht, hus.imp_right Or.inl⟩
  | @qualified _ _ _ ts' _ _ h h' =>
    obtain ⟨t, us, rfl, ht, hus⟩ := h.exists_cons
    refine ⟨t, us ++ .mark .period :: ts', rfl, ht, hus.imp_right fun hnil => Or.inr ⟨ts', ?_⟩⟩
    rw [hnil, List.nil_append]

theorem Spells.dropWhile_isBlank (h : Spells cs ts n) (rest : List Token) :
    (ts ++ rest).dropWhile Token.isBlank = ts ++ rest := by
  obtain ⟨t, us, rfl, ht, -⟩ := h.exists_cons
  exact dropWhile_isBlank_cons ht _

theorem Spells.exists_run_name (h : Spells cs ts n) (rest : List Token) :
    ∃ m mid, name.run (ts ++ rest) = (some m, mid) := by
  cases h with
  | part h => exact ⟨_, _, h.run_name rest⟩
  | qualified h h' =>
    rw [List.append_assoc]
    exact ⟨_, _, h.run_name _⟩

/-- **The tokens of a spelling are read as its name** where no period follows them. -/
theorem Spells.run_qualifiedName (h : Spells cs ts n) {rest : List Token}
    (hrest : (rest.dropWhile Token.isBlank).head?.any (Token.isMark .period) = false) :
    qualifiedName.run (ts ++ rest) = (some n, rest) := by
  induction h with
  | part h => rw [run_qualifiedName_of_name (h.run_name rest), run_loop_qualifiedRound _ hrest]
  | qualified h h' ih =>
    obtain ⟨m, mid, hname⟩ := h'.exists_run_name rest
    rw [List.append_assoc, List.cons_append, run_qualifiedName_of_name (h.run_name _),
      run_loop_qualifiedRound_period _ (h'.dropWhile_isBlank rest) hname, ih]

end Naming
end SchemaScript
