import SchemaScript.Proofs.Reader.Steps
import SchemaScript.Proofs.Reader.Trailing

/-!
# Names, lists of names and qualified names

A name is one word, or the tokens from an open bracket up to the first closing one (`IsName`). It
is read off these tokens whatever stands behind them (`run_name_iff`), and what is no name is left
as it is. Names in parentheses with commas between them are read one by one, whatever tokens they
are written with (`run_nameList`). A round of the reader takes a name with the comma behind it, and
the last round takes the closing parenthesis. The last part of a qualified name is what stands
behind its last period: a period begins the name anew, and where none follows it ends.
-/

namespace SchemaScript
namespace Reader

open Token (isMark_iff)

variable {t : Token} {ts us : List Token} {n : String}

/-! ## Names -/

/-- What is read up to a closing bracket is what stands in front of the first one. -/
theorem splitBracketed_eq_some_iff {a rest : List Token} :
    splitBracketed ts = some (a, rest) ↔
      ts = a ++ .mark .closeBracket :: rest ∧ .mark .closeBracket ∉ a := by
  induction ts generalizing a with
  | nil => simp [splitBracketed]
  | cons t ts ih =>
    rw [splitBracketed]
    by_cases hclose : t.isMark .closeBracket = true
    · rw [if_pos hclose]
      obtain rfl := isMark_iff.1 hclose
      constructor
      · intro h
        cases h
        exact ⟨rfl, List.not_mem_nil⟩
      · rintro ⟨h, ha⟩
        cases a with
        | nil =>
          cases h
          rfl
        | cons u a =>
          obtain ⟨rfl, -⟩ := List.cons.inj h
          exact absurd List.mem_cons_self ha
    · rw [if_neg hclose, Option.map_eq_some_iff]
      constructor
      · rintro ⟨⟨b, rest'⟩, hb, heq⟩
        cases heq
        obtain ⟨rfl, hnot⟩ := ih.1 hb
        refine ⟨rfl, ?_⟩
        rw [List.mem_cons, not_or]
        exact ⟨fun h => hclose (isMark_iff.2 h.symm), hnot⟩
      · rintro ⟨h, ha⟩
        cases a with
        | nil =>
          obtain ⟨rfl, -⟩ := List.cons.inj h
          exact absurd rfl hclose
        | cons u a =>
          obtain ⟨rfl, rfl⟩ := List.cons.inj h
          exact ⟨(a, rest), ih.2 ⟨rfl, fun h => ha (List.mem_cons_of_mem _ h)⟩, rfl⟩

/-- The tokens of a name. -/
inductive IsName : List Token → String → Prop where
  | word {t : Token} {n : String} (h : t.wordText? = some n) : IsName [t] n
  | bracketed {ts : List Token} (h : .mark .closeBracket ∉ ts) :
    IsName (.mark .openBracket :: (ts ++ [.mark .closeBracket])) (bracketedName ts)

/-- **A name is read off the tokens of a name** and off nothing else. -/
theorem run_name_iff {rest : List Token} :
    name.run ts = (some n, rest) ↔ ∃ us, ts = us ++ rest ∧ IsName us n := by
  constructor
  · intro h
    cases ts with
    | nil => cases h
    | cons t ts =>
      rw [name] at h
      dsimp only at h
      split at h
      · rename_i text htext
        cases h
        exact ⟨[t], rfl, .word htext⟩
      split at h
      · rename_i hopen
        obtain rfl := isMark_iff.1 hopen
        split at h
        · rename_i r hr
          cases h
          obtain ⟨rfl, hnot⟩ := splitBracketed_eq_some_iff.1 hr
          refine ⟨_, ?_, .bracketed hnot⟩
          simp
        · cases h
      · cases h
  · rintro ⟨us, rfl, h⟩
    cases h with
    | word h => exact run_name h rest
    | @bracketed us h =>
      have hsplit : splitBracketed (us ++ .mark .closeBracket :: rest) = some (us, rest) :=
        splitBracketed_eq_some_iff.2 ⟨rfl, h⟩
      rw [List.cons_append, List.append_assoc, List.singleton_append]
      simp only [name, hsplit]
      rfl

theorem IsName.isBlank_head (h : IsName us n) (rest : List Token) :
    ∀ t ∈ (us ++ rest).head?, t.isBlank = false := by
  cases h with
  | word h =>
    rintro u ⟨⟩
    exact isBlank_of_wordText? h
  | bracketed =>
    rintro u ⟨⟩
    rfl

/-- A name that is read up to some tokens is read without them. -/
theorem run_name_of_append {rest : List Token}
    (h : name.run (ts ++ rest) = (some n, rest)) : name.run ts = (some n, []) := by
  obtain ⟨us, hus, hn⟩ := run_name_iff.1 h
  obtain rfl := List.append_cancel_right hus
  exact run_name_iff.2 ⟨ts, (List.append_nil ts).symm, hn⟩

/-- A name that is there is read in front of any tokens. -/
theorem run_name_append {rest : List Token} (h : name.run ts = (some n, rest))
    (more : List Token) : name.run (ts ++ more) = (some n, rest ++ more) := by
  obtain ⟨us, rfl, hn⟩ := run_name_iff.1 h
  exact run_name_iff.2 ⟨us, List.append_assoc .., hn⟩

/-- What is no name is left as it is. -/
theorem run_name_of_none {rest : List Token} (h : name.run ts = (none, rest)) : rest = ts := by
  cases ts with
  | nil =>
    cases h
    rfl
  | cons t ts =>
    rw [name] at h
    dsimp only at h
    split at h
    · cases h
    split at h
    · split at h
      · cases h
      · cases h
        rfl
    · cases h
      rfl

/-! ## Lists of names -/

/-- The tokens of names with commas between them, `f` being the token of a name. -/
def nameTokens (f : String → Token) : List String → List Token
  | [] => []
  | [n] => [f n]
  | n :: m :: ns => f n :: .mark .comma :: .blank .space :: nameTokens f (m :: ns)

/-- A name in a list, with the token behind it. -/
theorem run_nameListRound {n : String} (ht : t.wordText? = some n) {u : Token}
    (hu : u.isBlank = false) (hopen : u.isMark .openParen = false)
    (horder : (["ASC", "DESC"].any u.isWord) = false) (names : List String)
    {rest : List Token} (hts : ts.dropWhile Token.isBlank = t :: u :: rest) :
    (nameListRound names).run ts = (nameSeparator (names ++ [n])).run (u :: rest) := by
  have hsees : (seesMark .closeParen).run (t :: u :: rest) = (some false, t :: u :: rest) := by
    rw [run_seesMark, isMark_of_wordText? ht]
  have hlength : skipLength.run (u :: rest) = (some (), u :: rest) := by
    have hs : (seesMark .openParen).run (u :: rest) = (some false, u :: rest) := by
      rw [run_seesMark, hopen]
    rw [skipLength, run_bind_of_some hs]
    rfl
  have horder' : skipOrder.run (u :: rest) = (some (), u :: rest) := by
    have hs : (seesAnyWord ["ASC", "DESC"]).run (u :: rest) = (some false, u :: rest) := by
      rw [run_seesAnyWord, horder]
    rw [skipOrder, run_bind_of_some hs]
    rfl
  rw [nameListRound, run_bind_of_some (run_skipBlanks _), hts, run_bind_of_some hsees]
  show Reader.run (do
    let n ← name
    skipBlanks
    skipLength
    skipOrder
    nameSeparator (names ++ [n])) (t :: u :: rest) = _
  rw [run_bind_of_some (run_name ht _), run_bind_of_some (run_skipBlanks _),
    dropWhile_isBlank_cons hu, run_bind_of_some hlength, run_bind_of_some horder']

/-- A list of names begins with no blank. -/
theorem dropWhile_nameTokens {f : String → Token} {names : List String}
    (hf : ∀ n ∈ names, (f n).wordText? = some n) (rest : List Token) :
    (nameTokens f names ++ .mark .closeParen :: rest).dropWhile Token.isBlank =
      nameTokens f names ++ .mark .closeParen :: rest := by
  cases names with
  | nil => rfl
  | cons n ns =>
    have hn : (f n).isBlank = false := isBlank_of_wordText? (hf n List.mem_cons_self)
    cases ns with
    | nil => exact dropWhile_isBlank_cons hn _
    | cons m ms => exact dropWhile_isBlank_cons hn _

/-- The rounds of a list of names, up to its closing parenthesis. -/
theorem run_loop_nameListRound {f : String → Token} {names : List String}
    (hf : ∀ n ∈ names, (f n).wordText? = some n) (rest : List Token) (acc : List String)
    {ts : List Token}
    (hts : ts.dropWhile Token.isBlank = nameTokens f names ++ .mark .closeParen :: rest) :
    (loop nameListRound acc).run ts = (some (acc ++ names), rest) := by
  have hend : ∀ (acc : List String) (us : List Token),
      us.dropWhile Token.isBlank = .mark .closeParen :: rest →
        (loop nameListRound acc).run us = (some acc, rest) := by
    intro acc us hus
    refine run_loop_inr ?_
    rw [nameListRound, run_bind_of_some (run_skipBlanks _), hus]
    rfl
  induction names generalizing acc ts with
  | nil =>
    rw [List.append_nil]
    exact hend acc ts hts
  | cons n ns ih =>
    have hn := hf n List.mem_cons_self
    have hns := fun m hm => hf m (List.mem_cons_of_mem n hm)
    have hacc : acc ++ n :: ns = acc ++ [n] ++ ns := by simp
    cases ns with
    | nil =>
      have hround : (nameListRound acc).run ts =
          (some (.inl (acc ++ [n])), .mark .closeParen :: rest) := by
        rw [run_nameListRound hn rfl rfl rfl acc hts]
        rfl
      rw [run_loop_inl hround (length_lt_of_dropWhile hts (by simp [nameTokens])), hacc]
      rw [List.append_nil]
      exact hend (acc ++ [n]) (.mark .closeParen :: rest) rfl
    | cons m ms =>
      have hround : (nameListRound acc).run ts =
          (some (.inl (acc ++ [n])), .blank .space ::
            (nameTokens f (m :: ms) ++ .mark .closeParen :: rest)) := by
        rw [run_nameListRound hn rfl rfl rfl acc hts]
        rfl
      rw [run_loop_inl hround (length_lt_of_dropWhile hts (by simp [nameTokens])), hacc]
      refine ih hns (acc ++ [n]) ?_
      rw [dropWhile_isBlank_blank]
      exact dropWhile_nameTokens hns rest

/-- **A list of names is read as it is written.** -/
theorem run_nameList {f : String → Token} {names : List String}
    (hf : ∀ n ∈ names, (f n).wordText? = some n) (rest : List Token) :
    nameList.run (.mark .openParen :: (nameTokens f names ++ .mark .closeParen :: rest)) =
      (some names, rest) := by
  rw [nameList, run_bind_of_some (run_mark_of_pos rfl _)]
  refine run_loop_nameListRound hf rest [] ?_
  rw [dropWhile_nameTokens hf, dropWhile_nameTokens hf]

/-! ## Qualified names -/

/-- One more part of a qualified name, or the end of the name. -/
def qualifiedRound (last : String) : Reader (String ⊕ String) := do
  match ← attempt qualifiedPart with
  | some part => return .inl part
  | none => return .inr last

theorem run_qualifiedRound_of_some {rest : List Token} (last : String)
    (h : qualifiedPart.run ts = (some n, rest)) :
    (qualifiedRound last).run ts = (some (.inl n), rest) := by
  rw [qualifiedRound, run_bind_of_some (run_attempt_of_some h)]
  rfl

theorem run_qualifiedRound_of_none (last : String) (h : (qualifiedPart.run ts).1 = none) :
    (qualifiedRound last).run ts = (some (.inr last), ts) := by
  rw [qualifiedRound, run_bind_of_some (run_attempt_of_none h)]
  rfl

theorem run_qualifiedName_of_name {rest : List Token}
    (h : name.run ts = (some n, rest)) :
    qualifiedName.run ts = (loop qualifiedRound n).run rest := by
  rw [qualifiedName, run_bind_of_some h]
  rfl

/-- The rounds end where no period follows. -/
theorem run_loop_qualifiedRound (last : String)
    (hts : (ts.dropWhile Token.isBlank).head?.any (Token.isMark .period) = false) :
    (loop qualifiedRound last).run ts = (some last, ts) := by
  have hpart : (qualifiedPart.run ts).1 = none := by
    have hsees : (seesMark .period).run (ts.dropWhile Token.isBlank) =
        (some false, ts.dropWhile Token.isBlank) := by
      rw [seesMark, run_sees, hts]
    rw [qualifiedPart, run_bind_of_some (run_skipBlanks ts), run_bind_of_some hsees]
    rfl
  exact run_loop_inr (run_qualifiedRound_of_none last hpart)

/-- Behind a period the name begins anew, and what stands in front of it is forgotten. -/
theorem run_loop_qualifiedRound_period (last : String) {n : String} {rest : List Token}
    (hts : ts.dropWhile Token.isBlank = ts) (h : name.run ts = (some n, rest)) :
    (loop qualifiedRound last).run (.mark .period :: ts) = qualifiedName.run ts := by
  have hpart : qualifiedPart.run (.mark .period :: ts) = (some n, rest) := by
    have hadvance : advancePastBlanks.run (.mark .period :: ts) = (some (), ts) :=
      congrArg (some (), ·) hts
    rw [qualifiedPart, run_bind_of_some (run_skipBlanks _), dropWhile_isBlank_cons rfl,
      run_bind_of_some (run_seesMark _ _ _)]
    exact (run_bind_of_some hadvance _).trans h
  have hlt : rest.length < (Token.mark .period :: ts).length := by
    have hle := (name.rest_suffix ts).length_le
    rw [h] at hle
    exact Nat.lt_succ_of_le hle
  rw [run_loop_inl (run_qualifiedRound_of_some last hpart) hlt, run_qualifiedName_of_name h]

/-- A qualified name ends where no period follows it. -/
theorem run_qualifiedName {n : String} (ht : t.wordText? = some n)
    (hts : (ts.dropWhile Token.isBlank).head?.any (Token.isMark .period) = false) :
    qualifiedName.run (t :: ts) = (some n, ts) := by
  rw [run_qualifiedName_of_name (run_name ht ts), run_loop_qualifiedRound n hts]

end Reader
end SchemaScript
