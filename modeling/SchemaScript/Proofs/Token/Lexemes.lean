import SchemaScript.Proofs.Text.Runs
import SchemaScript.Token.Scan

/-!
# Tokens as they are written

A token does not remember its spelling: a string has its escapes undone, a carriage return
has become a newline. A *lexeme* is a token together with the text it was read from, and
`lexemes` cuts a text into them. Where a text has tokens its lexemes carry these tokens
(`map_token_lexemes`) and make up the text again (`flatMap_written_lexemes`).
-/

namespace SchemaScript
namespace Token

/-- A token with the text it was read from. -/
structure Lexeme where
  token : Token
  written : List Char
  deriving DecidableEq, Repr

/-- The lexemes of a text, up to the first place that is no token. -/
def lexemes (cs : List Char) : List Lexeme :=
  match _h : scan? cs with
  | none => []
  | some (t, rest) => ⟨t, cs.take (cs.length - rest.length)⟩ :: lexemes rest
termination_by cs.length
decreasing_by exact length_lt_of_scan? _h

/-- What a scanned token leaves is the end of the text. -/
theorem suffix_of_scan?_eq_some {cs rest : List Char} {t : Token}
    (h : scan? cs = some (t, rest)) : rest <:+ cs := by
  cases cs with
  | nil => simp [scan?] at h
  | cons c cs => exact (suffix_of_scan? h).trans (List.suffix_cons c cs)

@[simp] theorem lexemes_nil : lexemes [] = [] := by
  rw [lexemes]
  rfl

/-- The lexemes of a text that begins with a token. -/
theorem lexemes_of_scan? {w rest : List Char} {t : Token}
    (h : scan? (w ++ rest) = some (t, rest)) :
    lexemes (w ++ rest) = ⟨t, w⟩ :: lexemes rest := by
  rw [lexemes]
  split
  · rename_i hn
    rw [h] at hn
    cases hn
  · rename_i hs
    rw [h] at hs
    cases hs
    simp

/-- A scanned token was read from something. -/
theorem exists_written {cs rest : List Char} {t : Token} (h : scan? cs = some (t, rest)) :
    ∃ w, w ≠ [] ∧ cs = w ++ rest := by
  obtain ⟨w, hw⟩ := suffix_of_scan?_eq_some h
  refine ⟨w, ?_, hw.symm⟩
  rintro rfl
  have hlt := length_lt_of_scan? h
  rw [← hw] at hlt
  simp at hlt

/-- A text with tokens is empty or begins with the first of them. -/
theorem tokenize_cons_iff {cs : List Char} {t : Token} {ts : List Token} :
    tokenize cs = some (t :: ts) ↔
      ∃ rest, scan? cs = some (t, rest) ∧ tokenize rest = some ts := by
  constructor
  · intro h
    cases cs with
    | nil => simp at h
    | cons c cs =>
      cases hs : scan? (c :: cs) with
      | none =>
        rw [tokenize_eq_none hs] at h
        cases h
      | some r =>
        obtain ⟨u, rest⟩ := r
        rw [tokenize_of_scan? hs] at h
        obtain ⟨us, hus, he⟩ := Option.map_eq_some_iff.1 h
        cases he
        exact ⟨rest, rfl, hus⟩
  · rintro ⟨rest, hs, ht⟩
    rw [tokenize_of_scan? hs, ht]
    rfl

theorem tokenize_eq_some_nil_iff {cs : List Char} : tokenize cs = some [] ↔ cs = [] := by
  constructor
  · intro h
    cases cs with
    | nil => rfl
    | cons c cs =>
      cases hs : scan? (c :: cs) with
      | none =>
        rw [tokenize_eq_none hs] at h
        cases h
      | some r =>
        rw [tokenize_of_scan? hs] at h
        obtain ⟨us, _, he⟩ := Option.map_eq_some_iff.1 h
        cases he
  · rintro rfl
    exact tokenize_nil

theorem tokenize_cons {w rest : List Char} {t : Token} {ts : List Token}
    (hs : scan? (w ++ rest) = some (t, rest)) (ht : tokenize rest = some ts) :
    tokenize (w ++ rest) = some (t :: ts) :=
  tokenize_cons_iff.2 ⟨rest, hs, ht⟩

/-- Induction along the tokens of a text, from its end. -/
@[elab_as_elim]
theorem tokenize_induction {P : ∀ cs ts, tokenize cs = some ts → Prop}
    (nil : P [] [] tokenize_nil)
    (cons : ∀ w t rest ts (hs : scan? (w ++ rest) = some (t, rest))
      (ht : tokenize rest = some ts), w ≠ [] → P rest ts ht →
        P (w ++ rest) (t :: ts) (tokenize_cons hs ht))
    {cs : List Char} {ts : List Token} (h : tokenize cs = some ts) : P cs ts h := by
  induction ts generalizing cs with
  | nil =>
    have hn := tokenize_eq_some_nil_iff.1 h
    subst hn
    exact nil
  | cons t ts ih =>
    obtain ⟨rest, hs, ht⟩ := tokenize_cons_iff.1 h
    obtain ⟨w, hw, rfl⟩ := exists_written hs
    exact cons w t rest ts hs ht hw (ih ht)

/-- The lexemes of a text carry its tokens. -/
theorem map_token_lexemes {cs : List Char} {ts : List Token} (h : tokenize cs = some ts) :
    (lexemes cs).map Lexeme.token = ts := by
  induction h using tokenize_induction with
  | nil => simp
  | cons w t rest ts hs _ _ ih => rw [lexemes_of_scan? hs, List.map_cons, ih]

/-- The lexemes of a text with tokens make up the text. -/
theorem flatMap_written_lexemes {cs : List Char} {ts : List Token}
    (h : tokenize cs = some ts) : (lexemes cs).flatMap Lexeme.written = cs := by
  induction h using tokenize_induction with
  | nil => simp
  | cons w t rest ts hs _ _ ih => rw [lexemes_of_scan? hs, List.flatMap_cons, ih]

end Token
end SchemaScript
