import SchemaScript.Token.Reader

/-!
# Readers on given tokens

Where the next token is known, a reader can be run one step at a time. The lemmas here say
what each of the single-token readers does on a token that is what it asks for, and on one
that is not; `Reader.run_bind_of_some` and `Reader.run_bind_of_none` put the steps together.
-/

namespace SchemaScript
namespace Reader

variable {α β : Type} {t : Token} {ts : List Token}

theorem run_expect_of_pos {p : Token → Bool} (h : p t = true) (ts : List Token) :
    (expect p).run (t :: ts) = (some (), ts.dropWhile Token.isBlank) := by
  simp [expect, h]

theorem run_expect_of_neg {p : Token → Bool} (h : p t = false) (ts : List Token) :
    (expect p).run (t :: ts) = (none, t :: ts) := by
  simp [expect, h]

theorem run_keyword_of_pos {k : String} (h : t.isKeyword k = true) (ts : List Token) :
    (keyword k).run (t :: ts) = (some (), ts.dropWhile Token.isBlank) :=
  run_expect_of_pos h ts

theorem run_keyword_of_neg {k : String} (h : t.isKeyword k = false) (ts : List Token) :
    (keyword k).run (t :: ts) = (none, t :: ts) :=
  run_expect_of_neg h ts

theorem run_word_of_neg {w : String} (h : t.isWord w = false) (ts : List Token) :
    (word w).run (t :: ts) = (none, t :: ts) :=
  run_expect_of_neg h ts

theorem run_mark_of_pos {m : Mark} (h : t.isMark m = true) (ts : List Token) :
    (mark m).run (t :: ts) = (some (), ts.dropWhile Token.isBlank) :=
  run_expect_of_pos h ts

theorem run_mark_of_neg {m : Mark} (h : t.isMark m = false) (ts : List Token) :
    (mark m).run (t :: ts) = (none, t :: ts) :=
  run_expect_of_neg h ts

theorem run_seesKeyword (k : String) (t : Token) (ts : List Token) :
    (seesKeyword k).run (t :: ts) = (some (t.isKeyword k), t :: ts) := rfl

theorem run_seesWord (w : String) (t : Token) (ts : List Token) :
    (seesWord w).run (t :: ts) = (some (t.isWord w), t :: ts) := rfl

theorem run_seesAnyWord (ws : List String) (t : Token) (ts : List Token) :
    (seesAnyWord ws).run (t :: ts) = (some (ws.any t.isWord), t :: ts) := rfl

theorem run_seesMark (m : Mark) (t : Token) (ts : List Token) :
    (seesMark m).run (t :: ts) = (some (t.isMark m), t :: ts) := rfl

theorem run_token_of_some {f : Token → Option α} {a : α} (h : f t = some a) (ts : List Token) :
    (token f).run (t :: ts) = (some a, ts) := by
  simp [token, h]

theorem run_token_of_none {f : Token → Option α} (h : f t = none) (ts : List Token) :
    (token f).run (t :: ts) = (none, t :: ts) := by
  simp [token, h]

theorem run_attempt_of_some {r : Reader α} {rest : List Token} {a : α}
    (h : r.run ts = (some a, rest)) : (attempt r).run ts = (some (some a), rest) := by
  rw [run_attempt, h]

theorem run_attempt_of_none {r : Reader α} (h : (r.run ts).1 = none) :
    (attempt r).run ts = (some none, ts) := by
  rw [run_attempt]
  generalize r.run ts = rr at *
  obtain ⟨a, rest⟩ := rr
  cases h
  rfl

theorem run_possibly_of_eq {r : Reader α} {rest : List Token} {a : Option α}
    (h : r.run ts = (a, rest)) : (possibly r).run ts = (some a, rest) := by
  rw [run_possibly, h]

theorem dropWhile_isBlank_cons (h : t.isBlank = false) (ts : List Token) :
    (t :: ts).dropWhile Token.isBlank = t :: ts := by
  rw [List.dropWhile_cons_of_neg (by simp [h])]

theorem dropWhile_isBlank_blank (kind : Blank) (ts : List Token) :
    (Token.blank kind :: ts).dropWhile Token.isBlank = ts.dropWhile Token.isBlank := rfl

/-- Sequences may be regrouped. -/
theorem bind_bind {γ : Type} (r : Reader α) (f : α → Reader β) (g : β → Reader γ) :
    r >>= f >>= g = r >>= fun a => f a >>= g := by
  have hrun : ∀ ts, (r >>= f >>= g).run ts = (r >>= fun a => f a >>= g).run ts := by
    intro ts
    simp only [run_bind]
    cases r.run ts with
    | mk a rest => cases a <;> rfl
  exact (Reader.mk.injEq ..).mpr (funext hrun)

/-! ## Readers that have answered -/

/-- Where a sequence has answered, its parts have, one behind the other. -/
theorem exists_of_run_bind {r : Reader α} {f : α → Reader β} {b : β} {rest : List Token}
    (h : (r >>= f).run ts = (some b, rest)) :
    ∃ a mid, r.run ts = (some a, mid) ∧ (f a).run mid = (some b, rest) := by
  rw [run_bind] at h
  split at h
  · rename_i a mid hr
    exact ⟨a, mid, hr, h⟩
  · cases h

/-- A token that was asked for and taken. -/
theorem exists_of_run_expect {p : Token → Bool} {rest : List Token}
    (h : (expect p).run ts = (some (), rest)) :
    ∃ t us, ts = t :: us ∧ p t = true ∧ rest = us.dropWhile Token.isBlank := by
  cases ts with
  | nil => cases h
  | cons t us =>
    cases ht : p t with
    | true =>
      rw [run_expect_of_pos ht] at h
      cases h
      exact ⟨t, us, rfl, ht, rfl⟩
    | false =>
      rw [run_expect_of_neg ht] at h
      cases h

/-! ## Loops -/

variable {σ : Type}

/-- A round that goes on, having taken a token. -/
theorem run_loop_inl {step : σ → Reader (σ ⊕ β)} {s s' : σ} {rest : List Token}
    (h : (step s).run ts = (some (.inl s'), rest)) (hlt : rest.length < ts.length) :
    (loop step s).run ts = (loop step s').run rest := by
  rw [run_loop, h]
  exact if_pos hlt

/-- A round that answers. -/
theorem run_loop_inr {step : σ → Reader (σ ⊕ β)} {s : σ} {b : β} {rest : List Token}
    (h : (step s).run ts = (some (.inr b), rest)) : (loop step s).run ts = (some b, rest) := by
  rw [run_loop, h]

/-- A loop that has answered has done so in its first round, or behind it. -/
theorem exists_of_run_loop {step : σ → Reader (σ ⊕ β)} {s : σ} {b : β} {rest : List Token}
    (h : (loop step s).run ts = (some b, rest)) :
    (step s).run ts = (some (.inr b), rest) ∨ ∃ s' mid, (step s).run ts = (some (.inl s'), mid) ∧
      (loop step s').run mid = (some b, rest) := by
  rw [run_loop] at h
  split at h
  · rename_i hround
    cases h
    exact Or.inl hround
  · cases h
  · rename_i s' mid hround
    split at h
    · exact Or.inr ⟨s', mid, hround, h⟩
    · cases h

/-- What is shorter than the tokens without the blanks in front is shorter than all of them. -/
theorem length_lt_of_dropWhile {ts more rest : List Token}
    (h : ts.dropWhile Token.isBlank = more) (hlt : rest.length < more.length) :
    rest.length < ts.length := by
  have hle := (List.dropWhile_suffix (l := ts) Token.isBlank).length_le
  rw [h] at hle
  omega

/-! ## Names -/

/-- A token with the text of a word is no mark. -/
theorem isMark_of_wordText? {n : String} (h : t.wordText? = some n) (m : Mark) :
    t.isMark m = false := by
  cases t <;> first | rfl | cases h

theorem isBlank_of_wordText? {n : String} (h : t.wordText? = some n) : t.isBlank = false := by
  cases t <;> first | rfl | cases h

theorem run_name {n : String} (h : t.wordText? = some n) (ts : List Token) :
    name.run (t :: ts) = (some n, ts) := by
  simp [name, h]

end Reader
end SchemaScript
