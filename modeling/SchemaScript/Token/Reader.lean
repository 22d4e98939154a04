import SchemaScript.Text.Blank
import SchemaScript.Token.Basic

/-!
# Readers of tokens

A `Reader` takes tokens from the front of a list and may answer with a value. Whether it
answers or not, it leaves an end of the list it was given, and this is part of the type:
no reader gives tokens back, so a loop of readers ends as soon as each round takes one.

Failure does not undo what was taken. A clause that breaks off in the middle leaves the
tokens behind the break to whoever reads next, and column modifiers depend on that. A
reader that shall leave everything as it was on failure says so by `Reader.attempt`.

## Loops

`Reader.loop step s` repeats `step` from the state `s` until it answers or fails. A round
that goes on without having taken a token would repeat itself forever; it counts as
failure, which makes every loop total. The rounds used in this library all take a token.
-/

namespace SchemaScript

/-- Takes tokens from the front of a list and may answer with a value. -/
structure Reader (α : Type) where
  /-- The answer, if any, and the tokens that are left. -/
  run : List Token → Option α × List Token
  /-- What is left is the end of what was there. -/
  rest_suffix : ∀ ts, (run ts).2 <:+ ts

namespace Reader

variable {α β σ : Type}

theorem length_rest_le (r : Reader α) (ts : List Token) : (r.run ts).2.length ≤ ts.length :=
  (r.rest_suffix ts).length_le

/-! ## Combining readers -/

/-- Answers at once and takes nothing. -/
def answer (a : α) : Reader α where
  run ts := (some a, ts)
  rest_suffix _ := List.suffix_refl _

/-- Fails at once and takes nothing. -/
def fail : Reader α where
  run ts := (none, ts)
  rest_suffix _ := List.suffix_refl _

/-- Goes on with the answer of the first reader, where that one stopped. -/
def andThen (r : Reader α) (f : α → Reader β) : Reader β where
  run ts :=
    match r.run ts with
    | (some a, rest) => (f a).run rest
    | (none, rest) => (none, rest)
  rest_suffix ts := by
    have h := r.rest_suffix ts
    split
    · rename_i a rest hr
      rw [hr] at h
      exact ((f a).rest_suffix rest).trans h
    · rename_i rest hr
      rw [hr] at h
      exact h

instance : Monad Reader where
  pure := answer
  bind := andThen

/-- Turns failure into an answer; what was taken stays taken. -/
def possibly (r : Reader α) : Reader (Option α) where
  run ts := (some (r.run ts).1, (r.run ts).2)
  rest_suffix ts := r.rest_suffix ts

/-- Turns failure into an answer and gives back what was taken. -/
def attempt (r : Reader α) : Reader (Option α) where
  run ts :=
    match r.run ts with
    | (some a, rest) => (some (some a), rest)
    | (none, _) => (some none, ts)
  rest_suffix ts := by
    have h := r.rest_suffix ts
    split
    · rename_i a rest hr
      rw [hr] at h
      exact h
    · exact List.suffix_refl _

/-- Answers with the value, or fails if there is none. -/
def ofOption : Option α → Reader α
  | some a => answer a
  | none => fail

/-- What a loop does with the tokens: it repeats `step` until that answers or fails. -/
def loopRun (step : σ → Reader (σ ⊕ β)) (s : σ) (ts : List Token) : Option β × List Token :=
  match (step s).run ts with
  | (some (.inr b), rest) => (some b, rest)
  | (none, rest) => (none, rest)
  | (some (.inl s'), rest) =>
    if rest.length < ts.length then loopRun step s' rest else (none, rest)
termination_by ts.length

theorem loopRun_suffix (step : σ → Reader (σ ⊕ β)) (s : σ) (ts : List Token) :
    (loopRun step s ts).2 <:+ ts := by
  fun_induction loopRun step s ts with
  | case1 s ts b rest h => have := (step s).rest_suffix ts; rwa [h] at this
  | case2 s ts rest h => have := (step s).rest_suffix ts; rwa [h] at this
  | case3 s ts s' rest h _ ih =>
    have := (step s).rest_suffix ts
    rw [h] at this
    exact ih.trans this
  | case4 s ts s' rest h _ => have := (step s).rest_suffix ts; rwa [h] at this

/-- Repeats `step` until it answers or fails. -/
def loop (step : σ → Reader (σ ⊕ β)) (s : σ) : Reader β where
  run := loopRun step s
  rest_suffix := loopRun_suffix step s

@[simp] theorem run_pure (a : α) (ts : List Token) : (pure a : Reader α).run ts = (some a, ts) :=
  rfl

@[simp] theorem run_answer (a : α) (ts : List Token) : (answer a).run ts = (some a, ts) := rfl

@[simp] theorem run_fail (ts : List Token) : (fail : Reader α).run ts = (none, ts) := rfl

theorem run_bind (r : Reader α) (f : α → Reader β) (ts : List Token) :
    (r >>= f).run ts =
      match r.run ts with
      | (some a, rest) => (f a).run rest
      | (none, rest) => (none, rest) := rfl

/-- Going on behind an answer. -/
theorem run_bind_of_some {r : Reader α} {ts rest : List Token} {a : α}
    (h : r.run ts = (some a, rest)) (f : α → Reader β) :
    (r >>= f).run ts = (f a).run rest := by
  rw [run_bind, h]

/-- Nothing goes on behind a failure. -/
theorem run_bind_of_none {r : Reader α} {ts rest : List Token}
    (h : r.run ts = (none, rest)) (f : α → Reader β) :
    (r >>= f).run ts = (none, rest) := by
  rw [run_bind, h]

@[simp] theorem run_possibly (r : Reader α) (ts : List Token) :
    (possibly r).run ts = (some (r.run ts).1, (r.run ts).2) := rfl

theorem run_attempt (r : Reader α) (ts : List Token) :
    (attempt r).run ts =
      match r.run ts with
      | (some a, rest) => (some (some a), rest)
      | (none, _) => (some none, ts) := rfl

@[simp] theorem run_ofOption_some (a : α) (ts : List Token) :
    (ofOption (some a)).run ts = (some a, ts) := rfl

@[simp] theorem run_ofOption_none (ts : List Token) :
    (ofOption (none : Option α)).run ts = (none, ts) := rfl

/-- One round of a loop. -/
theorem run_loop (step : σ → Reader (σ ⊕ β)) (s : σ) (ts : List Token) :
    (loop step s).run ts =
      match (step s).run ts with
      | (some (.inr b), rest) => (some b, rest)
      | (none, rest) => (none, rest)
      | (some (.inl s'), rest) =>
        if rest.length < ts.length then (loop step s').run rest else (none, rest) := by
  show loopRun step s ts = _
  rw [loopRun]
  rfl

/-! ## Single tokens -/

/-- Takes blanks and comments. -/
def skipBlanks : Reader Unit where
  run ts := (some (), ts.dropWhile Token.isBlank)
  rest_suffix _ := List.dropWhile_suffix _

/-- The next token, without taking it. -/
def peek : Reader (Option Token) where
  run ts := (some ts.head?, ts)
  rest_suffix _ := List.suffix_refl _

/-- The first token behind the next one that is not blank, without taking anything. -/
def peekSecond : Reader (Option Token) where
  run ts := (some (ts.tail.dropWhile Token.isBlank).head?, ts)
  rest_suffix _ := List.suffix_refl _

/-- Whether the next token has a property. -/
def sees (p : Token → Bool) : Reader Bool where
  run ts := (some (ts.head?.any p), ts)
  rest_suffix _ := List.suffix_refl _

/-- Whether no token is left. -/
def atEnd : Reader Bool where
  run ts := (some ts.isEmpty, ts)
  rest_suffix _ := List.suffix_refl _

/-- Takes a token, if there is one. -/
def advance : Reader Unit where
  run ts := (some (), ts.tail)
  rest_suffix ts := List.tail_suffix ts

/-- Takes a token and the blanks behind it. -/
def advancePastBlanks : Reader Unit where
  run ts := (some (), ts.tail.dropWhile Token.isBlank)
  rest_suffix ts := (List.dropWhile_suffix _).trans (List.tail_suffix ts)

/-- Takes a token and answers what `f` makes of it; fails, and takes nothing, if `f` makes
nothing of it. -/
def token (f : Token → Option α) : Reader α where
  run ts :=
    match ts with
    | [] => (none, [])
    | t :: rest =>
      match f t with
      | some a => (some a, rest)
      | none => (none, t :: rest)
  rest_suffix ts := by
    cases ts with
    | nil => exact List.suffix_refl _
    | cons t rest =>
      cases h : f t with
      | none => simp [h]
      | some a => simp [h]

/-- Takes a token with a property and the blanks behind it; fails, and takes nothing, on
any other. -/
def expect (p : Token → Bool) : Reader Unit where
  run ts :=
    match ts with
    | [] => (none, [])
    | t :: rest => if p t then (some (), rest.dropWhile Token.isBlank) else (none, t :: rest)
  rest_suffix ts := by
    cases ts with
    | nil => exact List.suffix_refl _
    | cons t rest =>
      by_cases h : p t
      · simpa [h] using (List.dropWhile_suffix _).trans (List.suffix_cons t rest)
      · simp [h]

/-- Takes the keyword and the blanks behind it. -/
def keyword (k : String) : Reader Unit :=
  expect (Token.isKeyword k)

/-- Takes the bare word and the blanks behind it. -/
def word (w : String) : Reader Unit :=
  expect (Token.isWord w)

/-- Takes the punctuation mark and the blanks behind it. -/
def mark (m : Mark) : Reader Unit :=
  expect (Token.isMark m)

/-- Whether the next token is the keyword. -/
def seesKeyword (k : String) : Reader Bool :=
  sees (Token.isKeyword k)

/-- Whether the next token is the bare word. -/
def seesWord (w : String) : Reader Bool :=
  sees (Token.isWord w)

/-- Whether the next token is one of the bare words. -/
def seesAnyWord (ws : List String) : Reader Bool :=
  sees fun t => ws.any t.isWord

/-- Whether the next token is the punctuation mark. -/
def seesMark (m : Mark) : Reader Bool :=
  sees (Token.isMark m)

/-- The value of a string literal. -/
def stringLiteral : Reader String :=
  token Token.stringValue?

/-- The text of a number. -/
def number : Reader String :=
  token Token.numberText?

/-! ## Parentheses -/

/-- The tokens up to where `depth` more parentheses have been closed than opened, and the
tokens behind them; all tokens if that never happens. The count starts at a parenthesis
that is about to open, with depth 0. -/
def splitClosed (depth : Nat) : List Token → List Token × List Token
  | [] => ([], [])
  | t :: ts =>
    if t.isMark .openParen then
      let r := splitClosed (depth + 1) ts
      (t :: r.1, r.2)
    else if t.isMark .closeParen then
      if depth ≤ 1 then ([t], ts)
      else
        let r := splitClosed (depth - 1) ts
        (t :: r.1, r.2)
    else
      let r := splitClosed depth ts
      (t :: r.1, r.2)

/-- Splitting loses no token. -/
theorem splitClosed_append (depth : Nat) (ts : List Token) :
    (splitClosed depth ts).1 ++ (splitClosed depth ts).2 = ts := by
  induction ts generalizing depth with
  | nil => rfl
  | cons t ts ih =>
    simp only [splitClosed]
    split
    · simp [ih]
    · split
      · split
        · simp
        · simp [ih]
      · simp [ih]

/-- Takes a parenthesis with everything up to the one that closes it, and answers these
tokens. Takes nothing where no parenthesis opens, and everything where it is not closed. -/
def parenthesized : Reader (List Token) where
  run ts :=
    if ts.head?.any (Token.isMark .openParen) then
      (some (splitClosed 0 ts).1, (splitClosed 0 ts).2)
    else (some [], ts)
  rest_suffix ts := by
    split
    · exact ⟨_, splitClosed_append 0 ts⟩
    · exact List.suffix_refl _

/-- Takes what stands in parentheses, if the next token opens one. -/
def skipParenthesized : Reader Unit :=
  parenthesized >>= fun _ => answer ()

/-! ## Names -/

/-- The tokens up to a closing bracket and the tokens behind it. -/
def splitBracketed : List Token → Option (List Token × List Token)
  | [] => none
  | t :: ts =>
    if t.isMark .closeBracket then some ([], ts)
    else (splitBracketed ts).map fun r => (t :: r.1, r.2)

theorem splitBracketed_append {ts : List Token} {r : List Token × List Token}
    (h : splitBracketed ts = some r) : ∃ t, r.1 ++ t :: r.2 = ts := by
  induction ts generalizing r with
  | nil => simp [splitBracketed] at h
  | cons t ts ih =>
    simp only [splitBracketed] at h
    split at h
    · cases h; exact ⟨t, rfl⟩
    · obtain ⟨r', hr', rfl⟩ := Option.map_eq_some_iff.1 h
      obtain ⟨u, hu⟩ := ih hr'
      exact ⟨u, by simp [← hu]⟩

/-- The name that a run of tokens between square brackets spells. -/
def bracketedName (ts : List Token) : String :=
  String.ofList (Text.trim (Token.printAll ts))

/-- A name: a bare or quoted word, or whatever stands between square brackets. A bracket
that is not closed is no name. -/
def name : Reader String where
  run ts :=
    match ts with
    | [] => (none, [])
    | t :: rest =>
      match t.wordText? with
      | some text => (some text, rest)
      | none =>
        if t.isMark .openBracket then
          match splitBracketed rest with
          | some r => (some (bracketedName r.1), r.2)
          | none => (none, t :: rest)
        else (none, t :: rest)
  rest_suffix ts := by
    cases ts with
    | nil => exact List.suffix_refl _
    | cons t rest =>
      simp only
      split
      · exact List.suffix_cons _ _
      · split
        · split
          · rename_i r hr
            obtain ⟨u, hu⟩ := splitBracketed_append hr
            exact ⟨t :: (r.1 ++ [u]), by simp [← hu]⟩
          · exact List.suffix_refl _
        · exact List.suffix_refl _

/-- A period and the name behind it. -/
def qualifiedPart : Reader String := do
  skipBlanks
  let .true ← seesMark .period | fail
  advancePastBlanks
  name

/-- A name that may be qualified by others in front of it; answers its last part. A period
that no name follows is left where it is. -/
def qualifiedName : Reader String := do
  loop (fun last => do
    match ← attempt qualifiedPart with
    | some part => return .inl part
    | none => return .inr last) (← name)

/-- Takes the length in parentheses behind a name. -/
def skipLength : Reader Unit := do
  if ← seesMark .openParen then
    skipParenthesized
    skipBlanks

/-- Takes the order behind a name. -/
def skipOrder : Reader Unit := do
  if ← seesAnyWord ["ASC", "DESC"] then
    advancePastBlanks

/-- What may stand behind a name in a list: a comma, which is taken, or the closing
parenthesis, which is left. -/
def nameSeparator (names : List String) : Reader (List String ⊕ List String) := do
  if ← seesMark .comma then
    advance
    return .inl names
  else if ← seesMark .closeParen then
    return .inl names
  else
    fail

/-- One round of a list of names: the closing parenthesis, or a name with its length, its
order and the comma behind it. -/
def nameListRound (names : List String) : Reader (List String ⊕ List String) := do
  skipBlanks
  if ← seesMark .closeParen then
    advance
    return .inr names
  else
    let n ← name
    skipBlanks
    skipLength
    skipOrder
    nameSeparator (names ++ [n])

/-- Names in parentheses with commas between them. A length in parentheses and an order
behind a name are passed over. -/
def nameList : Reader (List String) := do
  mark .openParen
  loop nameListRound []

/-- Takes a name or a string literal, if the next token is one. -/
def skipNameOrString : Reader Unit := do
  match ← possibly name with
  | some _ => return ()
  | none => let _ ← possibly stringLiteral

@[simp] theorem run_skipBlanks (ts : List Token) :
    skipBlanks.run ts = (some (), ts.dropWhile Token.isBlank) := rfl

@[simp] theorem run_peek (ts : List Token) : peek.run ts = (some ts.head?, ts) := rfl

@[simp] theorem run_sees (p : Token → Bool) (ts : List Token) :
    (sees p).run ts = (some (ts.head?.any p), ts) := rfl

@[simp] theorem run_advance (ts : List Token) : advance.run ts = (some (), ts.tail) := rfl

@[simp] theorem run_advancePastBlanks (ts : List Token) :
    advancePastBlanks.run ts = (some (), ts.tail.dropWhile Token.isBlank) := rfl

end Reader
end SchemaScript
