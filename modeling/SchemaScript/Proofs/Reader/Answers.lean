import SchemaScript.Token.Reader

/-!
# What a reader can answer

`Answers p r` says that every answer of the reader `r` has the property `p`, whatever the tokens
are. It goes through sequences of readers, and through a loop whose rounds keep an invariant
(`answers_loop`). A reader is *total* if it always answers.
-/

namespace SchemaScript
namespace Reader

variable {α β σ : Type} {p : α → Prop} {q : β → Prop}

/-- Whether every answer of the reader has the property. -/
def Answers (p : α → Prop) (r : Reader α) : Prop :=
  ∀ ts a, (r.run ts).1 = some a → p a

theorem answers_pure {a : α} (h : p a) : Answers p (pure a : Reader α) := by
  intro ts b hb
  rw [← Option.some.inj hb]
  exact h

theorem answers_answer {a : α} (h : p a) : Answers p (answer a) :=
  answers_pure h

theorem answers_fail : Answers p (fail : Reader α) := by
  intro ts b hb
  cases hb

theorem answers_token {f : Token → Option α} (h : ∀ t a, f t = some a → p a) :
    Answers p (token f) := by
  intro ts a ha
  cases ts with
  | nil => cases ha
  | cons t ts =>
    cases hf : f t with
    | none =>
      simp [token, hf] at ha
    | some b =>
      simp only [token, hf, Option.some.injEq] at ha
      exact ha ▸ h t b hf

theorem Answers.attempt {r : Reader α} (h : Answers p r) :
    Answers (fun a => ∀ b ∈ a, p b) (attempt r) := by
  intro ts a ha b hb
  rw [run_attempt] at ha
  cases hrun : r.run ts with
  | mk c rest =>
    rw [hrun] at ha
    cases c with
    | none =>
      rw [← Option.some.inj ha] at hb
      cases hb
    | some c =>
      rw [← Option.some.inj ha] at hb
      rw [← Option.some.inj hb]
      exact h ts c (by rw [hrun])

/-- What answers behind a reader may depend on what that reader answers. -/
theorem Answers.bind {r : Reader α} {f : α → Reader β} (hr : Answers p r)
    (h : ∀ a, p a → Answers q (f a)) : Answers q (r >>= f) := by
  intro ts b hb
  rw [run_bind] at hb
  cases hrun : r.run ts with
  | mk a rest =>
    rw [hrun] at hb
    cases a with
    | none => cases hb
    | some a => exact h a (hr ts a (by rw [hrun])) rest b hb

/-- What answers behind any reader. -/
theorem answers_bind {r : Reader α} {f : α → Reader β} (h : ∀ a, Answers q (f a)) :
    Answers q (r >>= f) :=
  Answers.bind (p := fun _ => True) (fun _ _ _ => trivial) fun a _ => h a

/-- A loop answers what its last round does, in a state that the rounds have kept the invariant
of. -/
theorem answers_loop {step : σ → Reader (σ ⊕ β)} {p : σ → Prop}
    (h : ∀ s, p s → Answers (Sum.elim p q) (step s)) {s : σ} (hs : p s) :
    Answers q (loop step s) := by
  intro ts
  induction hn : ts.length using Nat.strongRecOn generalizing s ts with
  | _ n ih =>
    intro b hb
    rw [run_loop] at hb
    cases hrun : (step s).run ts with
    | mk a rest =>
      rw [hrun] at hb
      cases a with
      | none => cases hb
      | some a =>
        have hround := h s hs ts a (by rw [hrun])
        cases a with
        | inr c =>
          rw [← Option.some.inj hb]
          exact hround
        | inl s' =>
          dsimp only at hb
          split at hb
          · rename_i hlt
            exact ih rest.length (hn ▸ hlt) hround rest rfl b hb
          · cases hb

/-! ## Readers that always answer -/

/-- Whether the reader answers, whatever the tokens are. -/
def Total (r : Reader α) : Prop :=
  ∀ ts, (r.run ts).1.isSome = true

theorem Total.exists_run {r : Reader α} (hr : Total r) (ts : List Token) :
    ∃ a rest, r.run ts = (some a, rest) := by
  obtain ⟨a, ha⟩ := Option.isSome_iff_exists.1 (hr ts)
  exact ⟨a, _, Prod.ext ha rfl⟩

theorem Total.bind {r : Reader α} {f : α → Reader β} (hr : Total r) (hf : ∀ a, Total (f a)) :
    Total (r >>= f) := by
  intro ts
  obtain ⟨a, rest, h⟩ := hr.exists_run ts
  rw [run_bind_of_some h]
  exact hf a rest

theorem total_pure (a : α) : Total (pure a : Reader α) := fun _ => rfl

theorem total_possibly (r : Reader α) : Total (possibly r) := fun _ => rfl

theorem total_attempt (r : Reader α) : Total (attempt r) := by
  intro ts
  rw [run_attempt]
  split <;> rfl

theorem total_sees (p : Token → Bool) : Total (sees p) := fun _ => rfl

theorem total_advance : Total advance := fun _ => rfl

theorem total_advancePastBlanks : Total advancePastBlanks := fun _ => rfl

theorem total_skipParenthesized : Total skipParenthesized := by
  refine Total.bind (fun ts => ?_) fun _ => total_pure ()
  rw [parenthesized]
  dsimp only
  split <;> rfl

theorem total_skipNameOrString : Total skipNameOrString := by
  refine (total_possibly name).bind fun n => ?_
  cases n with
  | some _ => exact total_pure ()
  | none => exact (total_possibly stringLiteral).bind fun _ => total_pure ()

end Reader
end SchemaScript
