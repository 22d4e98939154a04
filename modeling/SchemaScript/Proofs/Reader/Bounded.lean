import Mathlib.Data.List.DropRight
import SchemaScript.Proofs.Reader.Names

/-!
# Readers that do not look behind their tokens

What a reader does with some tokens may depend on what stands behind them. It is *bounded* on the
tokens if it does not, as long as what stands behind them has a property `q`, the blanks in front
of it aside (`Reader.Bounded`). A reader that skips blanks may take some of those behind the
tokens along, and nothing else.

Whether a reader is bounded depends on the tokens, because some readers stop only at what they
look for. A list of names is bounded if it has an end, and what stands in parentheses if they are
closed. Otherwise the property goes through the ways in which readers are put together, and a
single token is looked at without harm if no token that `q` admits is the one that is looked for
(`Excludes`).
-/

namespace SchemaScript
namespace Reader

open Token (depthAfter AllBlank)

variable {α β σ : Type} {q : List Token → Prop} {ts : List Token}

/-- All of the tokens, or all but the blanks in front. -/
def AllOrPastBlanks (more more' : List Token) : Prop :=
  more' = more ∨ more' = more.dropWhile Token.isBlank

theorem AllOrPastBlanks.dropWhile_eq {more more' : List Token} (h : AllOrPastBlanks more more') :
    more'.dropWhile Token.isBlank = more.dropWhile Token.isBlank := by
  rcases h with rfl | rfl
  · rfl
  · exact List.dropWhile_idempotent _ _

theorem AllOrPastBlanks.trans {more more₁ more₂ : List Token} (h₁ : AllOrPastBlanks more more₁)
    (h₂ : AllOrPastBlanks more₁ more₂) : AllOrPastBlanks more more₂ := by
  rcases h₂ with rfl | rfl
  · exact h₁
  · exact Or.inr h₁.dropWhile_eq

/-- On the tokens the reader does the same whatever stands behind them, as long as `q` holds of
it. -/
def Bounded (q : List Token → Prop) (r : Reader α) (ts : List Token) : Prop :=
  ∀ more, q (more.dropWhile Token.isBlank) → ∃ more', AllOrPastBlanks more more' ∧
    r.run (ts ++ more) = ((r.run ts).1, (r.run ts).2 ++ more')

/-- No blank has the property, and no token that what stands behind may begin with. -/
def Excludes (q : List Token → Prop) (p : Token → Bool) : Prop :=
  (∀ t, t.isBlank = true → p t = false) ∧ ∀ t us, q (t :: us) → p t = false

theorem Excludes.head?_any {p : Token → Bool} (h : Excludes q p) {more : List Token}
    (hmore : q (more.dropWhile Token.isBlank)) : more.head?.any p = false := by
  cases more with
  | nil => rfl
  | cons t us =>
    cases ht : t.isBlank with
    | true => exact h.1 t ht
    | false =>
      rw [dropWhile_isBlank_cons ht] at hmore
      exact h.2 t us hmore

/-! ## What stands behind -/

theorem dropWhile_append_of_cons {p : Token → Bool} {t : Token} {us : List Token}
    (h : ts.dropWhile p = t :: us) (more : List Token) :
    (ts ++ more).dropWhile p = t :: (us ++ more) := by
  rw [List.dropWhile_append, h]
  rfl

/-- What stands behind blanks is what is left when they are skipped. -/
theorem dropWhile_isBlank_append {bs : List Token} (hbs : AllBlank bs)
    (hts : ∀ t ∈ ts.head?, t.isBlank = false) : (bs ++ ts).dropWhile Token.isBlank = ts := by
  rw [List.dropWhile_append_of_pos hbs]
  cases ts with
  | nil => rfl
  | cons t ts => exact dropWhile_isBlank_cons (hts t rfl) ts

/-- What a reader that takes no blank first has answered on does not begin with one. -/
theorem isBlank_head_of_run {r : Reader α} {a : α} {rest : List Token}
    (hnil : (r.run []).1 = none) (hblank : ∀ kind us, (r.run (.blank kind :: us)).1 = none)
    (h : r.run ts = (some a, rest)) (more : List Token) :
    ∀ t ∈ (ts ++ more).head?, t.isBlank = false := by
  intro t ht
  cases ts with
  | nil =>
    rw [h] at hnil
    cases hnil
  | cons u us =>
    obtain rfl : u = t := Option.some.inj ht
    cases u with
    | blank kind =>
      have hnone := hblank kind us
      rw [h] at hnone
      cases hnone
    | _ => rfl

/-! ## Combining readers -/

theorem bounded_pure (a : α) (ts : List Token) : Bounded q (pure a : Reader α) ts :=
  fun more _ => ⟨more, Or.inl rfl, rfl⟩

theorem bounded_answer (a : α) (ts : List Token) : Bounded q (answer a) ts :=
  bounded_pure a ts

theorem bounded_fail (ts : List Token) : Bounded q (fail : Reader α) ts :=
  fun more _ => ⟨more, Or.inl rfl, rfl⟩

theorem Bounded.bind {r : Reader α} {f : α → Reader β} (hr : Bounded q r ts)
    (hf : ∀ a rest, r.run ts = (some a, rest) → Bounded q (f a) rest) :
    Bounded q (r >>= f) ts := by
  intro more hmore
  obtain ⟨more₁, h₁, hrun⟩ := hr more hmore
  rw [run_bind, run_bind, hrun]
  cases hts : r.run ts with
  | mk a rest =>
    cases a with
    | none => exact ⟨more₁, h₁, rfl⟩
    | some a =>
      obtain ⟨more₂, h₂, hrun₂⟩ := hf a rest hts more₁ (h₁.dropWhile_eq ▸ hmore)
      exact ⟨more₂, h₁.trans h₂, hrun₂⟩

/-- Where a sequence has answered, its parts have. -/
theorem Bounded.bind_of_some {r : Reader α} {f : α → Reader β} {b : β} {rest : List Token}
    (h : (r >>= f).run ts = (some b, rest)) (hr : Bounded q r ts)
    (hf : ∀ a mid, r.run ts = (some a, mid) → (f a).run mid = (some b, rest) →
      Bounded q (f a) mid) : Bounded q (r >>= f) ts :=
  hr.bind fun a mid hrun => hf a mid hrun (by rwa [run_bind_of_some hrun] at h)

theorem Bounded.possibly {r : Reader α} (hr : Bounded q r ts) : Bounded q (possibly r) ts := by
  intro more hmore
  obtain ⟨more', h, hrun⟩ := hr more hmore
  exact ⟨more', h, by rw [run_possibly, run_possibly, hrun]⟩

theorem Bounded.attempt {r : Reader α} (hr : Bounded q r ts) : Bounded q (attempt r) ts := by
  intro more hmore
  obtain ⟨more', h, hrun⟩ := hr more hmore
  rw [run_attempt, run_attempt, hrun]
  cases r.run ts with
  | mk a rest =>
    cases a with
    | none => exact ⟨more, Or.inl rfl, rfl⟩
    | some a => exact ⟨more', h, rfl⟩

/-- A loop that answers is bounded if its rounds are wherever it still does. -/
theorem bounded_loop_of_some {step : σ → Reader (σ ⊕ β)} {b : β} {rest : List Token}
    (htakes : ∀ s, Takes GoesOn (step s))
    (hstep : ∀ s ts a mid, (loop step s).run ts = (some b, rest) →
      (step s).run ts = (some a, mid) → Bounded q (step s) ts)
    {s : σ} (h : (loop step s).run ts = (some b, rest)) : Bounded q (loop step s) ts := by
  induction hn : ts.length using Nat.strongRecOn generalizing s ts with
  | ind n ih =>
    intro more hmore
    rcases exists_of_run_loop h with hround | ⟨s', mid, hround, hmid⟩
    · obtain ⟨more₁, h₁, hrun⟩ := hstep s ts _ _ h hround more hmore
      rw [hround] at hrun
      exact ⟨more₁, h₁, by rw [run_loop_inr hrun, run_loop_inr hround]⟩
    · obtain ⟨more₁, h₁, hrun⟩ := hstep s ts _ _ h hround more hmore
      have hlt := htakes s ts (.inl s') (by rw [hround]) rfl
      have hlt' := htakes s (ts ++ more) (.inl s') (by rw [hrun, hround]) rfl
      rw [hround] at hlt hrun
      rw [hrun] at hlt'
      obtain ⟨more₂, h₂, hrun₂⟩ := ih mid.length (hn ▸ hlt) hmid rfl more₁ (h₁.dropWhile_eq ▸ hmore)
      refine ⟨more₂, h₁.trans h₂, ?_⟩
      rw [run_loop_inl hrun hlt', run_loop_inl hround hlt, hrun₂]

/-! ## Single tokens -/

theorem bounded_skipBlanks (ts : List Token) : Bounded q skipBlanks ts := by
  intro more _
  rw [run_skipBlanks, run_skipBlanks, List.dropWhile_append]
  split
  · rename_i h
    rw [List.isEmpty_iff.1 h]
    exact ⟨_, Or.inr rfl, rfl⟩
  · exact ⟨more, Or.inl rfl, rfl⟩

theorem bounded_sees {p : Token → Bool} (h : Excludes q p) (ts : List Token) :
    Bounded q (sees p) ts := by
  intro more hmore
  refine ⟨more, Or.inl rfl, ?_⟩
  rw [run_sees, run_sees]
  cases ts with
  | nil => rw [List.nil_append, h.head?_any hmore]; rfl
  | cons t ts => rfl

theorem run_sees_of_excludes {p : Token → Bool} (h : Excludes q p)
    (hts : q ts) : (sees p).run ts = (some false, ts) := by
  cases ts with
  | nil => rfl
  | cons t ts => rw [run_sees, List.head?_cons, Option.any_some, h.2 t ts hts]

/-- A token that is there is looked at, and not what stands behind it. -/
theorem bounded_sees_cons (p : Token → Bool) (t : Token) (ts : List Token) :
    Bounded q (sees p) (t :: ts) :=
  fun more _ => ⟨more, Or.inl rfl, rfl⟩

theorem bounded_token_cons (f : Token → Option α) (t : Token) (ts : List Token) :
    Bounded q (token f) (t :: ts) := by
  refine fun more _ => ⟨more, Or.inl rfl, ?_⟩
  cases ht : f t with
  | none => rw [List.cons_append, run_token_of_none ht, run_token_of_none ht]; rfl
  | some a => rw [List.cons_append, run_token_of_some ht, run_token_of_some ht]

/-- What is left behind a token is what stood behind it. -/
theorem rest_of_run_token {f : Token → Option α} {t : Token} {a : α} {rest : List Token}
    (h : (token f).run (t :: ts) = (some a, rest)) : rest = ts := by
  cases ht : f t with
  | none =>
    rw [run_token_of_none ht] at h
    cases h
  | some b =>
    rw [run_token_of_some ht] at h
    exact (Prod.mk.inj h).2.symm

theorem bounded_token {f : Token → Option α} (h : Excludes q fun t => (f t).isSome)
    (ts : List Token) : Bounded q (token f) ts := by
  cases ts with
  | cons t ts => exact bounded_token_cons f t ts
  | nil =>
    intro more hmore
    have hhead := h.head?_any hmore
    refine ⟨more, Or.inl rfl, ?_⟩
    cases more with
    | nil => rfl
    | cons t us =>
      rw [List.nil_append, run_token_of_none (by simpa using hhead)]
      rfl

theorem bounded_expect_cons (p : Token → Bool) (t : Token) (ts : List Token) :
    Bounded q (expect p) (t :: ts) := by
  intro more hmore
  rw [List.cons_append]
  cases ht : p t with
  | false =>
    refine ⟨more, Or.inl rfl, ?_⟩
    rw [run_expect_of_neg ht, run_expect_of_neg ht]
    rfl
  | true =>
    obtain ⟨more', h', hrun⟩ := bounded_skipBlanks (q := q) ts more hmore
    refine ⟨more', h', ?_⟩
    rw [run_expect_of_pos ht, run_expect_of_pos ht]
    exact Prod.ext rfl (congrArg Prod.snd hrun)

theorem bounded_expect {p : Token → Bool} (h : Excludes q p) (ts : List Token) :
    Bounded q (expect p) ts := by
  cases ts with
  | cons t ts => exact bounded_expect_cons p t ts
  | nil =>
    intro more hmore
    have hhead := h.head?_any hmore
    refine ⟨more, Or.inl rfl, ?_⟩
    cases more with
    | nil => rfl
    | cons t us =>
      rw [List.nil_append, run_expect_of_neg (by simpa using hhead)]
      rfl

theorem bounded_advance (t : Token) (ts : List Token) : Bounded q advance (t :: ts) :=
  fun more _ => ⟨more, Or.inl rfl, rfl⟩

theorem bounded_advancePastBlanks (t : Token) (ts : List Token) :
    Bounded q advancePastBlanks (t :: ts) := by
  intro more hmore
  obtain ⟨more', h, hrun⟩ := bounded_skipBlanks (q := q) ts more hmore
  exact ⟨more', h, Prod.ext rfl (congrArg Prod.snd hrun)⟩

/-- A token that was seen is there. -/
theorem exists_of_run_sees {p : Token → Bool} {rest : List Token}
    (h : (sees p).run ts = (some true, rest)) :
    ∃ t us, ts = t :: us ∧ rest = t :: us ∧ p t = true := by
  cases ts with
  | nil => cases h
  | cons t us =>
    obtain ⟨ht, rfl⟩ := Prod.mk.inj h
    exact ⟨t, us, rfl, rfl, Option.some.inj ht⟩

/-! ## Parentheses -/

/-- What is closed before the tokens end is closed in front of any others. -/
theorem splitClosed_append_of_ne_nil {depth : Nat} (h : (splitClosed depth ts).2 ≠ [])
    (more : List Token) :
    splitClosed depth (ts ++ more) =
      ((splitClosed depth ts).1, (splitClosed depth ts).2 ++ more) := by
  induction ts generalizing depth with
  | nil => exact absurd rfl h
  | cons t ts ih =>
    simp only [List.cons_append, splitClosed] at h ⊢
    split
    · rename_i hopen
      rw [if_pos hopen] at h
      rw [ih h]
    · rename_i hopen
      rw [if_neg hopen] at h
      split
      · rename_i hclose
        rw [if_pos hclose] at h
        split
        · rfl
        · rename_i hdepth
          rw [if_neg hdepth] at h
          rw [ih h]
      · rename_i hclose
        rw [if_neg hclose] at h
        rw [ih h]

theorem run_parenthesized_of_pos {t : Token} (h : t.isMark .openParen = true) (ts : List Token) :
    parenthesized.run (t :: ts) = (some (t :: (splitClosed 1 ts).1), (splitClosed 1 ts).2) := by
  simp [parenthesized, splitClosed, h]

theorem run_parenthesized_of_neg {t : Token} (h : t.isMark .openParen = false) (ts : List Token) :
    parenthesized.run (t :: ts) = (some [], t :: ts) := by
  simp [parenthesized, h]

/-- Parentheses are bounded if something is left behind them. -/
theorem bounded_parenthesized_of_ne_nil (h : (parenthesized.run ts).2 ≠ []) :
    Bounded q parenthesized ts := by
  intro more _
  refine ⟨more, Or.inl rfl, ?_⟩
  cases ts with
  | nil => exact absurd rfl h
  | cons t ts =>
    rw [List.cons_append]
    cases ht : t.isMark .openParen with
    | true =>
      rw [run_parenthesized_of_pos ht] at h
      rw [run_parenthesized_of_pos ht, run_parenthesized_of_pos ht, splitClosed_append_of_ne_nil h]
    | false =>
      rw [run_parenthesized_of_neg ht, run_parenthesized_of_neg ht]
      rfl

/-- Closed parentheses are taken in front of anything as they are alone. -/
theorem run_parenthesized_append {t : Token} (ht : t.isMark .openParen = true)
    (h : Token.IsItem (t :: ts)) (more : List Token) :
    parenthesized.run (t :: ts ++ more) =
      ((parenthesized.run (t :: ts)).1, (parenthesized.run (t :: ts)).2 ++ more) := by
  have hdepth : depthAfter 1 ts = some 0 := by
    simpa only [Token.IsItem, depthAfter, if_pos ht] using h
  obtain ⟨group, rest, -, -, hsplit⟩ :=
    splitClosed_of_depthAfter (Nat.le_refl 1) (Nat.le_refl 1) hdepth
  have hnil := hsplit []
  rw [List.append_nil, List.append_nil] at hnil
  rw [List.cons_append, run_parenthesized_of_pos ht, run_parenthesized_of_pos ht, hsplit more,
    hnil]

/-- Parentheses are bounded if all of them are closed. -/
theorem bounded_parenthesized_of_isItem (hq : Excludes q (Token.isMark .openParen))
    (h : Token.IsItem ts) : Bounded q parenthesized ts := by
  intro more hmore
  refine ⟨more, Or.inl rfl, ?_⟩
  cases ts with
  | nil =>
    rw [List.nil_append, parenthesized]
    simp only [hq.head?_any hmore]
    rfl
  | cons t ts =>
    cases ht : t.isMark .openParen with
    | true => exact run_parenthesized_append ht h more
    | false =>
      rw [List.cons_append, run_parenthesized_of_neg ht, run_parenthesized_of_neg ht]
      rfl

theorem run_skipParenthesized (ts : List Token) :
    skipParenthesized.run ts = (some (), (parenthesized.run ts).2) := by
  simp only [skipParenthesized, run_bind, parenthesized]
  cases ts.head?.any (Token.isMark .openParen) <;> rfl

theorem bounded_skipParenthesized (h : Bounded q parenthesized ts) :
    Bounded q skipParenthesized ts :=
  h.bind fun _ _ _ => bounded_answer _ _

/-! ## Names -/

theorem bounded_name {n : String} {rest : List Token} (h : name.run ts = (some n, rest)) :
    Bounded q name ts := by
  intro more _
  exact ⟨more, Or.inl rfl, by rw [run_name_append h, h]⟩

/-- A further part of a name is bounded if it is there, or if nothing is. -/
theorem bounded_qualifiedPart (hq : Excludes q (Token.isMark .period))
    (h : ts = [] ∨ ∃ n rest, qualifiedPart.run ts = (some n, rest)) :
    Bounded q qualifiedPart ts := by
  rcases h with rfl | ⟨n, rest, h⟩
  · refine (bounded_skipBlanks []).bind fun _ mid hmid => (bounded_sees hq mid).bind
      fun period mid' hperiod => ?_
    cases hmid
    cases hperiod
    exact bounded_fail _
  · refine Bounded.bind_of_some h (bounded_skipBlanks ts) fun _ mid _ h =>
      Bounded.bind_of_some h (bounded_sees hq mid) fun period mid' hperiod h => ?_
    cases period with
    | false => exact bounded_fail _
    | true =>
      obtain ⟨t, us, -, rfl, -⟩ := exists_of_run_sees hperiod
      exact Bounded.bind_of_some h (bounded_advancePastBlanks t us) fun _ _ _ h => bounded_name h

/-- A name is bounded by what does not begin with a period, if all tokens belong to it. -/
theorem bounded_qualifiedName (hq : Excludes q (Token.isMark .period)) {n : String}
    (h : qualifiedName.run ts = (some n, [])) : Bounded q qualifiedName ts := by
  have hend : ∀ last ts, (loop qualifiedRound last).run ts = (some n, []) →
      ts = [] ∨ ∃ part rest, qualifiedPart.run ts = (some part, rest) := by
    intro last ts hlast
    cases hpart : qualifiedPart.run ts with
    | mk part rest =>
      cases part with
      | some part => exact Or.inr ⟨part, rest, rfl⟩
      | none =>
        have hround : (qualifiedRound last).run ts = (some (.inr last), ts) := by
          rw [qualifiedRound, run_bind_of_some (run_attempt_of_none (by rw [hpart]))]
          rfl
        rw [run_loop_inr hround] at hlast
        exact Or.inl (Prod.mk.inj hlast).2
  refine Bounded.bind_of_some (f := fun first => loop qualifiedRound first) h
    (bounded_name (exists_of_run_bind h).choose_spec.choose_spec.1) fun first mid _ hloop => ?_
  refine bounded_loop_of_some (fun _ => takes_attempt takes_qualifiedPart takes_stop)
    (fun last ts _ _ hlast _ => ?_) hloop
  refine (bounded_qualifiedPart hq (hend last ts hlast)).attempt.bind fun part _ _ => ?_
  cases part <;> exact bounded_pure _ _

/-! ## Lists of names -/

/-- A length is bounded if something is left behind it. -/
theorem bounded_skipLength {rest : List Token} (h : skipLength.run ts = (some (), rest))
    (hrest : rest ≠ []) : Bounded q skipLength ts := by
  cases ts with
  | nil =>
    cases h
    exact absurd rfl hrest
  | cons t ts =>
    refine Bounded.bind_of_some h (bounded_sees_cons _ t ts) fun opens mid _ h => ?_
    cases opens with
    | false => exact bounded_pure _ _
    | true =>
      refine (bounded_skipParenthesized (bounded_parenthesized_of_ne_nil fun hnil => ?_)).bind
        fun _ _ _ => bounded_skipBlanks _
      have hskip : skipParenthesized.run mid = (some (), []) := by
        rw [run_skipParenthesized, hnil]
      rw [if_pos rfl, run_bind_of_some hskip] at h
      exact hrest (Prod.mk.inj h).2.symm

theorem bounded_skipOrder (t : Token) (ts : List Token) : Bounded q skipOrder (t :: ts) := by
  refine (bounded_sees_cons _ t ts).bind fun order mid hmid => ?_
  cases order with
  | false => exact bounded_pure _ _
  | true =>
    obtain ⟨u, us, -, rfl, -⟩ := exists_of_run_sees hmid
    exact bounded_advancePastBlanks u us

theorem bounded_nameSeparator (names : List String) (t : Token) (ts : List Token) :
    Bounded q (nameSeparator names) (t :: ts) := by
  refine (bounded_sees_cons _ t ts).bind fun comma mid hmid => ?_
  cases comma with
  | true =>
    obtain ⟨u, us, -, rfl, -⟩ := exists_of_run_sees hmid
    exact (bounded_advance u us).bind fun _ _ _ => bounded_pure _ _
  | false =>
    obtain rfl : t :: ts = mid := (Prod.mk.inj hmid).2
    refine (bounded_sees_cons _ t ts).bind fun closes mid _ => ?_
    cases closes with
    | true => exact bounded_pure _ _
    | false => exact bounded_fail _

/-- A round that goes on, or answers, has found a name with a separator, or the end. -/
theorem bounded_nameListRound {names : List String} {a : List String ⊕ List String}
    {rest : List Token} (h : (nameListRound names).run ts = (some a, rest)) :
    Bounded q (nameListRound names) ts := by
  refine Bounded.bind_of_some h (bounded_skipBlanks ts) fun _ mid _ h => ?_
  cases mid with
  | nil => cases h
  | cons t us =>
    refine Bounded.bind_of_some h (bounded_sees_cons _ t us) fun closes mid hmid h => ?_
    cases closes with
    | true =>
      obtain ⟨u, us, -, rfl, -⟩ := exists_of_run_sees hmid
      exact (bounded_advance u us).bind fun _ _ _ => bounded_pure _ _
    | false =>
      obtain ⟨n, _, hname, -⟩ := exists_of_run_bind h
      refine Bounded.bind_of_some h (bounded_name hname) fun n mid _ h =>
        Bounded.bind_of_some h (bounded_skipBlanks mid) fun _ mid _ h => ?_
      -- the separator is left behind the length and the order
      obtain ⟨_, us, hlength, hbehind⟩ := exists_of_run_bind h
      obtain ⟨_, vs, horder, hseparator⟩ := exists_of_run_bind hbehind
      have hvs : vs ≠ [] := by
        rintro rfl
        cases hseparator
      have hus : us ≠ [] := by
        rintro rfl
        cases horder
        exact hvs rfl
      refine (bounded_skipLength hlength hus).bind fun _ us' hus' => ?_
      obtain rfl : us = us' := (Prod.mk.inj (hlength.symm.trans hus')).2
      obtain ⟨u, us, rfl⟩ := List.exists_cons_of_ne_nil hus
      refine (bounded_skipOrder u us).bind fun _ vs' hvs' => ?_
      obtain rfl : vs = vs' := (Prod.mk.inj (horder.symm.trans hvs')).2
      obtain ⟨v, vs, rfl⟩ := List.exists_cons_of_ne_nil hvs
      exact bounded_nameSeparator _ v vs

/-- A list of names that has an end is bounded by anything. -/
theorem bounded_nameList {names : List String} {rest : List Token}
    (h : nameList.run ts = (some names, rest)) : Bounded q nameList ts := by
  cases ts with
  | nil => cases h
  | cons t ts =>
    exact Bounded.bind_of_some h (bounded_expect_cons _ t ts) fun _ _ _ hloop =>
      bounded_loop_of_some takes_nameListRound
        (fun _ _ _ _ _ hround => bounded_nameListRound hround) hloop

end Reader
end SchemaScript
