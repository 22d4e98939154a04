import SchemaScript.Token.Reader
import Mathlib.Data.List.TakeWhile

/-!
# Blanks behind the last token

The text of an item may end in blanks and comments, and how many there are depends on where it
was cut off. Readers do not mind. `SameButEnd x y` says that two lists of tokens differ only
in the blanks at their ends, and that no parenthesis in them is left open; `IgnoresEnd r` says
that the reader `r` answers the same on two such lists and leaves two such lists.

Parentheses have to be closed because `Reader.parenthesized` takes all that is left, the
blanks at the end included, where one is not.

Looking at the next token without taking it does not ignore the end: one of the lists may be
empty where the other one has a blank. Behind `skipBlanks` this cannot happen
(`SameButEnd.dropWhile`), and the readers that look ahead do so there.
-/

namespace SchemaScript
namespace Token

/-- The number of open parentheses behind the tokens, `depth` of them being open in front; none
if a parenthesis closes that is not open, or a comma stands in no parentheses. -/
def depthAfter : Nat → List Token → Option Nat
  | depth, [] => some depth
  | depth, t :: ts =>
    if t.isMark .openParen then depthAfter (depth + 1) ts
    else if t.isMark .closeParen then
      match depth with
      | 0 => none
      | depth + 1 => depthAfter depth ts
    else if t.isMark .comma && depth == 0 then none
    else depthAfter depth ts

/-- Whether the tokens can stand between two commas of a body: their parentheses are balanced,
and no comma stands outside of them. -/
def IsItem (ts : List Token) : Prop :=
  depthAfter 0 ts = some 0

instance (ts : List Token) : Decidable (IsItem ts) :=
  inferInstanceAs (Decidable (_ = _))

theorem depthAfter_append (depth : Nat) (a b : List Token) :
    depthAfter depth (a ++ b) = (depthAfter depth a).bind (depthAfter · b) := by
  induction a generalizing depth with
  | nil => rfl
  | cons t ts ih =>
    simp only [List.cons_append, depthAfter]
    split
    · exact ih _
    · split
      · cases depth with
        | zero => rfl
        | succ depth => exact ih _
      · split
        · rfl
        · exact ih _

/-- Whether every token only separates others. -/
def AllBlank (ts : List Token) : Prop :=
  ∀ t ∈ ts, t.isBlank = true

theorem allBlank_nil : AllBlank [] :=
  List.forall_mem_nil _

theorem allBlank_singleton {t : Token} (h : t.isBlank = true) : AllBlank [t] := by
  intro u hu
  rw [List.mem_singleton.1 hu]
  exact h

theorem isMark_iff {t : Token} {m : Mark} : t.isMark m = true ↔ t = .mark m := by
  cases t with
  | mark k => simp [isMark]
  | _ => simp [isMark]

theorem isMark_eq_false_of_isBlank {t : Token} (h : t.isBlank = true) (m : Mark) :
    t.isMark m = false := by
  cases t with
  | blank kind => rfl
  | _ => cases h

theorem depthAfter_of_allBlank {ts : List Token} (h : AllBlank ts) (depth : Nat) :
    depthAfter depth ts = some depth := by
  induction ts with
  | nil => rfl
  | cons t ts ih =>
    have ht := h t List.mem_cons_self
    simp only [depthAfter, isMark_eq_false_of_isBlank ht, Bool.false_eq_true, if_false,
      Bool.false_and]
    exact ih fun u hu => h u (List.mem_cons_of_mem _ hu)

theorem AllBlank.dropWhile {ts : List Token} (h : AllBlank ts) :
    ts.dropWhile Token.isBlank = [] :=
  List.dropWhile_eq_nil_iff.2 h

/-- Blanks that are skipped, and what stands behind them. -/
theorem exists_allBlank_append (ts : List Token) :
    ∃ bs, AllBlank bs ∧ ts = bs ++ ts.dropWhile Token.isBlank :=
  ⟨ts.takeWhile Token.isBlank, fun _ ht => List.mem_takeWhile_imp ht,
    List.takeWhile_append_dropWhile.symm⟩

theorem isBlank_head_dropWhile (ts : List Token) :
    ∀ t ∈ (ts.dropWhile Token.isBlank).head?, t.isBlank = false := by
  intro t ht
  have hhead := List.head?_dropWhile_not Token.isBlank ts
  rwa [Option.mem_def.1 ht] at hhead

end Token

namespace Reader

open Token (AllBlank depthAfter)

variable {α β σ : Type}

/-- Whether two lists of tokens differ only in the blanks at their ends and leave no
parenthesis open. -/
def SameButEnd (x y : List Token) : Prop :=
  ∃ core a b depth, x = core ++ a ∧ y = core ++ b ∧ AllBlank a ∧ AllBlank b ∧
    depthAfter depth core = some 0

theorem SameButEnd.symm {x y : List Token} (h : SameButEnd x y) : SameButEnd y x := by
  obtain ⟨core, a, b, depth, hx, hy, ha, hb, hd⟩ := h
  exact ⟨core, b, a, depth, hy, hx, hb, ha, hd⟩

theorem sameButEnd_of_allBlank {a b : List Token} (ha : AllBlank a) (hb : AllBlank b) :
    SameButEnd a b :=
  ⟨[], a, b, 0, rfl, rfl, ha, hb, rfl⟩

/-- Behind a first token that they share the lists still differ only in their ends. -/
theorem depthAfter_tail {depth : Nat} {t : Token} {ts : List Token}
    (h : depthAfter depth (t :: ts) = some 0) : ∃ depth', depthAfter depth' ts = some 0 := by
  rw [← List.singleton_append, Token.depthAfter_append] at h
  obtain ⟨depth', -, hd⟩ := Option.bind_eq_some_iff.1 h
  exact ⟨depth', hd⟩

/-- Without the blanks in front both lists are empty or begin with the same token. -/
theorem SameButEnd.dropWhile {x y : List Token} (h : SameButEnd x y) :
    (x.dropWhile Token.isBlank = [] ∧ y.dropWhile Token.isBlank = []) ∨
      ∃ t x' y', x.dropWhile Token.isBlank = t :: x' ∧ y.dropWhile Token.isBlank = t :: y' ∧
        t.isBlank = false ∧ SameButEnd (t :: x') (t :: y') ∧ SameButEnd x' y' := by
  obtain ⟨core, a, b, depth, rfl, rfl, ha, hb, hd⟩ := h
  induction core generalizing depth with
  | nil => exact Or.inl ⟨ha.dropWhile, hb.dropWhile⟩
  | cons t core ih =>
    obtain ⟨depth', hd'⟩ := depthAfter_tail hd
    by_cases ht : t.isBlank = true
    · rw [List.cons_append, List.cons_append, List.dropWhile_cons_of_pos ht,
        List.dropWhile_cons_of_pos ht]
      exact ih depth' hd'
    · refine Or.inr ⟨t, core ++ a, core ++ b, ?_, ?_, by simpa using ht,
        ⟨t :: core, a, b, depth, rfl, rfl, ha, hb, hd⟩,
        ⟨core, a, b, depth', rfl, rfl, ha, hb, hd'⟩⟩
      · rw [List.cons_append, List.dropWhile_cons_of_neg ht]
      · rw [List.cons_append, List.dropWhile_cons_of_neg ht]

/-- The lists differ in their ends, or they share their first token. -/
theorem SameButEnd.cases {x y : List Token} (h : SameButEnd x y) :
    (AllBlank x ∧ AllBlank y) ∨
      ∃ t x' y', x = t :: x' ∧ y = t :: y' ∧ SameButEnd x' y' := by
  obtain ⟨core, a, b, depth, rfl, rfl, ha, hb, hd⟩ := h
  cases core with
  | nil => exact Or.inl ⟨ha, hb⟩
  | cons t core =>
    obtain ⟨depth', hd'⟩ := depthAfter_tail hd
    exact Or.inr ⟨t, _, _, rfl, rfl, core, a, b, depth', rfl, rfl, ha, hb, hd'⟩

/-- Whether a reader answers the same, and leaves the same, whatever blanks stand at the
end. -/
def IgnoresEnd (r : Reader α) : Prop :=
  ∀ x y, SameButEnd x y → (r.run x).1 = (r.run y).1 ∧ SameButEnd (r.run x).2 (r.run y).2

/-! ## Combining readers -/

theorem ignoresEnd_pure (a : α) : IgnoresEnd (pure a : Reader α) :=
  fun _ _ h => ⟨rfl, h⟩

theorem ignoresEnd_answer (a : α) : IgnoresEnd (answer a) :=
  fun _ _ h => ⟨rfl, h⟩

theorem ignoresEnd_fail : IgnoresEnd (fail : Reader α) :=
  fun _ _ h => ⟨rfl, h⟩

theorem ignoresEnd_ofOption (o : Option α) : IgnoresEnd (ofOption o) := by
  cases o with
  | none => exact ignoresEnd_fail
  | some a => exact ignoresEnd_answer a

theorem IgnoresEnd.bind {r : Reader α} {f : α → Reader β} (hr : IgnoresEnd r)
    (hf : ∀ a, IgnoresEnd (f a)) : IgnoresEnd (r >>= f) := by
  intro x y h
  obtain ⟨hanswer, hrest⟩ := hr x y h
  rw [run_bind, run_bind]
  generalize r.run x = rx at *
  generalize r.run y = ry at *
  obtain ⟨ax, restx⟩ := rx
  obtain ⟨ay, resty⟩ := ry
  dsimp only at hanswer hrest
  subst hanswer
  cases ax with
  | none => exact ⟨rfl, hrest⟩
  | some a => exact hf a restx resty hrest

theorem IgnoresEnd.possibly {r : Reader α} (hr : IgnoresEnd r) : IgnoresEnd (possibly r) := by
  intro x y h
  obtain ⟨hanswer, hrest⟩ := hr x y h
  exact ⟨congrArg some hanswer, hrest⟩

theorem IgnoresEnd.attempt {r : Reader α} (hr : IgnoresEnd r) : IgnoresEnd (attempt r) := by
  intro x y h
  obtain ⟨hanswer, hrest⟩ := hr x y h
  rw [run_attempt, run_attempt]
  generalize r.run x = rx at *
  generalize r.run y = ry at *
  obtain ⟨ax, restx⟩ := rx
  obtain ⟨ay, resty⟩ := ry
  dsimp only at hanswer hrest
  subst hanswer
  cases ax with
  | none => exact ⟨rfl, h⟩
  | some a => exact ⟨rfl, hrest⟩

/-- Whether a reader has taken a token whenever its answer has a property. -/
def Takes (p : α → Prop) (r : Reader α) : Prop :=
  ∀ ts a, (r.run ts).1 = some a → p a → (r.run ts).2.length < ts.length

/-- Whether the answer of a round says that the loop goes on. -/
def GoesOn (a : σ ⊕ β) : Prop :=
  a.isLeft = true

/-- A loop ignores the end if its rounds do, as long as they take tokens. -/
theorem ignoresEnd_loop {step : σ → Reader (σ ⊕ β)} (hstep : ∀ s, IgnoresEnd (step s))
    (htake : ∀ s, Takes GoesOn (step s)) (s : σ) : IgnoresEnd (loop step s) := by
  intro x y h
  induction hn : x.length using Nat.strongRecOn generalizing s x y with
  | ind n ih =>
    subst hn
    obtain ⟨hanswer, hrest⟩ := hstep s x y h
    have hx := htake s x
    have hy := htake s y
    rw [run_loop, run_loop]
    generalize (step s).run x = rx at *
    generalize (step s).run y = ry at *
    obtain ⟨ax, restx⟩ := rx
    obtain ⟨ay, resty⟩ := ry
    dsimp only at hanswer hrest hx hy
    subst hanswer
    match ax with
    | none => exact ⟨rfl, hrest⟩
    | some (.inr b) => exact ⟨rfl, hrest⟩
    | some (.inl s') =>
      dsimp only
      rw [if_pos (hx _ rfl rfl), if_pos (hy _ rfl rfl)]
      exact ih restx.length (hx _ rfl rfl) s' restx resty hrest rfl

/-! ## Single tokens -/

theorem ignoresEnd_skipBlanks : IgnoresEnd skipBlanks := by
  intro x y h
  refine ⟨rfl, ?_⟩
  rcases h.dropWhile with ⟨hx, hy⟩ | ⟨t, x', y', hx, hy, -, hxy, -⟩
  · rw [run_skipBlanks, run_skipBlanks, hx, hy]
    exact sameButEnd_of_allBlank (by simp [AllBlank]) (by simp [AllBlank])
  · rw [run_skipBlanks, run_skipBlanks, hx, hy]
    exact hxy

/-- A property that blanks do not have is seen on both lists or on none. -/
theorem ignoresEnd_sees {p : Token → Bool} (hp : ∀ t, t.isBlank = true → p t = false) :
    IgnoresEnd (sees p) := by
  have hblank : ∀ ts, AllBlank ts → ts.head?.any p = false := by
    intro ts hts
    cases ts with
    | nil => rfl
    | cons t ts => exact hp t (hts t List.mem_cons_self)
  intro x y h
  refine ⟨?_, h⟩
  rw [run_sees, run_sees]
  rcases h.cases with ⟨hx, hy⟩ | ⟨t, x', y', rfl, rfl, -⟩
  · rw [hblank x hx, hblank y hy]
  · rfl

theorem SameButEnd.tail {x y : List Token} (h : SameButEnd x y) : SameButEnd x.tail y.tail := by
  rcases h.cases with ⟨hx, hy⟩ | ⟨t, x', y', rfl, rfl, hxy⟩
  · exact sameButEnd_of_allBlank (fun t ht => hx t (List.mem_of_mem_tail ht))
      (fun t ht => hy t (List.mem_of_mem_tail ht))
  · exact hxy

theorem ignoresEnd_advance : IgnoresEnd advance :=
  fun _ _ h => ⟨rfl, h.tail⟩

theorem ignoresEnd_advancePastBlanks : IgnoresEnd advancePastBlanks :=
  fun x y h => ⟨rfl, (ignoresEnd_skipBlanks x.tail y.tail h.tail).2⟩

/-- A token that is no blank is taken from both lists or from none. -/
theorem ignoresEnd_token {f : Token → Option α} (hf : ∀ t, t.isBlank = true → f t = none) :
    IgnoresEnd (token f) := by
  have hblank : ∀ ts, AllBlank ts → (token f).run ts = (none, ts) := by
    intro ts hts
    cases ts with
    | nil => rfl
    | cons t ts =>
      have ht := hf t (hts t List.mem_cons_self)
      simp only [token, ht]
  intro x y h
  rcases h.cases with ⟨hx, hy⟩ | ⟨t, x', y', rfl, rfl, hxy⟩
  · rw [hblank x hx, hblank y hy]
    exact ⟨rfl, h⟩
  · simp only [token]
    cases f t with
    | none => exact ⟨rfl, h⟩
    | some a => exact ⟨rfl, hxy⟩

theorem ignoresEnd_expect {p : Token → Bool} (hp : ∀ t, t.isBlank = true → p t = false) :
    IgnoresEnd (expect p) := by
  have hblank : ∀ ts, AllBlank ts → (expect p).run ts = (none, ts) := by
    intro ts hts
    cases ts with
    | nil => rfl
    | cons t ts =>
      have ht := hp t (hts t List.mem_cons_self)
      simp [expect, ht]
  intro x y h
  rcases h.cases with ⟨hx, hy⟩ | ⟨t, x', y', rfl, rfl, hxy⟩
  · rw [hblank x hx, hblank y hy]
    exact ⟨rfl, h⟩
  · simp only [expect]
    cases p t with
    | false => exact ⟨rfl, h⟩
    | true => exact ⟨rfl, (ignoresEnd_skipBlanks x' y' hxy).2⟩

theorem isKeyword_of_isBlank {k : String} (t : Token) (h : t.isBlank = true) :
    t.isKeyword k = false := by
  cases t with
  | blank kind => rfl
  | _ => cases h

theorem isWord_of_isBlank {w : String} (t : Token) (h : t.isBlank = true) :
    t.isWord w = false := by
  cases t with
  | blank kind => rfl
  | _ => cases h

theorem ignoresEnd_keyword (k : String) : IgnoresEnd (keyword k) :=
  ignoresEnd_expect isKeyword_of_isBlank

theorem ignoresEnd_word (w : String) : IgnoresEnd (word w) :=
  ignoresEnd_expect isWord_of_isBlank

theorem ignoresEnd_mark (m : Mark) : IgnoresEnd (mark m) :=
  ignoresEnd_expect fun _ h => Token.isMark_eq_false_of_isBlank h m

theorem ignoresEnd_seesKeyword (k : String) : IgnoresEnd (seesKeyword k) :=
  ignoresEnd_sees isKeyword_of_isBlank

theorem ignoresEnd_seesWord (w : String) : IgnoresEnd (seesWord w) :=
  ignoresEnd_sees isWord_of_isBlank

theorem ignoresEnd_seesAnyWord (ws : List String) : IgnoresEnd (seesAnyWord ws) :=
  ignoresEnd_sees fun t h => List.any_eq_false.2 fun w _ => by simp [isWord_of_isBlank t h]

theorem ignoresEnd_seesMark (m : Mark) : IgnoresEnd (seesMark m) :=
  ignoresEnd_sees fun _ h => Token.isMark_eq_false_of_isBlank h m

theorem ignoresEnd_stringLiteral : IgnoresEnd stringLiteral := by
  refine ignoresEnd_token fun t h => ?_
  cases t with
  | blank kind => rfl
  | _ => cases h

theorem ignoresEnd_number : IgnoresEnd number := by
  refine ignoresEnd_token fun t h => ?_
  cases t with
  | blank kind => rfl
  | _ => cases h

theorem ignoresEnd_peekSecond : IgnoresEnd peekSecond := by
  intro x y h
  refine ⟨?_, h⟩
  show some (x.tail.dropWhile Token.isBlank).head? = some (y.tail.dropWhile Token.isBlank).head?
  rcases h.tail.dropWhile with ⟨hx, hy⟩ | ⟨t, x', y', hx, hy, -⟩
  · rw [hx, hy]
  · rw [hx, hy]
    rfl

/-! ## Parentheses -/

/-- A closed parenthesis is split off in front of any end. -/
theorem splitClosed_of_depthAfter {core : List Token} {opened depth : Nat} (ho : 1 ≤ opened)
    (hle : opened ≤ depth) (hd : depthAfter depth core = some 0) :
    ∃ group rest depth', depthAfter depth' rest = some 0 ∧
      ∀ tail, splitClosed opened (core ++ tail) = (group, rest ++ tail) := by
  induction core generalizing opened depth with
  | nil =>
    have hzero : depth = 0 := Option.some.inj hd
    omega
  | cons t core ih =>
    simp only [depthAfter] at hd
    by_cases hopen : t.isMark .openParen = true
    · rw [if_pos hopen] at hd
      obtain ⟨group, rest, depth', hrest, hsplit⟩ :=
        ih (Nat.le_add_left 1 opened) (Nat.succ_le_succ hle) hd
      refine ⟨t :: group, rest, depth', hrest, fun tail => ?_⟩
      simp only [List.cons_append, splitClosed, if_pos hopen, hsplit tail]
    rw [if_neg hopen] at hd
    by_cases hclose : t.isMark .closeParen = true
    · rw [if_pos hclose] at hd
      cases depth with
      | zero => cases hd
      | succ depth =>
        by_cases hlast : opened ≤ 1
        · refine ⟨[t], core, depth, hd, fun tail => ?_⟩
          simp only [List.cons_append, splitClosed, if_neg hopen, if_pos hclose, if_pos hlast]
        · obtain ⟨group, rest, depth', hrest, hsplit⟩ :=
            ih (show 1 ≤ opened - 1 by omega) (show opened - 1 ≤ depth by omega) hd
          refine ⟨t :: group, rest, depth', hrest, fun tail => ?_⟩
          simp only [List.cons_append, splitClosed, if_neg hopen, if_pos hclose, if_neg hlast,
            hsplit tail]
    · rw [if_neg hclose] at hd
      split at hd
      · cases hd
      · obtain ⟨group, rest, depth', hrest, hsplit⟩ := ih ho hle hd
        refine ⟨t :: group, rest, depth', hrest, fun tail => ?_⟩
        simp only [List.cons_append, splitClosed, if_neg hopen, if_neg hclose, hsplit tail]

theorem ignoresEnd_parenthesized : IgnoresEnd parenthesized := by
  intro x y h
  obtain ⟨core, a, b, depth, rfl, rfl, ha, hb, hd⟩ := h
  have hnone : ∀ ts, AllBlank ts → parenthesized.run ts = (some [], ts) := by
    intro ts hts
    cases ts with
    | nil => rfl
    | cons t ts =>
      have ht := Token.isMark_eq_false_of_isBlank (hts t List.mem_cons_self) .openParen
      simp [parenthesized, ht]
  cases core with
  | nil =>
    rw [List.nil_append, List.nil_append, hnone a ha, hnone b hb]
    exact ⟨rfl, sameButEnd_of_allBlank ha hb⟩
  | cons t core =>
    by_cases hopen : t.isMark .openParen = true
    · have hd' : depthAfter (depth + 1) core = some 0 := by
        simpa only [depthAfter, if_pos hopen] using hd
      obtain ⟨group, rest, depth', hrest, hsplit⟩ :=
        splitClosed_of_depthAfter (Nat.le_refl 1) (Nat.le_add_left 1 depth) hd'
      have hrun : ∀ tail, parenthesized.run (t :: core ++ tail) =
          (some (t :: group), rest ++ tail) := by
        intro tail
        simp [parenthesized, hopen, splitClosed, hsplit tail]
      rw [hrun a, hrun b]
      exact ⟨rfl, rest, a, b, depth', rfl, rfl, ha, hb, hrest⟩
    · have hrun : ∀ tail, parenthesized.run (t :: core ++ tail) =
          (some [], t :: core ++ tail) := by
        intro tail
        simp [parenthesized, hopen]
      rw [hrun a, hrun b]
      exact ⟨rfl, t :: core, a, b, depth, rfl, rfl, ha, hb, hd⟩

theorem ignoresEnd_skipParenthesized : IgnoresEnd skipParenthesized :=
  ignoresEnd_parenthesized.bind fun _ => ignoresEnd_answer ()

/-! ## Names -/

theorem splitBracketed_of_allBlank {ts : List Token} (h : AllBlank ts) :
    splitBracketed ts = none := by
  induction ts with
  | nil => rfl
  | cons t ts ih =>
    have ht := Token.isMark_eq_false_of_isBlank (h t List.mem_cons_self) .closeBracket
    simp only [splitBracketed, ht, Bool.false_eq_true, if_false]
    rw [ih fun u hu => h u (List.mem_cons_of_mem _ hu)]
    rfl

/-- A closing bracket is found in front of any end, or in front of none. -/
theorem splitBracketed_append_congr {core a b : List Token} {depth : Nat} (ha : AllBlank a)
    (hb : AllBlank b) (hd : depthAfter depth core = some 0) :
    (splitBracketed (core ++ a) = none ∧ splitBracketed (core ++ b) = none) ∨
      ∃ inner ra rb, splitBracketed (core ++ a) = some (inner, ra) ∧
        splitBracketed (core ++ b) = some (inner, rb) ∧ SameButEnd ra rb := by
  induction core generalizing depth with
  | nil => exact Or.inl ⟨splitBracketed_of_allBlank ha, splitBracketed_of_allBlank hb⟩
  | cons t core ih =>
    obtain ⟨depth', hd'⟩ := depthAfter_tail hd
    simp only [List.cons_append, splitBracketed]
    by_cases ht : t.isMark .closeBracket = true
    · simp only [if_pos ht]
      exact Or.inr ⟨_, _, _, rfl, rfl, core, a, b, depth', rfl, rfl, ha, hb, hd'⟩
    · simp only [if_neg ht]
      rcases ih hd' with ⟨hx, hy⟩ | ⟨inner, ra, rb, hx, hy, hr⟩
      · exact Or.inl ⟨by rw [hx]; rfl, by rw [hy]; rfl⟩
      · exact Or.inr ⟨_, _, _, by rw [hx]; rfl, by rw [hy]; rfl, hr⟩

theorem wordText?_of_isBlank {t : Token} (h : t.isBlank = true) : t.wordText? = none := by
  cases t with
  | blank kind => rfl
  | _ => cases h

theorem ignoresEnd_name : IgnoresEnd name := by
  intro x y h
  have hnone : ∀ ts, AllBlank ts → name.run ts = (none, ts) := by
    intro ts hts
    cases ts with
    | nil => rfl
    | cons t ts =>
      have hb := hts t List.mem_cons_self
      simp [name, wordText?_of_isBlank hb, Token.isMark_eq_false_of_isBlank hb]
  obtain ⟨core, a, b, depth, rfl, rfl, ha, hb, hd⟩ := h
  cases core with
  | nil =>
    rw [List.nil_append, List.nil_append, hnone a ha, hnone b hb]
    exact ⟨rfl, sameButEnd_of_allBlank ha hb⟩
  | cons t core =>
    obtain ⟨depth', hd'⟩ := depthAfter_tail hd
    have hsame : SameButEnd (t :: core ++ a) (t :: core ++ b) :=
      ⟨t :: core, a, b, depth, rfl, rfl, ha, hb, hd⟩
    simp only [name, List.cons_append]
    cases t.wordText? with
    | some text => exact ⟨rfl, core, a, b, depth', rfl, rfl, ha, hb, hd'⟩
    | none =>
      dsimp only
      by_cases hopen : t.isMark .openBracket = true
      · rw [if_pos hopen, if_pos hopen]
        rcases splitBracketed_append_congr ha hb hd' with
          ⟨hx, hy⟩ | ⟨inner, ra, rb, hx, hy, hr⟩
        · rw [hx, hy]
          exact ⟨rfl, hsame⟩
        · rw [hx, hy]
          exact ⟨rfl, hr⟩
      · rw [if_neg hopen, if_neg hopen]
        exact ⟨rfl, hsame⟩

theorem ignoresEnd_qualifiedPart : IgnoresEnd qualifiedPart := by
  refine ignoresEnd_skipBlanks.bind fun _ => (ignoresEnd_seesMark _).bind fun period => ?_
  cases period with
  | false => exact ignoresEnd_fail
  | true => exact ignoresEnd_advancePastBlanks.bind fun _ => ignoresEnd_name

theorem ignoresEnd_skipNameOrString : IgnoresEnd skipNameOrString := by
  refine ignoresEnd_name.possibly.bind fun n => ?_
  cases n with
  | some _ => exact ignoresEnd_pure ()
  | none => exact ignoresEnd_stringLiteral.possibly.bind fun _ => ignoresEnd_pure ()

/-! ## Rounds that take a token -/

/-- What a reader leaves behind a first one is no longer than what that one left. -/
theorem length_run_bind_le (r : Reader α) (f : α → Reader β) (ts : List Token) :
    ((r >>= f).run ts).2.length ≤ (r.run ts).2.length := by
  rw [run_bind]
  generalize r.run ts = rr
  obtain ⟨a, rest⟩ := rr
  cases a with
  | none => exact Nat.le_refl _
  | some a => exact (f a).length_rest_le rest

theorem Takes.bind {r : Reader α} (hr : Takes (fun _ => True) r) {p : β → Prop}
    (f : α → Reader β) : Takes p (r >>= f) := by
  intro ts b hb _
  refine Nat.lt_of_le_of_lt (length_run_bind_le r f ts) ?_
  cases ha : (r.run ts).1 with
  | some a => exact hr ts a ha trivial
  | none =>
    rw [run_bind_of_none (Prod.ext ha rfl)] at hb
    cases hb

theorem takes_bind (r : Reader α) {p : β → Prop} {f : α → Reader β} (hf : ∀ a, Takes p (f a)) :
    Takes p (r >>= f) := by
  intro ts b hb hp
  have hle := r.length_rest_le ts
  rw [run_bind] at hb ⊢
  generalize r.run ts = rr at *
  obtain ⟨a, rest⟩ := rr
  cases a with
  | none => cases hb
  | some a => exact Nat.lt_of_lt_of_le (hf a rest b hb hp) hle

theorem takes_fail {p : α → Prop} : Takes p fail := by
  intro ts a h
  cases h

/-- An answer without the property need not have taken anything. -/
theorem takes_pure {p : α → Prop} {a : α} (ha : ¬ p a) : Takes p (pure a : Reader α) := by
  intro ts b h hb
  cases h
  exact absurd hb ha

theorem takes_stop {b : β} : Takes (GoesOn (σ := σ)) (pure (.inr b) : Reader (σ ⊕ β)) :=
  takes_pure (by simp [GoesOn])

theorem length_dropWhile_le (ts : List Token) :
    (ts.dropWhile Token.isBlank).length ≤ ts.length :=
  (List.dropWhile_suffix _).length_le

theorem takes_token {p : α → Prop} (f : Token → Option α) : Takes p (token f) := by
  intro ts a h _
  cases ts with
  | nil => cases h
  | cons t ts =>
    simp only [token] at h ⊢
    cases hf : f t with
    | none =>
      rw [hf] at h
      cases h
    | some b => exact Nat.lt_succ_self _

theorem takes_expect {p : Unit → Prop} (q : Token → Bool) : Takes p (expect q) := by
  intro ts a h _
  cases ts with
  | nil => cases h
  | cons t ts =>
    simp only [expect] at h ⊢
    by_cases hq : q t = true
    · rw [if_pos hq]
      exact Nat.lt_succ_of_le (length_dropWhile_le ts)
    · rw [if_neg hq] at h
      cases h

/-- A name is made of at least one token. -/
theorem takes_name {p : String → Prop} : Takes p name := by
  intro ts n h _
  cases ts with
  | nil => cases h
  | cons t ts =>
    simp only [name] at h ⊢
    split at h
    · exact Nat.lt_succ_self _
    · split at h
      · split at h
        · rename_i hopen _ r hr
          rw [if_pos hopen]
          obtain ⟨u, hu⟩ := splitBracketed_append hr
          show r.2.length < (t :: ts).length
          rw [← hu, List.length_cons, List.length_append, List.length_cons]
          omega
        · cases h
      · cases h

/-- A round that goes on as long as a reader answers takes tokens if the reader does. -/
theorem takes_attempt {r : Reader α} (hr : Takes (fun _ => True) r)
    {f : Option α → Reader (σ ⊕ β)} (hf : Takes GoesOn (f none)) :
    Takes GoesOn (attempt r >>= f) := by
  intro ts b hb hgo
  have htake := hr ts
  rw [run_bind, run_attempt] at hb ⊢
  generalize r.run ts = rr at *
  obtain ⟨a, rest⟩ := rr
  cases a with
  | none => exact hf ts b hb hgo
  | some a => exact Nat.lt_of_le_of_lt ((f (some a)).length_rest_le rest) (htake a rfl trivial)

theorem takes_qualifiedPart : Takes (fun _ => True) qualifiedPart := by
  refine takes_bind _ fun _ => takes_bind _ fun period => ?_
  cases period with
  | false => exact takes_fail
  | true => exact takes_bind _ fun _ => takes_name

/-! ## Lists of names -/

theorem ignoresEnd_qualifiedName : IgnoresEnd qualifiedName := by
  refine ignoresEnd_name.bind fun first => ?_
  refine ignoresEnd_loop (fun last => ?_) (fun last => ?_) first
  · refine ignoresEnd_qualifiedPart.attempt.bind fun part => ?_
    cases part with
    | none => exact ignoresEnd_pure _
    | some part => exact ignoresEnd_pure _
  · exact takes_attempt takes_qualifiedPart takes_stop

theorem ignoresEnd_skipLength : IgnoresEnd skipLength := by
  refine (ignoresEnd_seesMark _).bind fun opens => ?_
  cases opens with
  | true => exact ignoresEnd_skipParenthesized.bind fun _ => ignoresEnd_skipBlanks
  | false => exact ignoresEnd_pure ()

theorem ignoresEnd_skipOrder : IgnoresEnd skipOrder := by
  refine (ignoresEnd_seesAnyWord _).bind fun order => ?_
  cases order with
  | true => exact ignoresEnd_advancePastBlanks
  | false => exact ignoresEnd_pure ()

theorem ignoresEnd_nameSeparator (names : List String) : IgnoresEnd (nameSeparator names) := by
  refine (ignoresEnd_seesMark _).bind fun comma => ?_
  cases comma with
  | true => exact ignoresEnd_advance.bind fun _ => ignoresEnd_pure _
  | false =>
    refine (ignoresEnd_seesMark _).bind fun closes => ?_
    cases closes with
    | true => exact ignoresEnd_pure _
    | false => exact ignoresEnd_fail

theorem ignoresEnd_nameListRound (names : List String) : IgnoresEnd (nameListRound names) := by
  refine ignoresEnd_skipBlanks.bind fun _ => (ignoresEnd_seesMark _).bind fun closes => ?_
  cases closes with
  | true => exact ignoresEnd_advance.bind fun _ => ignoresEnd_pure _
  | false =>
    exact ignoresEnd_name.bind fun n => ignoresEnd_skipBlanks.bind fun _ =>
      ignoresEnd_skipLength.bind fun _ => ignoresEnd_skipOrder.bind fun _ =>
        ignoresEnd_nameSeparator _

theorem takes_nameListRound (names : List String) : Takes GoesOn (nameListRound names) := by
  refine takes_bind _ fun _ => takes_bind _ fun closes => ?_
  cases closes with
  | true => exact takes_bind _ fun _ => takes_stop
  | false => exact takes_name.bind _

theorem ignoresEnd_nameList : IgnoresEnd nameList :=
  (ignoresEnd_mark _).bind fun _ =>
    ignoresEnd_loop ignoresEnd_nameListRound takes_nameListRound []

/-! ## Looking ahead -/

/-- Whether a reader ignores the end of lists that begin with the same token. -/
def IgnoresEndFrom (r : Reader α) : Prop :=
  ∀ x y, SameButEnd x y → x.head? = y.head? →
    (r.run x).1 = (r.run y).1 ∧ SameButEnd (r.run x).2 (r.run y).2

theorem IgnoresEnd.fromHere {r : Reader α} (hr : IgnoresEnd r) : IgnoresEndFrom r :=
  fun x y h _ => hr x y h

theorem IgnoresEndFrom.bind {r : Reader α} {f : α → Reader β} (hr : IgnoresEndFrom r)
    (hf : ∀ a, IgnoresEnd (f a)) : IgnoresEndFrom (r >>= f) := by
  intro x y h hhead
  obtain ⟨hanswer, hrest⟩ := hr x y h hhead
  rw [run_bind, run_bind]
  generalize r.run x = rx at *
  generalize r.run y = ry at *
  obtain ⟨ax, restx⟩ := rx
  obtain ⟨ay, resty⟩ := ry
  dsimp only at hanswer hrest
  subst hanswer
  cases ax with
  | none => exact ⟨rfl, hrest⟩
  | some a => exact hf a restx resty hrest

theorem IgnoresEndFrom.possibly {r : Reader α} (hr : IgnoresEndFrom r) :
    IgnoresEndFrom (possibly r) := by
  intro x y h hhead
  obtain ⟨hanswer, hrest⟩ := hr x y h hhead
  exact ⟨congrArg some hanswer, hrest⟩

/-- The next token is the same on both lists, and it is still there. -/
theorem ignoresEndFrom_peek {f : Option Token → Reader β} (hf : ∀ o, IgnoresEndFrom (f o)) :
    IgnoresEndFrom (peek >>= f) := by
  intro x y h hhead
  rw [run_bind_of_some (run_peek x), run_bind_of_some (run_peek y), hhead]
  exact hf y.head? x y h hhead

/-- Behind blanks both lists begin with the same token, or both are empty. -/
theorem SameButEnd.head?_dropWhile {x y : List Token} (h : SameButEnd x y) :
    SameButEnd (x.dropWhile Token.isBlank) (y.dropWhile Token.isBlank) ∧
      (x.dropWhile Token.isBlank).head? = (y.dropWhile Token.isBlank).head? := by
  refine ⟨(ignoresEnd_skipBlanks x y h).2, ?_⟩
  rcases h.dropWhile with ⟨hx, hy⟩ | ⟨t, x', y', hx, hy, -⟩
  · rw [hx, hy]
  · rw [hx, hy]
    rfl

theorem ignoresEnd_skipBlanks_bind {f : Unit → Reader β} (hf : IgnoresEndFrom (f ())) :
    IgnoresEnd (skipBlanks >>= f) := by
  intro x y h
  obtain ⟨hsame, hhead⟩ := h.head?_dropWhile
  rw [run_bind_of_some (run_skipBlanks x), run_bind_of_some (run_skipBlanks y)]
  exact hf _ _ hsame hhead

theorem ignoresEnd_advancePastBlanks_bind {f : Unit → Reader β} (hf : IgnoresEndFrom (f ())) :
    IgnoresEnd (advancePastBlanks >>= f) := by
  intro x y h
  obtain ⟨hsame, hhead⟩ := h.tail.head?_dropWhile
  rw [run_bind_of_some (run_advancePastBlanks x), run_bind_of_some (run_advancePastBlanks y)]
  exact hf _ _ hsame hhead

/-! ## Taking a token that is there -/

theorem length_advance_bind_lt (f : Unit → Reader β) (t : Token) (ts : List Token) :
    ((advance >>= f).run (t :: ts)).2.length < (t :: ts).length :=
  Nat.lt_succ_of_le (length_run_bind_le advance f (t :: ts))

theorem length_advancePastBlanks_bind_lt (f : Unit → Reader β) (t : Token) (ts : List Token) :
    ((advancePastBlanks >>= f).run (t :: ts)).2.length < (t :: ts).length :=
  Nat.lt_succ_of_le ((length_run_bind_le advancePastBlanks f (t :: ts)).trans
    (length_dropWhile_le ts))

/-- Where a property is seen there is a token to take. -/
theorem takes_sees_bind {p : β → Prop} {q : Token → Bool} {f : Bool → Reader β}
    (htrue : ∀ t ts b, ((f true).run (t :: ts)).1 = some b → p b →
      ((f true).run (t :: ts)).2.length < (t :: ts).length)
    (hfalse : Takes p (f false)) : Takes p (sees q >>= f) := by
  intro ts b hb hp
  rw [run_bind_of_some (run_sees q ts)] at hb ⊢
  cases hseen : ts.head?.any q with
  | false =>
    rw [hseen] at hb
    exact hfalse ts b hb hp
  | true =>
    rw [hseen] at hb
    cases ts with
    | nil => cases hseen
    | cons t ts => exact htrue t ts b hb hp

end Reader
end SchemaScript
