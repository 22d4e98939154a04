import Mathlib.Data.List.Infix
import SchemaScript.Proofs.Definition.Accounts

/-!
# Nested parentheses

A body is cut into items by counting open parentheses. This module says what is counted: the
`nesting` behind some tokens is the number of parentheses that they open less the number that they
close, and tokens are balanced (`IsBalanced`) if it is never negative on the way and zero at the
end. The parenthesis in front of a body is matched by the one behind a balanced beginning of it.

A body is cut exactly if its parenthesis is matched, and then at the commas that stand in no other
parentheses, each of which ends one item (`TableDefinition.bodyItems?_partition`). Nothing else
ends one, so no token up to the match is lost or found twice.

The count of the reader, `depthAfter`, refuses what closes too early and commas that end an item,
so it is zero for the items themselves (`depthAfter_eq_zero_iff`). A balanced body is put together
from such items, one token after the other (`Closes.exists_items`).
-/

namespace SchemaScript
namespace Token

variable {t : Token} {ts a b : List Token}

/-! ## Nesting -/

/-- The number of parentheses that the tokens open less the number that they close. -/
def nesting (ts : List Token) : ℤ :=
  ts.count (mark .openParen) - ts.count (mark .closeParen)

/-- How much deeper the tokens behind this one are nested. -/
def weight (t : Token) : ℤ :=
  if t = mark .openParen then 1 else if t = mark .closeParen then -1 else 0

theorem weight_openParen : weight (mark .openParen) = 1 := rfl

theorem weight_closeParen : weight (mark .closeParen) = -1 := rfl

theorem weight_comma : weight (mark .comma) = 0 := rfl

@[simp] theorem nesting_nil : nesting [] = 0 := rfl

@[simp] theorem nesting_cons (t : Token) (ts : List Token) :
    nesting (t :: ts) = t.weight + nesting ts := by
  rw [nesting, nesting, weight, List.count_cons, List.count_cons]
  by_cases hopen : t = mark .openParen
  · subst hopen
    rw [if_pos rfl, if_pos (by decide), if_neg (by decide)]
    omega
  by_cases hclose : t = mark .closeParen
  · subst hclose
    rw [if_neg hopen, if_pos rfl, if_neg (by decide), if_pos (by decide)]
    omega
  · rw [if_neg hopen, if_neg hclose, if_neg (by simpa using hopen), if_neg (by simpa using hclose)]
    omega

/-- Tokens that close `depth` open parentheses, and every one that they open themselves. -/
structure Closes (depth : ℤ) (ts : List Token) : Prop where
  closed : depth + nesting ts = 0
  nonneg : ∀ u, u <+: ts → 0 ≤ depth + nesting u

/-- Tokens that close every parenthesis that they open, and no other one. -/
def IsBalanced (ts : List Token) : Prop :=
  Closes 0 ts

/-- The number of commas that stand in no parentheses, `depth` of them being open in front. -/
def outerCommas (depth : ℤ) (ts : List Token) : ℕ :=
  (List.range ts.length).countP fun i =>
    ts[i]? = some (mark .comma) ∧ depth + nesting (ts.take i) = 0

instance (depth : ℤ) (ts : List Token) : Decidable (Closes depth ts) :=
  decidable_of_iff (depth + nesting ts = 0 ∧ ∀ u ∈ ts.inits, 0 ≤ depth + nesting u)
    ⟨fun h => ⟨h.1, fun u hu => h.2 u (List.mem_inits u ts |>.2 hu)⟩,
      fun h => ⟨h.closed, fun u hu => h.nonneg u (List.mem_inits u ts |>.1 hu)⟩⟩

instance (ts : List Token) : Decidable (IsBalanced ts) :=
  inferInstanceAs (Decidable (Closes 0 ts))

/-! ## One token -/

theorem closes_nil_iff {depth : ℤ} : Closes depth [] ↔ depth = 0 := by
  constructor
  · intro h
    simpa using h.closed
  · rintro rfl
    refine ⟨rfl, fun u hu => ?_⟩
    rw [List.prefix_nil.1 hu, nesting_nil]
    omega

theorem closes_cons_iff {depth : ℤ} :
    Closes depth (t :: ts) ↔ 0 ≤ depth ∧ Closes (depth + t.weight) ts := by
  constructor
  · intro h
    refine ⟨by simpa using h.nonneg [] List.nil_prefix, ?_, fun u hu => ?_⟩
    · rw [Int.add_assoc, ← nesting_cons]
      exact h.closed
    · rw [Int.add_assoc, ← nesting_cons]
      exact h.nonneg _ (List.cons_prefix_cons.2 ⟨rfl, hu⟩)
  · rintro ⟨hdepth, h⟩
    refine ⟨?_, fun u hu => ?_⟩
    · rw [nesting_cons, ← Int.add_assoc]
      exact h.closed
    · rcases List.prefix_cons_iff.1 hu with rfl | ⟨v, rfl, hv⟩
      · simpa using hdepth
      · rw [nesting_cons, ← Int.add_assoc]
        exact h.nonneg v hv

theorem closes_openParen_iff {depth : ℕ} :
    Closes depth (mark .openParen :: ts) ↔ Closes (depth + 1 : ℕ) ts := by
  rw [closes_cons_iff, weight_openParen, Int.natCast_add, Int.natCast_one]
  exact and_iff_right (Int.natCast_nonneg depth)

theorem closes_closeParen_iff {depth : ℕ} :
    Closes depth (mark .closeParen :: ts) ↔ ∃ d : ℕ, depth = d + 1 ∧ Closes d ts := by
  rw [closes_cons_iff, weight_closeParen]
  constructor
  · rintro ⟨-, h⟩
    obtain ⟨d, hd⟩ := Int.eq_ofNat_of_zero_le (show 0 ≤ (depth : ℤ) + -1 by
      simpa using h.nonneg [] List.nil_prefix)
    exact ⟨d, by omega, hd ▸ h⟩
  · rintro ⟨d, rfl, h⟩
    refine ⟨Int.natCast_nonneg _, ?_⟩
    rwa [Int.natCast_add, Int.natCast_one, Int.add_neg_cancel_right]

/-- Any other token makes no difference. -/
theorem closes_cons_of_ne {depth : ℕ} (hopen : t ≠ mark .openParen)
    (hclose : t ≠ mark .closeParen) :
    Closes depth (t :: ts) ↔ Closes depth ts := by
  rw [closes_cons_iff, weight, if_neg hopen, if_neg hclose, Int.add_zero]
  exact and_iff_right (Int.natCast_nonneg depth)

@[simp] theorem outerCommas_nil (depth : ℤ) : outerCommas depth [] = 0 := rfl

theorem outerCommas_cons (depth : ℤ) (t : Token) (ts : List Token) :
    outerCommas depth (t :: ts) =
      outerCommas (depth + t.weight) ts + if t = mark .comma ∧ depth = 0 then 1 else 0 := by
  have hshift : ((fun i => decide ((t :: ts)[i]? = some (mark .comma) ∧
      depth + nesting ((t :: ts).take i) = 0)) ∘ Nat.succ) =
      fun i => decide (ts[i]? = some (mark .comma) ∧
        depth + t.weight + nesting (ts.take i) = 0) := by
    ext i
    simp [Int.add_assoc]
  rw [outerCommas, List.length_cons, List.range_succ_eq_map, List.countP_cons, List.countP_map,
    hshift, outerCommas]
  simp

/-- The count of open parentheses goes on behind a token that closes none too early and is no
comma outside of them. -/
theorem depthAfter_cons_eq_some_iff {depth e : ℕ} :
    depthAfter depth (t :: ts) = some e ↔
      ¬ (t = mark .comma ∧ depth = 0) ∧
        ∃ d : ℕ, (d : ℤ) = depth + t.weight ∧ depthAfter d ts = some e := by
  have hnat : ∀ {n : ℕ} {z : ℤ}, z = n →
      ((∃ d : ℕ, (d : ℤ) = z ∧ depthAfter d ts = some e) ↔ depthAfter n ts = some e) := by
    rintro n z rfl
    simp only [Int.ofNat_inj, exists_eq_left]
  rw [depthAfter.eq_def]
  dsimp only
  simp only [isMark_iff, Bool.and_eq_true, beq_iff_eq]
  by_cases hopen : t = mark .openParen
  · subst hopen
    rw [if_pos rfl, weight_openParen, hnat (n := depth + 1) (by omega)]
    simp
  by_cases hclose : t = mark .closeParen
  · subst hclose
    rw [if_neg hopen, if_pos rfl, weight_closeParen]
    cases depth with
    | zero =>
      refine iff_of_false (Option.some_ne_none e).symm ?_
      rintro ⟨-, d, hd, -⟩
      omega
    | succ depth =>
      rw [hnat (n := depth) (by omega)]
      simp
  rw [if_neg hopen, if_neg hclose, hnat (n := depth) (by simp [weight, hopen, hclose])]
  split
  · rename_i hcomma
    exact iff_of_false (Option.some_ne_none e).symm fun h => h.1 hcomma
  · rename_i hcomma
    exact (and_iff_right hcomma).symm

/-! ## Items -/

/-- The reader counts down to zero exactly over tokens that close what is open and have no comma
outside of all parentheses. -/
theorem depthAfter_eq_zero_iff {depth : ℕ} :
    depthAfter depth ts = some 0 ↔ Closes depth ts ∧ outerCommas depth ts = 0 := by
  induction ts generalizing depth with
  | nil => simp [depthAfter, closes_nil_iff]
  | cons t ts ih =>
    rw [depthAfter_cons_eq_some_iff, closes_cons_iff, outerCommas_cons, Nat.add_eq_zero_iff]
    simp only [ih]
    constructor
    · rintro ⟨hcomma, d, hd, hcloses, hnone⟩
      rw [hd] at hcloses hnone
      exact ⟨⟨by omega, hcloses⟩, hnone, if_neg (by simpa using hcomma)⟩
    · rintro ⟨⟨-, hcloses⟩, hnone, hcomma⟩
      have hdepth : 0 ≤ (depth : ℤ) + t.weight := by
        simpa using hcloses.nonneg [] List.nil_prefix
      obtain ⟨d, hd⟩ := Int.eq_ofNat_of_zero_le hdepth
      rw [hd] at hcloses hnone
      exact ⟨by simpa using hcomma, d, hd.symm, hcloses, hnone⟩

/-- The items of a body are the balanced tokens without a comma outside of their parentheses. -/
theorem isItem_iff : IsItem ts ↔ IsBalanced ts ∧ outerCommas 0 ts = 0 :=
  depthAfter_eq_zero_iff

/-- What closes the parentheses in front of it is the rest of an item, and more items behind it if
there are commas outside of all parentheses. -/
theorem Closes.exists_items {depth : ℕ} (h : Closes depth ts) :
    ∃ first others, [mark .comma].intercalate (first :: others) = ts ∧
      depthAfter depth first = some 0 ∧ ∀ item ∈ others, IsItem item := by
  induction ts generalizing depth with
  | nil =>
    refine ⟨[], [], rfl, ?_, List.forall_mem_nil _⟩
    rw [depthAfter, Int.natCast_eq_zero.1 (closes_nil_iff.1 h)]
  | cons t ts ih =>
    have hrest := (closes_cons_iff.1 h).2
    have hdepth : 0 ≤ (depth : ℤ) + t.weight := by
      simpa using hrest.nonneg [] List.nil_prefix
    obtain ⟨d, hd⟩ := Int.eq_ofNat_of_zero_le hdepth
    rw [hd] at hrest
    obtain ⟨first, others, hts, hfirst, hothers⟩ := ih hrest
    by_cases hcomma : t = mark .comma ∧ depth = 0
    · -- the comma ends an item that is empty from here on
      obtain ⟨rfl, rfl⟩ := hcomma
      rw [weight_comma] at hd
      obtain rfl : d = 0 := by omega
      refine ⟨[], first :: others, ?_, rfl, List.forall_mem_cons.2 ⟨hfirst, hothers⟩⟩
      rw [List.intercalate_cons_cons, hts]
      rfl
    · refine ⟨t :: first, others, ?_, depthAfter_cons_eq_some_iff.2 ⟨hcomma, d, hd.symm, hfirst⟩,
        hothers⟩
      rw [← hts]
      cases others with
      | nil => rfl
      | cons next more => simp [List.intercalate_cons_cons]

/-! ## Items with commas between them -/

theorem Closes.append {depth : ℤ} (ha : Closes depth a) (hb : IsBalanced b) :
    Closes depth (a ++ b) := by
  induction a generalizing depth with
  | nil =>
    rw [closes_nil_iff.1 ha]
    exact hb
  | cons t a ih =>
    obtain ⟨hdepth, ha⟩ := closes_cons_iff.1 ha
    exact closes_cons_iff.2 ⟨hdepth, ih ha⟩

/-- Behind tokens that close what is open, no parenthesis is. -/
theorem Closes.outerCommas_append {depth : ℤ} (ha : Closes depth a) (b : List Token) :
    outerCommas depth (a ++ b) = outerCommas depth a + outerCommas 0 b := by
  induction a generalizing depth with
  | nil => rw [closes_nil_iff.1 ha, List.nil_append, outerCommas_nil, Nat.zero_add]
  | cons t a ih =>
    rw [List.cons_append, outerCommas_cons, outerCommas_cons, ih (closes_cons_iff.1 ha).2]
    omega

/-- A comma behind balanced tokens and in front of balanced tokens is outside of all
parentheses. -/
theorem IsBalanced.append_comma (ha : IsBalanced a) (hb : IsBalanced b) :
    IsBalanced (a ++ mark .comma :: b) ∧
      outerCommas 0 (a ++ mark .comma :: b) = outerCommas 0 a + outerCommas 0 b + 1 := by
  constructor
  · exact ha.append (closes_cons_iff.2 ⟨Int.le_refl 0, hb⟩)
  · rw [ha.outerCommas_append, outerCommas_cons, weight_comma, Int.add_zero, if_pos ⟨rfl, rfl⟩,
      Nat.add_assoc]

/-- Items with commas between them are balanced, and only the commas between them are outside of
all parentheses. -/
theorem isBalanced_intercalate {item : List Token} {items : List (List Token)}
    (h : ∀ i ∈ item :: items, IsItem i) :
    IsBalanced ([mark .comma].intercalate (item :: items)) ∧
      outerCommas 0 ([mark .comma].intercalate (item :: items)) = items.length := by
  induction items generalizing item with
  | nil =>
    rw [List.intercalate_singleton]
    exact isItem_iff.1 (h item List.mem_cons_self)
  | cons next more ih =>
    obtain ⟨hitem, hitems⟩ := List.forall_mem_cons.1 h
    obtain ⟨hbalanced, hnone⟩ := isItem_iff.1 hitem
    obtain ⟨hrest, hcommas⟩ := ih hitems
    have hsplit := hbalanced.append_comma hrest
    rw [hcommas, hnone, Nat.zero_add] at hsplit
    rw [List.intercalate_cons_cons, List.append_assoc, List.singleton_append, List.length_cons]
    exact hsplit

/-- Runs of tokens with commas between them print as their texts with commas between them. -/
theorem printAll_intercalate (items : List (List Token)) :
    printAll ([mark .comma].intercalate items) = [','].intercalate (items.map printAll) := by
  induction items with
  | nil => rfl
  | cons item items ih =>
    cases items with
    | nil => simp only [List.map_cons, List.map_nil, List.intercalate_singleton]
    | cons next more =>
      rw [List.intercalate_cons_cons, printAll_append, printAll_append, ih]
      simp only [List.map_cons, List.intercalate_cons_cons]
      rfl

end Token

namespace TableDefinition

open Token

/-- The tokens up to the match of a parenthesis, cut into items: the runs between the commas that
stand in no other parentheses, one more than there are such commas. -/
structure IsCut (inside : List Token) (items : List (List Token)) : Prop where
  joined : [mark .comma].intercalate items = inside
  length : items.length = outerCommas 0 inside + 1
  balanced : ∀ item ∈ items, IsBalanced item
  noOuterComma : ∀ item ∈ items, outerCommas 0 item = 0
  printed : [','].intercalate (items.map printAll) = printAll inside

/-- Items with commas between them are cut at these commas. -/
theorem isCut_intercalate {items : List (List Token)} (hne : items ≠ [])
    (h : ∀ item ∈ items, IsItem item) : IsCut ([mark .comma].intercalate items) items := by
  obtain ⟨first, others, rfl⟩ := List.exists_cons_of_ne_nil hne
  refine ⟨rfl, ?_, fun item hi => (isItem_iff.1 (h item hi)).1,
    fun item hi => (isItem_iff.1 (h item hi)).2, (printAll_intercalate _).symm⟩
  rw [(isBalanced_intercalate h).2, List.length_cons]

/-- Balanced tokens in front of a closing parenthesis are cut, and all of them are. -/
theorem exists_isCut {inside : List Token} (h : IsBalanced inside) (rest : List Token) :
    ∃ items, bodyItems? (inside ++ mark .closeParen :: rest) = some (items, rest) ∧
      IsCut inside items := by
  obtain ⟨first, others, hjoin, hfirst, hothers⟩ := h.exists_items
  have hitems : ∀ item ∈ first :: others, IsItem item :=
    List.forall_mem_cons.2 ⟨hfirst, hothers⟩
  rw [← hjoin]
  exact ⟨first :: others, bodyItems?_eq_some_iff.2 ⟨List.cons_ne_nil _ _, hitems, rfl⟩,
    isCut_intercalate (List.cons_ne_nil _ _) hitems⟩

/-- **A body is cut at the commas outside of its parentheses.** Behind an open parenthesis there
are items exactly if some parenthesis matches it. The tokens up to that match are then cut into
the items, and reading goes on right behind the match. -/
theorem bodyItems?_partition (ts : List Token) :
    ((∃ r, bodyItems? ts = some r) ↔
      ∃ inside rest, ts = inside ++ mark .closeParen :: rest ∧ IsBalanced inside) ∧
    ∀ inside rest, ts = inside ++ mark .closeParen :: rest → IsBalanced inside →
      ∃ items, bodyItems? ts = some (items, rest) ∧ IsCut inside items := by
  refine ⟨⟨?_, ?_⟩, ?_⟩
  · rintro ⟨⟨items, rest⟩, hr⟩
    obtain ⟨hne, hitems, hts⟩ := bodyItems?_eq_some_iff.1 hr
    obtain ⟨first, others, rfl⟩ := List.exists_cons_of_ne_nil hne
    exact ⟨_, rest, hts, (isBalanced_intercalate hitems).1⟩
  · rintro ⟨inside, rest, rfl, hinside⟩
    obtain ⟨items, hitems, -⟩ := exists_isCut hinside rest
    exact ⟨_, hitems⟩
  · rintro inside rest rfl hinside
    exact exists_isCut hinside rest

/-- A body with a comma in parentheses of its own, a comma outside of them, and a parenthesis
behind its end. -/
theorem bodyItems?_partition_nested :
    let inside : List Token :=
      [.word "a", .mark .openParen, .number "1", .mark .comma, .number "2", .mark .closeParen,
        .mark .comma, .word "b"]
    let rest : List Token := [.mark .comma, .mark .closeParen]
    IsBalanced inside ∧ outerCommas 0 inside = 1 ∧
      ∃ items, bodyItems? (inside ++ mark .closeParen :: rest) = some (items, rest) ∧
        IsCut inside items := by
  intro inside rest
  have hinside : IsBalanced inside := by decide
  exact ⟨hinside, by decide, (bodyItems?_partition _).2 inside rest rfl hinside⟩

end TableDefinition
end SchemaScript
