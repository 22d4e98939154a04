import SchemaScript.Text.Delimited
import Mathlib.Data.List.Infix
import Mathlib.Data.List.TakeWhile

/-!
# Runs of characters

A scanner takes characters as long as they have some property. What it takes from a text
depends only on the text up to the first character without the property, and this is what
the lemmas here say: a run is found again in front of any text that *stops* it, that is, a
text whose first character, if there is one, lacks the property.

The same is said of the two ways of reading up to a delimiter. Where `quoted?` and `upTo?`
end is decided by what they have read, so another text behind the delimiter changes nothing
(`quoted?` has to see that its quote is not doubled there).
-/

namespace SchemaScript
namespace Text

variable {p : Char → Bool}

/-- A text whose first character, if there is one, lacks the property. -/
def Stops (p : Char → Bool) (cs : List Char) : Prop :=
  ∀ c ∈ cs.head?, p c = false

@[simp] theorem stops_nil : Stops p [] := by
  simp [Stops]

@[simp] theorem stops_cons {c : Char} {cs : List Char} : Stops p (c :: cs) ↔ p c = false := by
  simp [Stops]

theorem takeWhile_eq_nil_of_stops {cs : List Char} (h : Stops p cs) : cs.takeWhile p = [] := by
  cases cs with
  | nil => rfl
  | cons c cs => simp [stops_cons.1 h]

theorem dropWhile_eq_self_of_stops {cs : List Char} (h : Stops p cs) : cs.dropWhile p = cs := by
  cases cs with
  | nil => rfl
  | cons c cs => simp [stops_cons.1 h]

/-- A run is found again in front of a text that stops it. -/
theorem takeWhile_append_of_stops {w cs : List Char} (hw : ∀ c ∈ w, p c = true)
    (h : Stops p cs) : (w ++ cs).takeWhile p = w := by
  rw [List.takeWhile_append_of_pos hw, takeWhile_eq_nil_of_stops h, List.append_nil]

theorem dropWhile_append_of_stops {w cs : List Char} (hw : ∀ c ∈ w, p c = true)
    (h : Stops p cs) : (w ++ cs).dropWhile p = cs := by
  rw [List.dropWhile_append_of_pos hw, dropWhile_eq_self_of_stops h]

/-- A run ends at a character without the property. -/
theorem dropWhile_append_cons {q : Char} (hq : p q = false) (a b : List Char) :
    (a ++ q :: b).dropWhile p = a.dropWhile p ++ q :: b := by
  rw [List.dropWhile_append]
  split
  · rename_i hnil
    rw [List.isEmpty_iff.1 hnil, dropWhile_eq_self_of_stops (stops_cons.2 hq), List.nil_append]
  · rfl

theorem takeWhile_append_cons {q : Char} (hq : p q = false) (a b : List Char) :
    (a ++ q :: b).takeWhile p = a.takeWhile p := by
  rw [List.takeWhile_append]
  split
  · rename_i hlength
    rw [takeWhile_eq_nil_of_stops (stops_cons.2 hq), List.append_nil]
    exact ((List.takeWhile_prefix p).eq_of_length hlength).symm
  · rfl

/-- What a run leaves stops it. -/
theorem stops_dropWhile (cs : List Char) : Stops p (cs.dropWhile p) := by
  induction cs with
  | nil => exact stops_nil
  | cons c cs ih =>
    by_cases hc : p c = true
    · rw [List.dropWhile_cons_of_pos hc]
      exact ih
    · rw [List.dropWhile_cons_of_neg hc]
      exact stops_cons.2 (Bool.not_eq_true _ ▸ hc)

/-- A run of bounded length is found again in front of a text with the same first
character. -/
theorem takeWhile_take_append {n : Nat} {cs ds y : List Char}
    (hds : (cs.take n).takeWhile p = ds) (hy : y.head? = (cs.drop ds.length).head?) :
    ((ds ++ y).take n).takeWhile p = ds := by
  induction n generalizing cs ds with
  | zero =>
    rw [List.take_zero] at hds ⊢
    exact hds
  | succ n ih =>
    cases cs with
    | nil =>
      have hnil : ds = [] := hds.symm
      subst hnil
      have hy' : y = [] := List.head?_eq_none_iff.1 hy
      subst hy'
      rfl
    | cons c cs =>
      by_cases hc : p c = true
      · rw [List.take_succ_cons, List.takeWhile_cons_of_pos hc] at hds
        subst hds
        rw [List.cons_append, List.take_succ_cons, List.takeWhile_cons_of_pos hc]
        rw [List.length_cons, List.drop_succ_cons] at hy
        rw [ih rfl hy]
      · rw [List.take_succ_cons, List.takeWhile_cons_of_neg hc] at hds
        subst hds
        cases y with
        | nil => rfl
        | cons d y =>
          have hd : d = c := by simpa using hy
          subst hd
          rw [List.nil_append, List.take_succ_cons, List.takeWhile_cons_of_neg hc]

/-! ## Reading up to a quote -/

/-- A quoted text is its value with the quotes doubled, and the closing quote. -/
theorem eq_double_of_quoted? {q : Char} {cs v rest : List Char}
    (h : quoted? q cs = some (v, rest)) : cs = double q v ++ q :: rest := by
  fun_induction quoted? q cs generalizing v rest with
  | case1 => cases h
  | case2 => cases h; rfl
  | case3 => cases h
  | case4 cs ih =>
    obtain ⟨r, hr, he⟩ := Option.map_eq_some_iff.1 h
    obtain ⟨rfl, rfl⟩ := Prod.mk.inj he
    rw [double_quote, List.cons_append, List.cons_append, ← ih hr]
  | case5 d cs hd => cases h; rfl
  | case6 c d cs hc ih =>
    obtain ⟨r, hr, he⟩ := Option.map_eq_some_iff.1 h
    obtain ⟨rfl, rfl⟩ := Prod.mk.inj he
    rw [double_cons_of_ne hc, List.cons_append, ← ih hr]

/-- Behind the closing quote of a quoted text stands no further one. -/
theorem head?_ne_of_quoted? {q : Char} {cs : List Char} {r : List Char × List Char}
    (h : quoted? q cs = some r) : r.2.head? ≠ some q := by
  fun_induction quoted? q cs generalizing r with
  | case1 => simp at h
  | case2 => cases h; simp
  | case3 => simp at h
  | case4 cs ih =>
    obtain ⟨r', hr', rfl⟩ := Option.map_eq_some_iff.1 h
    exact ih (r := r') hr'
  | case5 d cs hd =>
    cases h
    simpa using hd
  | case6 c d cs _ ih =>
    obtain ⟨r', hr', rfl⟩ := Option.map_eq_some_iff.1 h
    exact ih (r := r') hr'

/-- A doubled text has no quote that ends it. -/
theorem quoted?_double_eq_none (q : Char) (cs : List Char) : quoted? q (double q cs) = none := by
  induction cs with
  | nil => rfl
  | cons c cs ih =>
    by_cases hc : c = q
    · rw [hc, double_quote, quoted?, if_pos rfl, if_pos rfl, ih]
      rfl
    · rw [double_cons_of_ne hc]
      cases hcs : double q cs with
      | nil => rw [quoted?, if_neg hc]
      | cons d ds =>
        rw [quoted?, if_neg hc, ← hcs, ih]
        rfl

/-- No quote ends a text before what stands behind it if none does with that. -/
theorem quoted?_eq_none_of_append {q : Char} {cs ds : List Char} (hds : q ∉ ds)
    (h : quoted? q (cs ++ ds) = none) : quoted? q cs = none := by
  by_contra hne
  obtain ⟨⟨v, rest⟩, hread⟩ := Option.ne_none_iff_exists'.1 hne
  have hnext : (rest ++ ds).head? ≠ some q := by
    rw [List.head?_append]
    cases hrest : rest.head? with
    | none => exact fun hx => hds (List.mem_of_head? hx)
    | some d =>
      rw [← hrest]
      exact hrest ▸ head?_ne_of_quoted? hread
  have hall := quoted?_double v (rest ++ ds) hnext
  rw [← List.cons_append, ← List.append_assoc, ← eq_double_of_quoted? hread, h] at hall
  cases hall

/-! ## Reading up to a delimiter -/

theorem stripStart?_isSome_iff {start cs : List Char} :
    (stripStart? start cs).isSome ↔ start <+: cs := by
  constructor
  · intro h
    obtain ⟨rest, hr⟩ := Option.isSome_iff_exists.1 h
    exact ⟨rest, (stripStart?_eq_some_iff.1 hr).symm⟩
  · rintro ⟨rest, rfl⟩
    rw [stripStart?_append]
    rfl

theorem stripStart?_eq_none_iff {start cs : List Char} :
    stripStart? start cs = none ↔ ¬ start <+: cs := by
  rw [← stripStart?_isSome_iff, Option.not_isSome_iff_eq_none]

/-- A beginning does not reach across a character that is not in it. -/
theorem stripStart?_append_cons {q : Char} {start : List Char} (h : q ∉ start)
    (a b : List Char) :
    stripStart? start (a ++ q :: b) = (stripStart? start a).map (· ++ q :: b) := by
  induction start generalizing a with
  | nil => simp
  | cons s start ih =>
    rw [List.mem_cons, not_or] at h
    cases a with
    | nil => simp [stripStart?, Ne.symm h.1]
    | cons c a =>
      rw [List.cons_append, stripStart?, stripStart?]
      split
      · exact ih h.2 a
      · rfl

theorem prefix_append_cons_iff {q : Char} {start : List Char} (h : q ∉ start) (a b : List Char) :
    start <+: a ++ q :: b ↔ start <+: a := by
  rw [← stripStart?_isSome_iff, ← stripStart?_isSome_iff, stripStart?_append_cons h,
    Option.isSome_map]

/-- Whether a text begins with a delimiter shows within the length of the delimiter. -/
theorem prefix_append_congr {d w : List Char} (h : d.length ≤ w.length) (a b : List Char) :
    d <+: w ++ a ↔ d <+: w ++ b := by
  rw [List.isPrefix_append_of_length h, List.isPrefix_append_of_length h]

/-- Where a text ends at a delimiter is decided by the text and the delimiter. -/
theorem upTo?_append_congr {d v a : List Char} (hd : d ≠ [])
    (h : upTo? d (v ++ d ++ a) = some (v, a)) (b : List Char) :
    upTo? d (v ++ d ++ b) = some (v, b) := by
  induction v with
  | nil =>
    obtain ⟨c, ds, rfl⟩ := List.exists_cons_of_ne_nil hd
    simp [upTo?]
  | cons c v ih =>
    simp only [List.cons_append, upTo?] at h ⊢
    -- the delimiter does not begin at `c`, and that shows before the text behind it begins
    have hlen : d.length ≤ (c :: (v ++ d)).length := by
      rw [List.length_cons, List.length_append]
      omega
    cases hs : stripStart? d (c :: (v ++ d ++ a)) with
    | some rest =>
      rw [hs] at h
      simp at h
    | none =>
      rw [hs] at h
      have hb : stripStart? d (c :: (v ++ d ++ b)) = none := by
        rw [stripStart?_eq_none_iff] at hs ⊢
        exact fun hp => hs ((prefix_append_congr hlen b a).1 hp)
      rw [hb]
      obtain ⟨r, hr, hc⟩ := Option.map_eq_some_iff.1 h
      have hr' : r = (v, a) := by
        simp only [Prod.mk.injEq, List.cons.injEq, true_and] at hc
        exact Prod.ext hc.1 hc.2
      rw [hr'] at hr
      rw [ih hr]
      rfl

end Text
end SchemaScript
