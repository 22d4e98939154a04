import SchemaScript.Proofs.Text.Runs
import SchemaScript.Token.Scan

/-!
# Where the value of a literal ends

What a reader of literal values takes from a text is decided by the text it takes: behind
the closing delimiter another text may stand, as long as it does not begin with a further
quote. Escapes are the delicate part, since some of them look one character further than
they go (`escape?_settled`), but inside a literal that character is there to stay.
-/

namespace SchemaScript
namespace Token

open Text (double quoted? upTo?)

/-! ## Escapes -/

/-- A code point of fixed length is read in front of any text. -/
theorem signedCodePoint?_settled {n : Nat} {cs rest : List Char} {e : Char}
    (h : signedCodePoint? n cs = some (e, rest)) :
    ∃ a, cs = a ++ rest ∧ ∀ y, signedCodePoint? n (a ++ y) = some (e, y) := by
  unfold signedCodePoint? at h
  split at h
  · cases h
  rename_i hn
  obtain ⟨d, hd, he⟩ := Option.map_eq_some_iff.1 h
  obtain ⟨rfl, rfl⟩ := Prod.mk.inj he
  have hlen : (cs.take n).length = n := by rw [List.length_take]; omega
  refine ⟨cs.take n, (List.take_append_drop n cs).symm, fun y => ?_⟩
  have htake : (cs.take n ++ y).take n = cs.take n := List.take_left' hlen
  have hdrop : (cs.take n ++ y).drop n = y := List.drop_left' hlen
  have hlt : ¬ (cs.take n ++ y).length < n := by
    rw [List.length_append, hlen]
    omega
  simp only [signedCodePoint?, if_neg hlt, htake, hdrop]
  rw [Option.map_eq_some_iff]
  exact ⟨d, hd, rfl⟩

theorem codePoint?_settled {n : Nat} {cs rest : List Char} {e : Char}
    (h : codePoint? n cs = some (e, rest)) :
    ∃ a, cs = a ++ rest ∧ ∀ y, codePoint? n (a ++ y) = some (e, y) := by
  unfold codePoint? at h
  split at h
  · cases h
  rename_i hn
  obtain ⟨d, hd, he⟩ := Option.map_eq_some_iff.1 h
  obtain ⟨rfl, rfl⟩ := Prod.mk.inj he
  have hlen : (cs.take n).length = n := by rw [List.length_take]; omega
  refine ⟨cs.take n, (List.take_append_drop n cs).symm, fun y => ?_⟩
  have htake : (cs.take n ++ y).take n = cs.take n := List.take_left' hlen
  have hdrop : (cs.take n ++ y).drop n = y := List.drop_left' hlen
  have hlt : ¬ (cs.take n ++ y).length < n := by
    rw [List.length_append, hlen]
    omega
  simp only [codePoint?, if_neg hlt, htake, hdrop]
  rw [Option.map_eq_some_iff]
  exact ⟨d, hd, rfl⟩

/-- A hexadecimal escape looks at most one character further than it goes. -/
theorem hexEscape?_settled {cs rest : List Char} {e : Char}
    (h : hexEscape? cs = some (e, rest)) :
    ∃ a, cs = a ++ rest ∧ ∀ y, y.head? = rest.head? → hexEscape? (a ++ y) = some (e, y) := by
  simp only [hexEscape?] at h
  have hpre : (cs.take 2).takeWhile isHexDigit <+: cs :=
    (List.takeWhile_prefix _).trans (List.take_prefix 2 cs)
  have hrun := @Text.takeWhile_take_append isHexDigit 2 cs
  generalize hds : (cs.take 2).takeWhile isHexDigit = ds at h hpre
  obtain ⟨behind, rfl⟩ := hpre
  rw [List.drop_left] at h
  have hread : rest = behind := by
    split at h
    · rename_i hempty
      have hnil : ds = [] := List.isEmpty_iff.1 hempty
      cases h
      rw [hnil, List.nil_append]
    · obtain ⟨d, -, he⟩ := Option.map_eq_some_iff.1 h
      exact (Prod.mk.inj he).2.symm
  subst hread
  refine ⟨ds, rfl, fun y hy => ?_⟩
  have hdigits : ((ds ++ y).take 2).takeWhile isHexDigit = ds :=
    hrun hds (by rw [List.drop_left]; exact hy)
  simp only [hexEscape?, hdigits, List.drop_left]
  split at h
  · rename_i hempty
    have hnil : ds = [] := List.isEmpty_iff.1 hempty
    obtain ⟨rfl, -⟩ := Prod.mk.inj (Option.some.inj h)
    rw [if_pos hempty, hnil, List.nil_append]
  · rename_i hempty
    rw [if_neg hempty]
    obtain ⟨d, hd, he⟩ := Option.map_eq_some_iff.1 h
    rw [hd, ← (Prod.mk.inj he).1]
    rfl

/-- An octal escape looks at most one character further than it goes. -/
theorem octalEscape?_settled {cs rest : List Char} {e : Char}
    (h : octalEscape? cs = some (e, rest)) :
    ∃ a, cs = a ++ rest ∧ ∀ y, y.head? = rest.head? → octalEscape? (a ++ y) = some (e, y) := by
  simp only [octalEscape?] at h
  have hpre : (cs.take 3).takeWhile isOctalDigit <+: cs :=
    (List.takeWhile_prefix _).trans (List.take_prefix 3 cs)
  have hrun := @Text.takeWhile_take_append isOctalDigit 3 cs
  generalize hds : (cs.take 3).takeWhile isOctalDigit = ds at h hpre
  obtain ⟨behind, rfl⟩ := hpre
  rw [List.drop_left] at h
  obtain ⟨d, hd, he⟩ := Option.map_eq_some_iff.1 h
  obtain ⟨rfl, rfl⟩ := Prod.mk.inj he
  refine ⟨ds, rfl, fun y hy => ?_⟩
  have hdigits : ((ds ++ y).take 3).takeWhile isOctalDigit = ds :=
    hrun hds (by rw [List.drop_left]; exact hy)
  simp only [octalEscape?, hdigits, List.drop_left, hd]
  rfl

/-- An escape looks at most one character further than it goes. -/
theorem escape?_settled {cs rest : List Char} {e : Char} (h : escape? cs = some (e, rest)) :
    ∃ a, a ≠ [] ∧ cs = a ++ rest ∧
      ∀ y, y.head? = rest.head? → escape? (a ++ y) = some (e, y) := by
  cases cs with
  | nil => cases h
  | cons c cs =>
    have hlong := h
    simp only [escape?] at h
    split at h
    · rename_i hc
      subst hc
      cases h
      exact ⟨['b'], List.cons_ne_nil _ _, rfl, fun y _ => by simp [escape?]⟩
    split at h
    · rename_i hc
      subst hc
      cases h
      exact ⟨['f'], List.cons_ne_nil _ _, rfl, fun y _ => by simp [escape?]⟩
    split at h
    · rename_i hc
      subst hc
      cases h
      exact ⟨['n'], List.cons_ne_nil _ _, rfl, fun y _ => by simp [escape?]⟩
    split at h
    · rename_i hc
      subst hc
      cases h
      exact ⟨['r'], List.cons_ne_nil _ _, rfl, fun y _ => by simp [escape?]⟩
    split at h
    · rename_i hc
      subst hc
      cases h
      exact ⟨['t'], List.cons_ne_nil _ _, rfl, fun y _ => by simp [escape?]⟩
    split at h
    · rename_i hc
      obtain ⟨a, rfl, ha⟩ := signedCodePoint?_settled h
      subst hc
      exact ⟨'u' :: a, List.cons_ne_nil _ _, rfl, fun y _ => by simp [escape?, ha]⟩
    split at h
    · rename_i hc
      obtain ⟨a, rfl, ha⟩ := signedCodePoint?_settled h
      subst hc
      exact ⟨'U' :: a, List.cons_ne_nil _ _, rfl, fun y _ => by simp [escape?, ha]⟩
    split at h
    · rename_i hc
      obtain ⟨a, rfl, ha⟩ := hexEscape?_settled h
      subst hc
      exact ⟨'x' :: a, List.cons_ne_nil _ _, rfl, fun y hy => by simp [escape?, ha y hy]⟩
    split at h
    · rename_i hb hf hn hr ht hu hU hx hc
      obtain ⟨a, hcs, ha⟩ := octalEscape?_settled h
      cases a with
      | nil =>
        have hlen := (escape?_suffix hlong).length_le
        simp only [List.nil_append, List.tail_cons] at hcs hlen
        rw [← hcs, List.length_cons] at hlen
        omega
      | cons d a =>
        obtain ⟨rfl, rfl⟩ := List.cons.inj hcs
        refine ⟨c :: a, List.cons_ne_nil _ _, rfl, fun y hy => ?_⟩
        have hay := ha y hy
        rw [List.cons_append] at hay
        rw [List.cons_append, escape?, if_neg hb, if_neg hf, if_neg hn, if_neg hr, if_neg ht,
          if_neg hu, if_neg hU, if_neg hx, if_pos hc, hay]
    · rename_i hb hf hn hr ht hu hU hx ho
      obtain ⟨rfl, rfl⟩ := Prod.mk.inj (Option.some.inj h)
      refine ⟨[c], List.cons_ne_nil _ _, rfl, fun y _ => ?_⟩
      rw [List.cons_append, List.nil_append, escape?, if_neg hb, if_neg hf, if_neg hn,
        if_neg hr, if_neg ht, if_neg hu, if_neg hU, if_neg hx, if_neg ho]

/-- A code point behind a backslash is read in front of any text. -/
theorem codePointEscape?_settled {cs rest : List Char} {e : Char}
    (h : codePointEscape? cs = some (e, rest)) :
    ∃ a, cs = a ++ rest ∧ ∀ y, codePointEscape? (a ++ y) = some (e, y) := by
  unfold codePointEscape? at h
  split at h
  · cases h
    exact ⟨['\\'], rfl, fun y => rfl⟩
  · obtain ⟨a, rfl, ha⟩ := codePoint?_settled h
    exact ⟨'+' :: a, rfl, ha⟩
  · rename_i cs hb hp
    obtain ⟨a, rfl, ha⟩ := codePoint?_settled h
    refine ⟨a, rfl, fun y => ?_⟩
    cases a with
    | nil =>
      -- a code point of four digits has four characters
      have hnil := ha []
      simp [codePoint?] at hnil
    | cons c a =>
      have hc1 : c ≠ '\\' := by rintro rfl; exact hb _ rfl
      have hc2 : c ≠ '+' := by rintro rfl; exact hp _ rfl
      rw [List.cons_append, codePointEscape?.eq_3 _ (by rintro cs ⟨⟩; exact hc1 rfl)
        (by rintro cs ⟨⟩; exact hc2 rfl), ← List.cons_append]
      exact ha y

/-! ## Values -/

theorem quoted?_settled {q : Char} {cs v rest : List Char}
    (h : quoted? q cs = some (v, rest)) :
    ∃ a, cs = a ++ rest ∧ rest.head? ≠ some q ∧
      ∀ y, y.head? ≠ some q → quoted? q (a ++ y) = some (v, y) := by
  refine ⟨double q v ++ [q], ?_, Text.head?_ne_of_quoted? h, fun y hy => ?_⟩
  · rw [Text.eq_double_of_quoted? h, List.append_assoc, List.cons_append, List.nil_append]
  · rw [List.append_assoc, List.cons_append, List.nil_append]
    exact Text.quoted?_double v y hy

/-- The value of a national string is decided by the text up to its closing quote. -/
theorem backslashed?_settled {cs v rest : List Char}
    (h : backslashed? cs = some (v, rest)) :
    ∃ a, a ≠ [] ∧ cs = a ++ rest ∧ rest.head? ≠ some '\'' ∧
      ∀ y, y.head? ≠ some '\'' → backslashed? (a ++ y) = some (v, y) := by
  fun_induction backslashed? cs generalizing v rest with
  | case1 => cases h
  | case2 =>
    cases h
    refine ⟨['\''], List.cons_ne_nil _ _, rfl, by simp, fun y hy => ?_⟩
    cases y with
    | nil => rfl
    | cons d y =>
      have hd : d ≠ '\'' := by simpa using hy
      simp [backslashed?, hd]
  | case3 => cases h
  | case4 cs ih =>
    obtain ⟨r, hr, he⟩ := Option.map_eq_some_iff.1 h
    obtain ⟨rfl, rfl⟩ := Prod.mk.inj he
    obtain ⟨a, -, rfl, hrest, ha⟩ := ih (v := r.1) hr
    refine ⟨'\'' :: '\'' :: a, List.cons_ne_nil _ _, rfl, hrest, fun y hy => ?_⟩
    simp [backslashed?, ha y hy]
  | case5 d cs hd =>
    cases h
    refine ⟨['\''], List.cons_ne_nil _ _, rfl, by simpa using hd, fun y hy => ?_⟩
    cases y with
    | nil => rfl
    | cons d y =>
      have hd : d ≠ '\'' := by simpa using hy
      simp [backslashed?, hd]
  | case6 d cs hq ih =>
    obtain ⟨r, hr, he⟩ := Option.map_eq_some_iff.1 h
    obtain ⟨rfl, rfl⟩ := Prod.mk.inj he
    obtain ⟨a, -, rfl, hrest, ha⟩ := ih (v := r.1) hr
    refine ⟨'\\' :: d :: a, List.cons_ne_nil _ _, rfl, hrest, fun y hy => ?_⟩
    simp [backslashed?, ha y hy]
  | case7 c d cs hq hb ih =>
    obtain ⟨r, hr, he⟩ := Option.map_eq_some_iff.1 h
    obtain ⟨rfl, rfl⟩ := Prod.mk.inj he
    obtain ⟨a, hne, hcs, hrest, ha⟩ := ih (v := r.1) hr
    refine ⟨c :: a, List.cons_ne_nil _ _, by rw [hcs]; rfl, hrest, fun y hy => ?_⟩
    obtain ⟨d', a', rfl⟩ := List.exists_cons_of_ne_nil hne
    rw [List.cons_append, List.cons_append, backslashed?, if_neg hq, if_neg hb,
      ← List.cons_append, ha y hy]
    rfl

/-- The text up to the closing quote has a first character, and it stays. -/
theorem head?_append_congr {a : List Char} (h : a ≠ []) (x y : List Char) :
    (a ++ y).head? = (a ++ x).head? := by
  rw [List.head?_append_of_ne_nil a h, List.head?_append_of_ne_nil a h]

theorem escaped?_of_escape? {cs rest : List Char} {e : Char} (h : escape? cs = some (e, rest)) :
    escaped? ('\\' :: cs) =
      if e = Char.ofNat 0 then none else (escaped? rest).map fun r => (e :: r.1, r.2) := by
  conv_lhs => unfold escaped?
  rw [if_neg (by decide), if_pos rfl]
  split
  · rename_i e' rest' hs
    rw [h] at hs
    cases hs
    rfl
  · rename_i hs
    rw [h] at hs
    cases hs

theorem escaped?_of_ne {c : Char} (hq : c ≠ '\'') (hb : c ≠ '\\') (cs : List Char) :
    escaped? (c :: cs) = (escaped? cs).map fun r => (c :: r.1, r.2) := by
  conv_lhs => unfold escaped?
  rw [if_neg hq, if_neg hb]

theorem codePoints?_of_escape? {cs rest : List Char} {e : Char}
    (h : codePointEscape? cs = some (e, rest)) :
    codePoints? ('\\' :: cs) = (codePoints? rest).map fun r => (e :: r.1, r.2) := by
  conv_lhs => unfold codePoints?
  rw [if_neg (by decide), if_pos rfl]
  split
  · rename_i e' rest' hs
    rw [h] at hs
    cases hs
    rfl
  · rename_i hs
    rw [h] at hs
    cases hs

theorem codePoints?_of_ne {c : Char} (hq : c ≠ '\'') (hb : c ≠ '\\') (cs : List Char) :
    codePoints? (c :: cs) = (codePoints? cs).map fun r => (c :: r.1, r.2) := by
  conv_lhs => unfold codePoints?
  rw [if_neg hq, if_neg hb]

/-- The value of an escaped string is decided by the text up to its closing quote. -/
theorem escaped?_settled {cs v rest : List Char} (h : escaped? cs = some (v, rest)) :
    ∃ a, a ≠ [] ∧ cs = a ++ rest ∧ rest.head? ≠ some '\'' ∧
      ∀ y, y.head? ≠ some '\'' → escaped? (a ++ y) = some (v, y) := by
  have hclose : ∀ y : List Char, y.head? ≠ some '\'' → escaped? ('\'' :: y) = some ([], y) := by
    intro y hy
    cases y with
    | nil => rw [escaped?, if_pos rfl]
    | cons d y =>
      have hd : d ≠ '\'' := by simpa using hy
      rw [escaped?, if_pos rfl]
      simp only [if_neg hd]
  fun_induction escaped? cs generalizing v rest with
  | case1 => cases h
  | case2 ds ih =>
    obtain ⟨r, hr, he⟩ := Option.map_eq_some_iff.1 h
    obtain ⟨rfl, rfl⟩ := Prod.mk.inj he
    obtain ⟨a, -, rfl, hrest, ha⟩ := ih (v := r.1) hr
    refine ⟨'\'' :: '\'' :: a, List.cons_ne_nil _ _, rfl, hrest, fun y hy => ?_⟩
    rw [List.cons_append, List.cons_append, escaped?, if_pos rfl]
    simp only [if_true, ha y hy]
    rfl
  | case3 d ds hd =>
    cases h
    exact ⟨['\''], List.cons_ne_nil _ _, rfl, by simpa using hd, hclose⟩
  | case4 =>
    cases h
    exact ⟨['\''], List.cons_ne_nil _ _, rfl, by simp, hclose⟩
  | case5 => cases h
  | case6 cs e more he hzero hq ih =>
    obtain ⟨r, hr, heq⟩ := Option.map_eq_some_iff.1 h
    obtain ⟨rfl, rfl⟩ := Prod.mk.inj heq
    obtain ⟨b, -, rfl, hb⟩ := escape?_settled he
    obtain ⟨a, hne, rfl, hrest, ha⟩ := ih (v := r.1) hr
    refine ⟨'\\' :: (b ++ a), List.cons_ne_nil _ _, by simp, hrest, fun y hy => ?_⟩
    have hread := hb (a ++ y) (head?_append_congr hne _ _)
    rw [List.cons_append, List.append_assoc, escaped?_of_escape? hread, if_neg hzero, ha y hy]
    rfl
  | case7 => cases h
  | case8 c cs hq hb ih =>
    obtain ⟨r, hr, he⟩ := Option.map_eq_some_iff.1 h
    obtain ⟨rfl, rfl⟩ := Prod.mk.inj he
    obtain ⟨a, -, rfl, hrest, ha⟩ := ih (v := r.1) hr
    refine ⟨c :: a, List.cons_ne_nil _ _, rfl, hrest, fun y hy => ?_⟩
    rw [List.cons_append, escaped?_of_ne hq hb, ha y hy]
    rfl

/-- The value of a string of code points is decided by the text up to its closing quote. -/
theorem codePoints?_settled {cs v rest : List Char} (h : codePoints? cs = some (v, rest)) :
    ∃ a, cs = a ++ rest ∧ rest.head? ≠ some '\'' ∧
      ∀ y, y.head? ≠ some '\'' → codePoints? (a ++ y) = some (v, y) := by
  have hclose : ∀ y : List Char, y.head? ≠ some '\'' →
      codePoints? ('\'' :: y) = some ([], y) := by
    intro y hy
    cases y with
    | nil => rw [codePoints?, if_pos rfl]
    | cons d y =>
      have hd : d ≠ '\'' := by simpa using hy
      rw [codePoints?, if_pos rfl]
      simp only [if_neg hd]
  fun_induction codePoints? cs generalizing v rest with
  | case1 => cases h
  | case2 ds ih =>
    obtain ⟨r, hr, he⟩ := Option.map_eq_some_iff.1 h
    obtain ⟨rfl, rfl⟩ := Prod.mk.inj he
    obtain ⟨a, rfl, hrest, ha⟩ := ih (v := r.1) hr
    refine ⟨'\'' :: '\'' :: a, rfl, hrest, fun y hy => ?_⟩
    rw [List.cons_append, List.cons_append, codePoints?, if_pos rfl]
    simp only [if_true, ha y hy]
    rfl
  | case3 d ds hd =>
    cases h
    exact ⟨['\''], rfl, by simpa using hd, hclose⟩
  | case4 =>
    cases h
    exact ⟨['\''], rfl, by simp, hclose⟩
  | case5 cs e more he hq ih =>
    obtain ⟨r, hr, heq⟩ := Option.map_eq_some_iff.1 h
    obtain ⟨rfl, rfl⟩ := Prod.mk.inj heq
    obtain ⟨b, rfl, hb⟩ := codePointEscape?_settled he
    obtain ⟨a, rfl, hrest, ha⟩ := ih (v := r.1) hr
    refine ⟨'\\' :: (b ++ a), by simp, hrest, fun y hy => ?_⟩
    have hread := hb (a ++ y)
    rw [List.cons_append, List.append_assoc, codePoints?_of_escape? hread, ha y hy]
    rfl
  | case6 => cases h
  | case7 c cs hq hb ih =>
    obtain ⟨r, hr, he⟩ := Option.map_eq_some_iff.1 h
    obtain ⟨rfl, rfl⟩ := Prod.mk.inj he
    obtain ⟨a, rfl, hrest, ha⟩ := ih (v := r.1) hr
    refine ⟨c :: a, rfl, hrest, fun y hy => ?_⟩
    rw [List.cons_append, codePoints?_of_ne hq hb, ha y hy]
    rfl

/-- A text up to a delimiter is read in front of any text. -/
theorem upTo?_settled {d cs v rest : List Char} (hd : d ≠ [])
    (h : upTo? d cs = some (v, rest)) :
    ∃ a, cs = a ++ rest ∧ ∀ y, upTo? d (a ++ y) = some (v, y) := by
  have hcs : cs = v ++ d ++ rest := Text.eq_append_of_upTo? h
  subst hcs
  exact ⟨v ++ d, rfl, Text.upTo?_append_congr hd h⟩

/-- The texts that may stand behind a literal: those that do not begin with its quote, where
a single quote closes it. -/
def Closed (form : LiteralForm) (y : List Char) : Prop :=
  match form with
  | .plain | .national | .hex | .escaped | .codePoints => y.head? ≠ some '\''
  | .bytes q | .raw false q => y.head? ≠ some q.char
  | .raw true _ | .dollar _ => True

/-- **Where a literal ends is decided by its text**: another text may stand behind it, as
long as it does not begin with a further quote. -/
theorem literalValue?_settled {form : LiteralForm} {cs v rest : List Char}
    (h : literalValue? form cs = some (v, rest)) :
    ∃ a, cs = a ++ rest ∧ Closed form rest ∧
      ∀ y, Closed form y → literalValue? form (a ++ y) = some (v, y) := by
  cases form with
  | plain => exact quoted?_settled h
  | national =>
    obtain ⟨a, -, hcs, hrest, ha⟩ := backslashed?_settled h
    exact ⟨a, hcs, hrest, ha⟩
  | escaped =>
    obtain ⟨a, -, hcs, hrest, ha⟩ := escaped?_settled h
    exact ⟨a, hcs, hrest, ha⟩
  | codePoints => exact codePoints?_settled h
  | hex =>
    obtain ⟨a, -, hcs, hrest, ha⟩ := backslashed?_settled h
    exact ⟨a, hcs, hrest, ha⟩
  | bytes q => exact quoted?_settled h
  | raw triple q =>
    cases triple with
    | false => exact quoted?_settled h
    | true =>
      obtain ⟨a, hcs, ha⟩ := upTo?_settled (List.cons_ne_nil _ _) h
      exact ⟨a, hcs, trivial, fun y _ => ha y⟩
  | dollar tag =>
    obtain ⟨a, hcs, ha⟩ := upTo?_settled (by simp) h
    exact ⟨a, hcs, trivial, fun y _ => ha y⟩

/-- Where a block comment ends is decided by its text. -/
theorem blockComment?_settled {depth : Nat} {cs v rest : List Char}
    (h : blockComment? depth cs = some (v, rest)) :
    cs = v ++ '*' :: '/' :: rest ∧
      ∀ y, blockComment? depth (v ++ '*' :: '/' :: y) = some (v, y) := by
  fun_induction blockComment? depth cs generalizing v rest with
  | case1 => cases h
  | case2 => cases h
  | case3 depth c d cs hcd ih =>
    obtain ⟨r, hr, he⟩ := Option.map_eq_some_iff.1 h
    obtain ⟨rfl, rfl⟩ := Prod.mk.inj he
    obtain ⟨hcs, hy⟩ := ih (v := r.1) hr
    refine ⟨by rw [hcs]; rfl, fun y => ?_⟩
    rw [List.cons_append, List.cons_append, blockComment?.eq_def]
    simp only [if_pos hcd, hy y]
    rfl
  | case4 c d cs hopen hclose =>
    cases h
    obtain ⟨rfl, rfl⟩ := hclose
    exact ⟨rfl, fun y => by simp [blockComment?]⟩
  | case5 c d cs hopen hclose depth ih =>
    obtain ⟨r, hr, he⟩ := Option.map_eq_some_iff.1 h
    obtain ⟨rfl, rfl⟩ := Prod.mk.inj he
    obtain ⟨hcs, hy⟩ := ih (v := r.1) hr
    refine ⟨by rw [hcs]; rfl, fun y => ?_⟩
    rw [List.cons_append, List.cons_append, blockComment?, if_neg hopen, if_pos hclose, hy y]
    rfl
  | case6 depth c d cs hopen hclose ih =>
    obtain ⟨r, hr, he⟩ := Option.map_eq_some_iff.1 h
    obtain ⟨rfl, rfl⟩ := Prod.mk.inj he
    obtain ⟨hcs, hy⟩ := ih (v := r.1) hr
    refine ⟨by rw [hcs]; rfl, fun y => ?_⟩
    -- the comment goes on with `d`, whatever stands behind it
    obtain ⟨ds, hds⟩ : ∃ ds, r.1 ++ '*' :: '/' :: y = d :: ds := by
      cases hv : r.1 with
      | nil =>
        rw [hv, List.nil_append] at hcs
        exact ⟨'/' :: y, by rw [(List.cons.inj hcs).1]; rfl⟩
      | cons d' v =>
        rw [hv, List.cons_append] at hcs
        exact ⟨v ++ '*' :: '/' :: y, by rw [(List.cons.inj hcs).1]; rfl⟩
    rw [List.cons_append, hds, blockComment?.eq_def]
    simp only [if_neg hopen, if_neg hclose, ← hds, hy y]
    rfl

end Token
end SchemaScript
