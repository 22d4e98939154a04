import SchemaScript.Proofs.Script.Modes
import SchemaScript.Proofs.Token.Settle

/-!
# Tokens that a scanner of statements passes as a whole

The tokens of a text and the modes of the scanner that cuts it into statements go by different
rules. Here each token is followed through the modes. Most of them lead from normal mode back
to it: quotes are doubled in strings and names, and what stands in front of a string is no
quote itself. A comment up to the end of the line leads back if the line has an end.

The others are told apart by `IsLegible`. For the scanner a quote behind a backslash closes a
string, three quotes are one quote doubled, a comment closes where a comment inside it does, a
dollar sign opens nothing, and neither does the character that a number sign or at sign
takes into a word.
-/

namespace SchemaScript
namespace Script

/-! ## Strings with escapes -/

open Token Mode

/-- A string with doubled quotes and escapes ends in its closing quote, and without a backslash
it is a quoted text. -/
theorem exists_backslashed {cs v rest : List Char} (h : backslashed? cs = some (v, rest)) :
    ∃ a, cs = a ++ '\'' :: rest ∧
      ('\\' ∉ a → singleQuoted.behind? cs = normal.behind? rest) := by
  fun_induction backslashed? cs generalizing v rest with
  | case1 => cases h
  | case2 =>
    cases h
    exact ⟨[], rfl, fun _ => encloses_single.close []⟩
  | case3 => cases h
  | case4 cs ih =>
    obtain ⟨r, hr, he⟩ := Option.map_eq_some_iff.1 h
    obtain ⟨rfl, rfl⟩ := Prod.mk.inj he
    obtain ⟨a, rfl, ha⟩ := ih hr
    refine ⟨'\'' :: '\'' :: a, rfl, fun hb => ?_⟩
    rw [encloses_single.twice]
    exact ha fun hx => hb (List.mem_cons_of_mem _ (List.mem_cons_of_mem _ hx))
  | case5 d cs hd =>
    cases h
    exact ⟨[], rfl, fun _ => encloses_single.close (d :: cs)⟩
  | case6 d cs _ ih =>
    obtain ⟨r, hr, he⟩ := Option.map_eq_some_iff.1 h
    obtain ⟨rfl, rfl⟩ := Prod.mk.inj he
    obtain ⟨a, rfl, -⟩ := ih hr
    exact ⟨'\\' :: d :: a, rfl, fun hb => absurd List.mem_cons_self hb⟩
  | case7 c d cs hq _ ih =>
    obtain ⟨r, hr, he⟩ := Option.map_eq_some_iff.1 h
    obtain ⟨rfl, rfl⟩ := Prod.mk.inj he
    obtain ⟨a, hcs, ha⟩ := ih hr
    refine ⟨c :: a, by rw [hcs]; rfl, fun hb => ?_⟩
    rw [encloses_single.pass hq]
    exact ha fun hx => hb (List.mem_cons_of_mem c hx)

theorem exists_escaped {cs v rest : List Char} (h : escaped? cs = some (v, rest)) :
    ∃ a, cs = a ++ '\'' :: rest ∧
      ('\\' ∉ a → singleQuoted.behind? cs = normal.behind? rest) := by
  fun_induction escaped? cs generalizing v rest with
  | case1 => cases h
  | case2 ds ih =>
    obtain ⟨r, hr, he⟩ := Option.map_eq_some_iff.1 h
    obtain ⟨rfl, rfl⟩ := Prod.mk.inj he
    obtain ⟨a, rfl, ha⟩ := ih hr
    refine ⟨'\'' :: '\'' :: a, rfl, fun hb => ?_⟩
    rw [encloses_single.twice]
    exact ha fun hx => hb (List.mem_cons_of_mem _ (List.mem_cons_of_mem _ hx))
  | case3 d ds hd =>
    cases h
    exact ⟨[], rfl, fun _ => encloses_single.close (d :: ds)⟩
  | case4 =>
    cases h
    exact ⟨[], rfl, fun _ => encloses_single.close []⟩
  | case5 => cases h
  | case6 cs e behind he _ _ ih =>
    obtain ⟨r, hr, heq⟩ := Option.map_eq_some_iff.1 h
    obtain ⟨rfl, rfl⟩ := Prod.mk.inj heq
    obtain ⟨a, hbehind, -⟩ := ih hr
    obtain ⟨w, hw⟩ := (escape?_suffix he).trans (List.tail_suffix cs)
    refine ⟨'\\' :: (w ++ a), ?_, fun hb => absurd List.mem_cons_self hb⟩
    rw [← hw, hbehind, List.cons_append, List.append_assoc]
  | case7 => cases h
  | case8 c cs hq _ ih =>
    obtain ⟨r, hr, he⟩ := Option.map_eq_some_iff.1 h
    obtain ⟨rfl, rfl⟩ := Prod.mk.inj he
    obtain ⟨a, rfl, ha⟩ := ih hr
    refine ⟨c :: a, rfl, fun hb => ?_⟩
    rw [encloses_single.pass hq]
    exact ha fun hx => hb (List.mem_cons_of_mem c hx)

/-- The digits of a number are hexadecimal digits. -/
theorem isHexDigit_of_hexValue? {ds : List Char} {n : Nat} (h : hexValue? ds = some n) :
    ∀ c ∈ ds, isHexDigit c = true := by
  unfold hexValue? at h
  generalize 0 = start at h
  induction ds generalizing start with
  | nil => exact fun c hc => absurd hc List.not_mem_nil
  | cons d ds ih =>
    rw [List.foldlM_cons] at h
    obtain ⟨k, hk, hds⟩ := Option.bind_eq_some_iff.1 h
    intro c hc
    rcases List.mem_cons.1 hc with rfl | hc
    · obtain ⟨v, hv, -⟩ := Option.map_eq_some_iff.1 hk
      rw [isHexDigit, hv]
      rfl
    · exact ih k hds c hc

theorem exists_codePoint {n : Nat} {cs rest : List Char} {e : Char}
    (h : codePoint? n cs = some (e, rest)) : ∃ a, cs = a ++ rest ∧ '\'' ∉ a := by
  unfold codePoint? at h
  split at h
  · cases h
  · obtain ⟨c, hc, he⟩ := Option.map_eq_some_iff.1 h
    obtain ⟨rfl, rfl⟩ := Prod.mk.inj he
    obtain ⟨k, hk, -⟩ := Option.bind_eq_some_iff.1 hc
    refine ⟨cs.take n, (List.take_append_drop n cs).symm, fun hq => ?_⟩
    have hdigit := isHexDigit_of_hexValue? hk _ hq
    revert hdigit
    decide

/-- No escape of a code point takes a quote. -/
theorem exists_codePointEscape {cs rest : List Char} {e : Char}
    (h : codePointEscape? cs = some (e, rest)) : ∃ a, cs = a ++ rest ∧ '\'' ∉ a := by
  unfold codePointEscape? at h
  split at h
  · cases h
    exact ⟨['\\'], rfl, by decide⟩
  · obtain ⟨a, rfl, ha⟩ := exists_codePoint h
    refine ⟨'+' :: a, rfl, fun hx => ?_⟩
    rcases List.mem_cons.1 hx with hx | hx
    · cases hx
    · exact ha hx
  · exact exists_codePoint h

theorem behind?_codePoints {cs v rest : List Char} (h : codePoints? cs = some (v, rest)) :
    singleQuoted.behind? cs = normal.behind? rest := by
  fun_induction codePoints? cs generalizing v rest with
  | case1 => cases h
  | case2 ds ih =>
    obtain ⟨r, hr, he⟩ := Option.map_eq_some_iff.1 h
    obtain ⟨rfl, rfl⟩ := Prod.mk.inj he
    rw [encloses_single.twice, ih hr]
  | case3 d ds hd =>
    cases h
    exact encloses_single.close (d :: ds)
  | case4 =>
    cases h
    exact encloses_single.close []
  | case5 cs e behind he _ ih =>
    obtain ⟨r, hr, heq⟩ := Option.map_eq_some_iff.1 h
    obtain ⟨rfl, rfl⟩ := Prod.mk.inj heq
    obtain ⟨a, rfl, ha⟩ := exists_codePointEscape he
    rw [encloses_single.pass (by decide), encloses_single.pass_append ha, ih hr]
  | case6 => cases h
  | case7 c cs hq _ ih =>
    obtain ⟨r, hr, he⟩ := Option.map_eq_some_iff.1 h
    obtain ⟨rfl, rfl⟩ := Prod.mk.inj he
    rw [encloses_single.pass hq, ih hr]

/-! ## Comments -/

theorem behind?_pass_comment {c : Char} {cs : List Char} (h : ¬ (c = '*' ∧ cs.head? = some '/')) :
    blockComment.behind? (c :: cs) = blockComment.behind? cs := by
  rw [Mode.behind?, if_neg (by decide), if_neg (fun hx => h hx.2),
    if_neg (by simp [Scanner.closer?])]

/-- A comment without a comment inside leads back to normal mode. -/
theorem behind?_blockComment {cs v rest : List Char}
    (h : blockComment? 0 cs = some (v, rest)) (hv : ¬ ['/', '*'] <:+: v) :
    blockComment.behind? cs = normal.behind? rest := by
  generalize hdepth : 0 = depth at h
  fun_induction blockComment? depth cs generalizing v rest with
  | case1 => cases h
  | case2 => cases h
  | case3 depth c d cs hopen ih =>
    obtain ⟨r, hr, he⟩ := Option.map_eq_some_iff.1 h
    obtain ⟨rfl, rfl⟩ := Prod.mk.inj he
    obtain ⟨rfl, rfl⟩ := hopen
    exact absurd (List.prefix_append ['/', '*'] r.1).isInfix hv
  | case4 c d cs _ hclose =>
    cases h
    obtain ⟨rfl, rfl⟩ := hclose
    rw [Mode.behind?, if_neg (by decide), if_pos ⟨rfl, rfl, rfl⟩]
    rfl
  | case5 => cases hdepth
  | case6 depth c d cs _ hclose ih =>
    obtain ⟨r, hr, he⟩ := Option.map_eq_some_iff.1 h
    obtain ⟨rfl, rfl⟩ := Prod.mk.inj he
    have hpass : ¬ (c = '*' ∧ (d :: cs).head? = some '/') :=
      fun hx => hclose ⟨hx.1, Option.some.inj hx.2⟩
    rw [behind?_pass_comment hpass]
    have hinner : ¬ ['/', '*'] <:+: r.1 :=
      fun hx => hv (hx.trans (List.suffix_cons c r.1).isInfix)
    exact ih hinner hdepth hr

/-- A comment up to the end of the line leads back to normal mode, if the line has an end. -/
theorem behind?_lineComment (cs : List Char) :
    lineComment.behind? cs = normal.behind? (scanLineComment cs).2 ∨
      ((scanLineComment cs).2 = [] ∧ lineComment.behind? cs = some .lineComment) := by
  induction cs with
  | nil => exact Or.inr ⟨rfl, behind?_nil _⟩
  | cons c cs ih =>
    by_cases hc : c = '\n'
    · subst hc
      left
      simp only [Mode.behind?, Scanner.closer?, scanLineComment]
      simp
    · have hscan : (scanLineComment (c :: cs)).2 = (scanLineComment cs).2 := by
        have hdrop : (c :: cs).dropWhile (· != '\n') = cs.dropWhile (· != '\n') := by
          simp [hc]
        simp only [scanLineComment, hdrop]
        cases cs.dropWhile (· != '\n') <;> rfl
      have hpass : lineComment.behind? (c :: cs) = lineComment.behind? cs := by
        rw [Mode.behind?, if_neg (by decide), if_neg (by simp),
          if_neg (by simp [Scanner.closer?, Ne.symm hc])]
      rw [hscan, hpass]
      exact ih

/-! ## Tokens -/

/-- Whether a scanner of statements that meets the lexeme in normal mode is back in it behind
the lexeme, wherever that stands. Of strings with escapes only those with a backslash are in
question. -/
def IsLegible (l : Lexeme) : Prop :=
  match l.token with
  | .word text => ∀ c ∈ text.toList, isWordPart c = true
  | .literal .national _ | .literal .escaped _ | .literal .hex _ =>
    '\\' ∈ l.written → normal.behind? l.written = some .normal
  | .literal (.raw true _) _ | .literal (.dollar _) _ => normal.behind? l.written = some .normal
  | .blank (.blockComment text) => ¬ ['/', '*'] <:+: text.toList
  | .sign text => text ∉ ["//", "|/", "||/", "#-"]
  | _ => True

/-- Whether what a token leaves of a text is entered in normal mode, or is nothing behind a
comment whose line has no end. -/
def Passes (cs rest : List Char) : Prop :=
  normal.behind? cs = normal.behind? rest ∨
    (rest = [] ∧ normal.behind? cs = some .lineComment)

theorem behind?_of_written {w : List Char} (rest : List Char)
    (h : normal.behind? w = some .normal) (hlast : ∀ c ∈ w.getLast?, isSettled c = true) :
    normal.behind? (w ++ rest) = normal.behind? rest := by
  rw [behind?_append rest hlast, h]
  rfl

/-- A string whose escapes do not mislead the scanner, or that has none. -/
theorem behind?_escaped {c : Char} {a rest : List Char} (hc : isWordStart c = true)
    (hw : '\\' ∈ c :: '\'' :: a ++ ['\''] →
      normal.behind? (c :: '\'' :: a ++ ['\'']) = some .normal)
    (ha : '\\' ∉ a → singleQuoted.behind? (a ++ '\'' :: rest) = normal.behind? rest) :
    normal.behind? (c :: '\'' :: (a ++ '\'' :: rest)) = normal.behind? rest := by
  by_cases hb : '\\' ∈ a
  · have hsplit : c :: '\'' :: (a ++ '\'' :: rest) = (c :: '\'' :: a ++ ['\'']) ++ rest := by simp
    rw [hsplit]
    refine behind?_of_written rest (hw (by simp [hb])) fun d hd => ?_
    rw [List.getLast?_append_cons] at hd
    cases hd
    rfl
  · rw [behind?_inert (isInert_of_isWordStart hc), encloses_single.open, ha hb]

/-- A text between three quotes ends in one. -/
theorem behind?_triple {c : Char} {q : StringQuote} {v rest : List Char}
    (h : normal.behind? (c :: q.char :: q.char :: q.char :: (v ++ [q.char, q.char, q.char])) =
      some .normal) :
    normal.behind? (c :: q.char :: q.char :: q.char ::
      (v ++ [q.char, q.char, q.char] ++ rest)) = normal.behind? rest := by
  refine behind?_of_written (w := c :: q.char :: q.char :: q.char ::
    (v ++ [q.char, q.char, q.char])) rest h fun d hd => ?_
  have hlast : (c :: q.char :: q.char :: q.char :: (v ++ [q.char, q.char, q.char])).getLast? =
      some q.char := by
    simp [List.getLast?_cons]
  rw [hlast] at hd
  cases hd
  cases q <;> rfl

/-- A literal that a letter opens leads back to normal mode. -/
theorem behind?_literal {c : Char} {cs v rest behind : List Char} {form : LiteralForm}
    (hc : isWordStart c = true) (hs : literalStart? c cs = some (form, behind))
    (hv : literalValue? form behind = some (v, rest))
    (hw : ∀ w, c :: cs = w ++ rest → IsLegible ⟨literal form (String.ofList v), w⟩) :
    normal.behind? (c :: cs) = normal.behind? rest := by
  have hinert := isInert_of_isWordStart hc
  -- a literal with escapes, read behind its quote
  have hescapes : ∀ {more : List Char}, cs = '\'' :: more →
      (∃ a, more = a ++ '\'' :: rest ∧
        ('\\' ∉ a → singleQuoted.behind? more = normal.behind? rest)) →
      (∀ w, c :: cs = w ++ rest → '\\' ∈ w → normal.behind? w = some .normal) →
      normal.behind? (c :: cs) = normal.behind? rest := by
    rintro more rfl ⟨a, rfl, ha⟩ hl
    exact behind?_escaped hc (hl _ (by simp)) ha
  -- a literal with doubled quotes alone
  have hquoted : ∀ {q : StringQuote} {more : List Char}, cs = q.char :: more →
      Text.quoted? q.char more = some (v, rest) →
      normal.behind? (c :: cs) = normal.behind? rest := by
    rintro q more rfl hq
    obtain ⟨mode, hmode⟩ := exists_encloses_string q
    rw [behind?_inert hinert, hmode.open, hmode.quoted? hq]
  -- a literal between three quotes
  have htriple : ∀ {q : StringQuote} {more : List Char}, cs = q.char :: q.char :: q.char :: more →
      Text.upTo? [q.char, q.char, q.char] more = some (v, rest) →
      (∀ w, c :: cs = w ++ rest → normal.behind? w = some .normal) →
      normal.behind? (c :: cs) = normal.behind? rest := by
    rintro q more rfl hq hl
    have hmore := Text.eq_append_of_upTo? hq
    subst hmore
    exact behind?_triple (hl _ (by simp))
  unfold literalStart? at hs
  split at hs
  case h_1 => cases hs; exact hquoted (q := .single) rfl hv
  case h_2 => cases hs; exact hquoted (q := .double) rfl hv
  case h_3 => cases hs; exact htriple (q := .single) rfl hv hw
  case h_4 => cases hs; exact htriple (q := .double) rfl hv hw
  case h_5 => cases hs; exact hquoted (q := .single) rfl hv
  case h_6 => cases hs; exact hquoted (q := .double) rfl hv
  case h_7 => cases hs; exact hescapes rfl (exists_backslashed hv) hw
  case h_8 => cases hs; exact hescapes rfl (exists_escaped hv) hw
  case h_9 =>
    cases hs
    rw [behind?_inert hinert, behind?_inert rfl, encloses_single.open, behind?_codePoints hv]
  case h_10 => cases hs; exact hescapes rfl (exists_backslashed hv) hw
  case h_11 => cases hs

/-- A number leads back to normal mode: a hyphen in it stands in front of a digit. -/
theorem behind?_number {cs rest : List Char} {t : Token} (h : ScannedNumber cs t rest) :
    normal.behind? cs = normal.behind? rest := by
  cases h with
  | hex cs =>
    rw [behind?_inert rfl, behind?_inert rfl]
    exact behind?_takeWhile (p := isHexDigit) (by decide) cs
  | period => exact behind?_inert rfl rest
  | @number whole part power rest hnum hr =>
    have hlong : normal.behind? rest = normal.behind? (dropLongMark rest) := by
      cases rest with
      | nil => rfl
      | cons c rest =>
        by_cases hc : c = 'L'
        · subst hc
          exact behind?_inert rfl rest
        · rw [dropLongMark, if_neg hc]
    have hpart : ∀ c ∈ whole ++ part, isInert c = true := by
      intro c hc
      rcases List.mem_append.1 hc with hc | hc
      · exact isInert_of_isDigit (hnum.whole_digits c hc)
      · rcases hnum.fraction with rfl | ⟨ds, rfl, hds⟩
        · cases hc
        · rcases List.mem_cons.1 hc with rfl | hc
          · rfl
          · exact isInert_of_isDigit (hds c hc)
    have hpower : normal.behind? (power ++ rest) = normal.behind? rest := by
      rcases hnum.exponent with rfl | ⟨e, sign, ds, he, hsign, hne, hds, rfl⟩
      · rfl
      · have hdigits := behind?_inert_append (fun c hc => isInert_of_isDigit (hds c hc)) rest
        have hletter : isInert e = true := by rcases he with rfl | rfl <;> rfl
        have hhead : (ds ++ rest).head? ≠ some '-' := by
          obtain ⟨d, ds, rfl⟩ := List.exists_cons_of_ne_nil hne
          intro hx
          obtain rfl : d = '-' := Option.some.inj hx
          cases hds '-' List.mem_cons_self
        rw [List.cons_append, List.cons_append, behind?_inert hletter, List.append_assoc,
          ← hdigits]
        rcases hsign with rfl | rfl | rfl
        · rfl
        · exact behind?_inert rfl _
        · exact behind?_hyphen hhead
    rw [List.append_assoc, behind?_inert_append hpart, hpower, hlong]

/-- The operators are spelled with inert characters, but for a hyphen in front and the four
that hold a bracket of a comment at their end. -/
theorem operators_inert : ∀ entry ∈ operators, entry.2 ≠ mark .semicolon →
    entry.2 ∉ ["//", "|/", "||/", "#-"].map sign →
    (∀ c ∈ entry.1, isInert c = true) ∨
      (entry.1.head? = some '-' ∧ ∀ c ∈ entry.1.tail, isInert c = true) := by
  decide

theorem behind?_operator {p rest : List Char} {t : Token} (hp : (p, t) ∈ operators)
    (hd : p = ['-'] → rest.head? ≠ some '-') (hsemi : t ≠ mark .semicolon)
    (hl : t ∉ ["//", "|/", "||/", "#-"].map sign) :
    normal.behind? (p ++ rest) = normal.behind? rest := by
  rcases operators_inert _ hp hsemi hl with hin | ⟨hhead, htail⟩
  · exact behind?_inert_append hin rest
  · obtain ⟨p', rfl⟩ := List.head?_eq_some_iff.1 hhead
    have hnext : (p' ++ rest).head? ≠ some '-' := by
      cases p' with
      | nil => exact hd rfl
      | cons c p' =>
        intro hx
        obtain rfl : c = '-' := Option.some.inj hx
        cases htail '-' List.mem_cons_self
    rw [List.cons_append, behind?_hyphen hnext]
    exact behind?_inert_append htail rest

/-- A word that a number sign or at sign begins leads back to normal mode if it is made of the
characters of words. -/
theorem behind?_scanWord {start cs : List Char}
    (h : ∀ c ∈ start ++ cs.takeWhile isWordPart, isWordPart c = true) :
    normal.behind? (start ++ cs) = normal.behind? (scanWord start cs).2 := by
  have hstart : ∀ c ∈ start, isInert c = true :=
    fun c hc => isInert_of_isWordPart (h c (List.mem_append_left _ hc))
  rw [behind?_inert_append hstart]
  exact behind?_takeWhile (p := isWordPart) (by decide) cs

theorem behind?_numberSign {cs : List Char}
    (h : ∀ text, (scanNumberSign cs).1 = word text → ∀ c ∈ text.toList, isWordPart c = true) :
    normal.behind? ('#' :: cs) = normal.behind? (scanNumberSign cs).2 := by
  cases cs with
  | nil => exact behind?_inert rfl []
  | cons c rest =>
    by_cases hc : c = ' '
    · rw [scanNumberSign, if_pos hc]
      exact behind?_inert rfl _
    · simp only [scanNumberSign, if_neg hc] at h ⊢
      have hword := h _ rfl
      rw [String.toList_ofList] at hword
      exact behind?_scanWord hword

theorem behind?_atSign {cs : List Char}
    (h : ∀ text, (scanAtSign cs).1 = word text → ∀ c ∈ text.toList, isWordPart c = true) :
    normal.behind? ('@' :: cs) = normal.behind? (scanAtSign cs).2 := by
  cases cs with
  | nil => exact behind?_inert rfl []
  | cons c rest =>
    by_cases hc : c = '@'
    · subst hc
      cases rest with
      | nil =>
        rw [behind?_inert rfl]
        exact behind?_inert rfl []
      | cons d more =>
        by_cases hd : d = ' '
        · simp only [scanAtSign, if_pos hd, if_true]
          rw [behind?_inert rfl, behind?_inert rfl]
        · simp only [scanAtSign, if_neg hd, if_true] at h ⊢
          have hword := h _ rfl
          rw [String.toList_ofList] at hword
          exact behind?_scanWord hword
    · by_cases hq : c = ' ' ∨ c = '\'' ∨ c = '"' ∨ c = '\x60'
      · simp only [scanAtSign, if_neg hc, if_pos hq]
        exact behind?_inert rfl _
      · simp only [scanAtSign, if_neg hc, if_neg hq] at h ⊢
        have hword := h _ rfl
        rw [String.toList_ofList] at hword
        exact behind?_scanWord hword

/-- A dollar sign is inert, and so is its tag; a string between tags ends in one. -/
theorem behind?_dollar {cs rest : List Char} {t : Token} (h : scanDollar? cs = some (t, rest))
    (hw : ∀ w, '$' :: cs = w ++ rest → IsLegible ⟨t, w⟩) :
    normal.behind? ('$' :: cs) = normal.behind? rest := by
  have hstop := Text.stops_dropWhile (p := isTagPart) cs
  have hrun : ∀ c ∈ cs.takeWhile isTagPart, isTagPart c = true := fun _ => List.mem_takeWhile_imp
  have happ : cs.takeWhile isTagPart ++ cs.dropWhile isTagPart = cs :=
    List.takeWhile_append_dropWhile
  generalize cs.takeWhile isTagPart = tag at *
  generalize cs.dropWhile isTagPart = behind at *
  subst happ
  by_cases hd : behind.head? = some '$'
  · obtain ⟨more, rfl⟩ := List.head?_eq_some_iff.1 hd
    rw [scanDollar?_tag hrun] at h
    obtain ⟨⟨v, rest'⟩, hv, he⟩ := Option.map_eq_some_iff.1 h
    obtain ⟨rfl, rfl⟩ := Prod.mk.inj he
    have hmore := Text.eq_append_of_upTo? hv
    rw [String.toList_ofList] at hmore
    have hsplit : '$' :: (tag ++ '$' :: more) =
        ('$' :: (tag ++ '$' :: (v ++ '$' :: tag ++ ['$']))) ++ rest' := by
      simp [hmore]
    have hl := hw _ hsplit
    rw [hsplit]
    refine behind?_of_written rest' hl fun d hd => ?_
    have hlast : ('$' :: (tag ++ '$' :: (v ++ '$' :: tag ++ ['$']))).getLast? = some '$' := by
      simp [List.getLast?_cons]
    rw [hlast] at hd
    cases hd
    rfl
  · rw [scanDollar?_sign hrun hstop hd] at h
    obtain ⟨-, rfl⟩ := Prod.mk.inj (Option.some.inj h)
    rw [behind?_inert rfl]
    exact behind?_inert_append (fun c hc => isInert_of_forall (p := isTagPart)
      (by decide) (hrun c hc)) behind

/-- A character that is a sign of its own leads back to normal mode. -/
theorem behind?_other {c : Char} {cs : List Char} (hc : opensSign c = true)
    (h : scanOperator? (c :: cs) = none) (hcom : ¬ OpensComment c cs) :
    normal.behind? (c :: cs) = normal.behind? cs := by
  -- a character that is spelled like an operator is read as one
  have hspelled : ∀ {d : Char} {t : Token}, ([d], t) ∈ operators → c ≠ d := by
    rintro d t hmem rfl
    have hnone := List.findSome?_eq_none_iff.1 h _ hmem
    rw [show Text.stripStart? [c] (c :: cs) = some cs by simp] at hnone
    cases hnone
  by_cases hslash : c = '/'
  · subst hslash
    exact behind?_slash fun hx => hcom (Or.inr ⟨rfl, hx⟩)
  · refine behind?_inert ?_ cs
    have hsemi : c ≠ ';' := hspelled (t := mark .semicolon) (by decide)
    have hhyphen : c ≠ '-' := hspelled (t := mark .minus) (by decide)
    simp only [opensSign, Bool.and_eq_true, bne_iff_ne, Bool.not_eq_true'] at hc
    obtain ⟨⟨⟨⟨⟨-, hsingle⟩, hdouble⟩, hback⟩, -⟩, -⟩ := hc
    simp [isInert, hsemi, hhyphen, hslash, hsingle, hdouble, hback]

/-- **A scanner of statements passes a legible token as a whole**, unless it is a semicolon. -/
theorem passes_of_scanned {cs rest : List Char} {t : Token} (h : Scanned cs t rest)
    (hsemi : t ≠ mark .semicolon) (hw : ∀ w, cs = w ++ rest → IsLegible ⟨t, w⟩) :
    Passes cs rest := by
  cases h with
  | space | tab | newline => exact Or.inl (behind?_inert rfl _)
  | carriageReturn cs =>
    left
    rw [behind?_inert rfl]
    cases cs with
    | nil => rfl
    | cons c cs =>
      by_cases hc : c = '\n'
      · subst hc
        exact behind?_inert rfl cs
      · rw [dropNewline, if_neg hc]
  | literal hc hs hv => exact Or.inl (behind?_literal hc hs hv hw)
  | @word c cs hc hs =>
    left
    rw [behind?_inert (isInert_of_isWordStart hc)]
    exact behind?_takeWhile (p := isWordPart) (by decide) cs
  | plain hv =>
    left
    rw [encloses_single.open, encloses_single.quoted? hv]
  | @quotedWord q cs v rest hv =>
    obtain ⟨mode, hmode⟩ := exists_encloses_name q
    left
    rw [hmode.open, hmode.quoted? hv]
  | number hn => exact Or.inl (behind?_number hn)
  | lineComment cs =>
    have hopen : normal.behind? ('-' :: '-' :: cs) = lineComment.behind? cs := by
      simp [Mode.behind?, Scanner.openedBy, Scanner.closer?]
    rw [Passes, hopen]
    exact behind?_lineComment cs
  | @blockComment cs v rest hv =>
    obtain ⟨w, hcs⟩ := blockComment?_suffix hv
    have hl : ¬ ['/', '*'] <:+: v := by
      have hin := hw ('/' :: '*' :: w) (by rw [← hcs]; rfl)
      simpa [IsLegible] using hin
    have hopen : normal.behind? ('/' :: '*' :: cs) = blockComment.behind? cs := by
      simp [Mode.behind?]
    left
    rw [hopen, behind?_blockComment hv hl]
  | @operator p rest t hp h hd =>
    left
    refine behind?_operator hp hd hsemi fun hmem => ?_
    obtain ⟨text, htext, rfl⟩ := List.mem_map.1 hmem
    exact hw p rfl htext
  | @numberSign cs h =>
    left
    refine behind?_numberSign fun text htext => ?_
    obtain ⟨w, hcs⟩ := scanNumberSign_suffix cs
    have hl := hw ('#' :: w) (by rw [List.cons_append, hcs])
    rw [htext] at hl
    exact hl
  | @atSign cs h =>
    left
    refine behind?_atSign fun text htext => ?_
    obtain ⟨w, hcs⟩ := scanAtSign_suffix cs
    have hl := hw ('@' :: w) (by rw [List.cons_append, hcs])
    rw [htext] at hl
    exact hl
  | placeholder cs =>
    left
    rw [behind?_inert rfl]
    exact behind?_takeWhile (p := Text.isNumeric) (by decide) cs
  | dollar h => exact Or.inl (behind?_dollar h hw)
  | foreignBlank hc hb => exact Or.inl (behind?_inert (isInert_of_isBlank hb) _)
  | other hc hb h hs hcom => exact Or.inl (behind?_other hc h hcom)

/-- **A text of legible tokens without a semicolon among them holds none that ends a statement**,
and it leads back to normal mode or into a comment that the line ends. -/
theorem behind?_of_isLegible {cs : List Char} {ts : List Token} (h : tokenize cs = some ts)
    (hsemi : mark .semicolon ∉ ts) (hl : ∀ l ∈ lexemes cs, IsLegible l) :
    normal.behind? cs = some .normal ∨ normal.behind? cs = some .lineComment := by
  induction h using tokenize_induction with
  | nil => exact Or.inl (behind?_nil _)
  | cons w t rest ts hs ht _ ih =>
    rw [lexemes_of_scan? hs] at hl
    have hpass : Passes (w ++ rest) rest := by
      refine passes_of_scanned (scanned_of_scan? hs) (fun ht => hsemi (by simp [ht]))
        fun w' hw' => ?_
      rw [← List.append_cancel_right hw']
      exact hl _ List.mem_cons_self
    rcases hpass with hpass | ⟨-, hpass⟩
    · rw [hpass]
      exact ih (fun hx => hsemi (List.mem_cons_of_mem t hx))
        fun l hx => hl l (List.mem_cons_of_mem _ hx)
    · exact Or.inr hpass

end Script
end SchemaScript
