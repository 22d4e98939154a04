import SchemaScript.Proofs.Token.Lexemes

/-!
# The ways to scan a token

`scan?` decides by the first characters which scanner reads a token. Here this decision is
said once, as a relation with one case for each way a token can be read (`Scanned`), and
the scanners that decide further, numbers above all, are opened up by lemmas of their own.
What is proved about all tokens goes through these cases and never unfolds `scan?` again.
-/

namespace SchemaScript
namespace Token

open Text (Stops quoted?)

/-! ## Numbers -/

/-- The fraction of a number: nothing, or a period with digits behind it. -/
def IsFraction (part : List Char) : Prop :=
  part = [] ∨ ∃ ds, part = '.' :: ds ∧ ∀ c ∈ ds, c.isDigit = true

/-- The exponent of a number: nothing, or its letter, perhaps a sign, and digits. -/
def IsExponent (power : List Char) : Prop :=
  power = [] ∨ ∃ e sign ds, (e = 'e' ∨ e = 'E') ∧ (sign = [] ∨ sign = ['+'] ∨ sign = ['-']) ∧
    ds ≠ [] ∧ (∀ c ∈ ds, c.isDigit = true) ∧ power = e :: sign ++ ds

/-- The parts of a number: digits, a fraction and an exponent, with at least one digit in front
of the exponent. -/
structure IsNumber (whole part power : List Char) : Prop where
  whole_digits : ∀ c ∈ whole, c.isDigit = true
  fraction : IsFraction part
  exponent : IsExponent power
  ne_nil : whole ++ part ≠ []
  ne_period : whole ++ part ≠ ['.']

/-- A text that does not carry the number `digits` on. -/
structure StopsNumber (digits rest : List Char) : Prop where
  digit : Stops Char.isDigit rest
  period : (∀ c ∈ digits, c.isDigit = true) → rest.head? ≠ some '.'
  hex : digits = ['0'] → rest.head? ≠ some 'x'
  exponent : (∀ c ∈ digits, c ≠ 'e' ∧ c ≠ 'E') → Token.exponent rest = ([], rest)

/-- A number without a fraction and an exponent is made of digits. -/
theorem IsNumber.forall_isDigit_iff {whole part power : List Char}
    (h : IsNumber whole part power) :
    (∀ c ∈ whole ++ part ++ power, c.isDigit = true) ↔ part = [] ∧ power = [] := by
  constructor
  · intro hd
    constructor
    · rcases h.fraction with hp | ⟨ds, rfl, -⟩
      · exact hp
      · have hperiod := hd '.' (by simp)
        cases hperiod
    · rcases h.exponent with hp | ⟨e, sign, ds, he, -, -, -, rfl⟩
      · exact hp
      · have hletter := hd e (by simp)
        rcases he with rfl | rfl <;> cases hletter
  · rintro ⟨rfl, rfl⟩
    rw [List.append_nil, List.append_nil]
    exact h.whole_digits

/-- A number without an exponent has no letter. -/
theorem IsNumber.forall_ne_letter_iff {whole part power : List Char}
    (h : IsNumber whole part power) :
    (∀ c ∈ whole ++ part ++ power, c ≠ 'e' ∧ c ≠ 'E') ↔ power = [] := by
  have hdigit : ∀ c : Char, c.isDigit = true → c ≠ 'e' ∧ c ≠ 'E' := by
    intro c hc
    constructor <;> rintro rfl <;> cases hc
  constructor
  · intro hl
    rcases h.exponent with hp | ⟨e, sign, ds, he, -, -, -, rfl⟩
    · exact hp
    · have hletter := hl e (by simp)
      rcases he with rfl | rfl
      · exact absurd rfl hletter.1
      · exact absurd rfl hletter.2
  · rintro rfl c hc
    rw [List.append_nil, List.mem_append] at hc
    rcases hc with hc | hc
    · exact hdigit c (h.whole_digits c hc)
    · rcases h.fraction with rfl | ⟨ds, rfl, hds⟩
      · cases hc
      · rcases List.mem_cons.1 hc with rfl | hc
        · exact ⟨by decide, by decide⟩
        · exact hdigit c (hds c hc)

/-- An exponent is taken as a whole in front of a text without further digits. -/
theorem exponent_append {power rest : List Char} (h : IsExponent power) (hne : power ≠ [])
    (hr : Stops Char.isDigit rest) : exponent (power ++ rest) = (power, rest) := by
  rcases h with rfl | ⟨e, sign, ds, he, hsign, hds, hdig, rfl⟩
  · exact absurd rfl hne
  have hsg : exponentSign (sign ++ (ds ++ rest)) = sign := by
    rcases hsign with rfl | rfl | rfl
    · obtain ⟨d, ds, rfl⟩ := List.exists_cons_of_ne_nil hds
      have hd : d.isDigit = true := hdig d List.mem_cons_self
      have hplus : d ≠ '+' := by rintro rfl; simp at hd
      have hminus : d ≠ '-' := by rintro rfl; simp at hd
      simp [exponentSign, hplus, hminus]
    · simp [exponentSign]
    · simp [exponentSign]
  have happ : e :: sign ++ ds ++ rest = e :: (sign ++ (ds ++ rest)) := by simp
  have htake : (ds ++ rest).takeWhile Char.isDigit = ds :=
    Text.takeWhile_append_of_stops hdig hr
  have hdrop : (ds ++ rest).dropWhile Char.isDigit = rest :=
    Text.dropWhile_append_of_stops hdig hr
  rw [happ]
  simp only [exponent, hsg, List.drop_left, htake, hdrop]
  rw [if_pos ⟨he, hds⟩]

/-- A number is taken as a whole in front of a text that does not carry it on. -/
theorem scanNumber_append {whole part power rest : List Char} (h : IsNumber whole part power)
    (hr : StopsNumber (whole ++ part ++ power) rest) :
    scanNumber (whole ++ part ++ power ++ rest) =
      (number (String.ofList (whole ++ part ++ power)), dropLongMark rest) := by
  have hpower : exponent (power ++ rest) = (power, rest) := by
    by_cases hp : power = []
    · have hletter := h.forall_ne_letter_iff.2 hp
      subst hp
      exact hr.exponent hletter
    · exact exponent_append h.exponent hp hr.digit
  have hstop : Stops Char.isDigit (power ++ rest) := by
    rcases h.exponent with rfl | ⟨e, sign, ds, he, -, -, -, rfl⟩
    · exact hr.digit
    · rcases he with rfl | rfl <;> exact Text.stops_cons.2 rfl
  have hfraction : fraction (part ++ (power ++ rest)) = (part, power ++ rest) := by
    rcases h.fraction with rfl | ⟨ds, rfl, hds⟩
    · cases hcs : power ++ rest with
      | nil => simp [fraction]
      | cons c cs =>
        have hc : c ≠ '.' := by
          rintro rfl
          have hdigit := h.forall_isDigit_iff
          rcases h.exponent with rfl | ⟨e, sign, ds, he, -, -, -, rfl⟩
          · exact hr.period (hdigit.2 ⟨rfl, rfl⟩) (by rw [List.nil_append] at hcs; rw [hcs]; rfl)
          · rcases he with rfl | rfl <;> simp at hcs
        simp [fraction, hc]
    · simp only [List.cons_append, fraction, if_true]
      rw [Text.takeWhile_append_of_stops hds hstop, Text.dropWhile_append_of_stops hds hstop]
  have hwhole : Stops Char.isDigit (part ++ (power ++ rest)) := by
    rcases h.fraction with rfl | ⟨ds, rfl, -⟩
    · exact hstop
    · exact Text.stops_cons.2 rfl
  have happ : whole ++ part ++ power ++ rest = whole ++ (part ++ (power ++ rest)) := by simp
  have hscan : scanFraction whole (part ++ (power ++ rest)) =
      (number (String.ofList (whole ++ part ++ power)), dropLongMark rest) := by
    simp only [scanFraction, hfraction, hpower]
    rw [if_neg h.ne_period]
  rw [happ]
  simp only [scanNumber, Text.takeWhile_append_of_stops h.whole_digits hwhole,
    Text.dropWhile_append_of_stops h.whole_digits hwhole]
  -- the only other reading is a hexadecimal literal
  split
  · rename_i hex hx
    exfalso
    rcases h.fraction with rfl | ⟨ds, rfl, -⟩
    · rcases h.exponent with rfl | ⟨e, sign, ds, he, -, -, -, rfl⟩
      · exact hr.hex rfl (by simp only [List.nil_append] at hx; rw [hx]; rfl)
      · rcases he with rfl | rfl <;> simp at hx
    · simp at hx
  · exact hscan

/-- The fraction a text begins with, and what stops it. -/
theorem fraction_spec (cs : List Char) :
    IsFraction (fraction cs).1 ∧ (fraction cs).1 ++ (fraction cs).2 = cs ∧
      ((fraction cs).1 = [] → (fraction cs).2 = cs ∧ cs.head? ≠ some '.') ∧
      ((fraction cs).1 ≠ [] → Stops Char.isDigit (fraction cs).2) := by
  cases cs with
  | nil => simp [fraction, IsFraction]
  | cons c cs =>
    by_cases hc : c = '.'
    · subst hc
      simp only [fraction, if_true]
      refine ⟨Or.inr ⟨_, rfl, fun _ => List.mem_takeWhile_imp⟩, ?_, ?_, ?_⟩
      · rw [List.cons_append, List.takeWhile_append_dropWhile]
      · intro h
        cases h
      · intro _
        exact Text.stops_dropWhile cs
    · simp only [fraction, if_neg hc]
      refine ⟨Or.inl rfl, rfl, fun _ => ?_, fun h => absurd rfl h⟩
      simpa using hc

/-- The sign of an exponent is one character or none. -/
theorem exponentSign_spec (cs : List Char) :
    (exponentSign cs = [] ∨ exponentSign cs = ['+'] ∨ exponentSign cs = ['-']) ∧
      exponentSign cs ++ cs.drop (exponentSign cs).length = cs := by
  cases cs with
  | nil => simp [exponentSign]
  | cons c cs =>
    by_cases hc : c = '+' ∨ c = '-'
    · simp only [exponentSign, if_pos hc]
      refine ⟨?_, by simp⟩
      rcases hc with rfl | rfl <;> simp
    · simp [exponentSign, hc]

/-- The exponent a text begins with, and what stops it. -/
theorem exponent_spec (cs : List Char) :
    IsExponent (exponent cs).1 ∧ (exponent cs).1 ++ (exponent cs).2 = cs ∧
      ((exponent cs).1 = [] → (exponent cs).2 = cs) ∧
      ((exponent cs).1 ≠ [] → Stops Char.isDigit (exponent cs).2) := by
  cases cs with
  | nil => simp [exponent, IsExponent]
  | cons e cs =>
    obtain ⟨hsign, happ⟩ := exponentSign_spec cs
    simp only [exponent]
    split
    · rename_i h
      refine ⟨Or.inr ⟨e, _, _, h.1, hsign, h.2, fun _ => List.mem_takeWhile_imp, rfl⟩, ?_, ?_, ?_⟩
      · rw [List.append_assoc, List.takeWhile_append_dropWhile, List.cons_append, happ]
      · intro hn
        cases hn
      · intro _
        exact Text.stops_dropWhile _
    · exact ⟨Or.inl rfl, rfl, fun _ => rfl, fun h => absurd rfl h⟩

/-- The ways to scan a number, by the text, the token and what is left. -/
inductive ScannedNumber : List Char → Token → List Char → Prop where
  | hex (cs : List Char) : ScannedNumber ('0' :: 'x' :: cs)
      (literal .hex (String.ofList (cs.takeWhile isHexDigit))) (cs.dropWhile isHexDigit)
  | period {cs : List Char} (h : Stops Char.isDigit cs) :
      ScannedNumber ('.' :: cs) (mark .period) cs
  | number {whole part power rest : List Char} (h : IsNumber whole part power)
      (hr : StopsNumber (whole ++ part ++ power) rest) :
      ScannedNumber (whole ++ part ++ power ++ rest)
        (number (String.ofList (whole ++ part ++ power))) (dropLongMark rest)

theorem scannedNumber_scanNumber {cs : List Char}
    (h : ∃ c ∈ cs.head?, c.isDigit = true ∨ c = '.') :
    ScannedNumber cs (scanNumber cs).1 (scanNumber cs).2 := by
  have hwhole : cs.takeWhile Char.isDigit ++ cs.dropWhile Char.isDigit = cs :=
    List.takeWhile_append_dropWhile
  have hdig : ∀ c ∈ cs.takeWhile Char.isDigit, c.isDigit = true :=
    fun _ => List.mem_takeWhile_imp
  have hstop := Text.stops_dropWhile (p := Char.isDigit) cs
  simp only [scanNumber]
  generalize cs.takeWhile Char.isDigit = whole at *
  generalize cs.dropWhile Char.isDigit = behind at *
  subst hwhole
  split
  · exact ScannedNumber.hex _
  rename_i hhex
  obtain ⟨hf, hfapp, hfnil, hfne⟩ := fraction_spec behind
  obtain ⟨he, heapp, henil, hene⟩ := exponent_spec (fraction behind).2
  simp only [scanFraction]
  split
  · rename_i hp
    -- a period alone: nothing in front of it and no digits behind
    have hpart : (fraction behind).1 = ['.'] := by
      rcases hf with hn | ⟨ds, hd, -⟩
      · rw [hn, List.append_nil] at hp
        subst hp
        have := hdig '.' List.mem_cons_self
        cases this
      · rw [hd] at hp ⊢
        cases whole with
        | nil => exact hp
        | cons c w => simp at hp
    have hnil : whole = [] := by
      rw [hpart] at hp
      cases whole with
      | nil => rfl
      | cons c w => simp at hp
    subst hnil
    have hb : behind = '.' :: (fraction behind).2 := by
      conv_lhs => rw [← hfapp, hpart]
      rfl
    rw [List.nil_append]
    conv => arg 1; rw [hb]
    exact ScannedNumber.period (hfne (by rw [hpart]; exact List.cons_ne_nil _ _))
  · rename_i hp
    have hcs : whole ++ behind =
        whole ++ (fraction behind).1 ++ (exponent (fraction behind).2).1 ++
          (exponent (fraction behind).2).2 := by
      rw [List.append_assoc, List.append_assoc, heapp, hfapp]
    have hne : whole ++ (fraction behind).1 ≠ [] := by
      intro hn
      obtain ⟨hw, hpt⟩ := List.append_eq_nil_iff.1 hn
      subst hw
      obtain ⟨c, hc, hcd⟩ := h
      rw [List.nil_append] at hc
      rcases hcd with hcd | rfl
      · rw [hstop c hc] at hcd
        cases hcd
      · exact (hfnil hpt).2 hc
    have hnum : IsNumber whole (fraction behind).1 (exponent (fraction behind).2).1 :=
      ⟨hdig, hf, he, hne, hp⟩
    rw [hcs]
    refine ScannedNumber.number hnum ⟨?_, ?_, ?_, ?_⟩
    · by_cases hpow : (exponent (fraction behind).2).1 = []
      · rw [henil hpow]
        by_cases hpt : (fraction behind).1 = []
        · rw [(hfnil hpt).1]
          exact hstop
        · exact hfne hpt
      · exact hene hpow
    · intro hd
      obtain ⟨hpt, hpow⟩ := hnum.forall_isDigit_iff.1 hd
      rw [henil hpow, (hfnil hpt).1]
      exact (hfnil hpt).2
    · intro hzero hx
      have hd : ∀ c ∈ whole ++ (fraction behind).1 ++ (exponent (fraction behind).2).1,
          c.isDigit = true := by
        rw [hzero]
        simp
      obtain ⟨hpt, hpow⟩ := hnum.forall_isDigit_iff.1 hd
      rw [henil hpow, (hfnil hpt).1] at hx
      rw [hpt, hpow, List.append_nil, List.append_nil] at hzero
      obtain ⟨hex, hb⟩ := List.head?_eq_some_iff.1 hx
      exact hhex hex hzero hb
    · intro hl
      have hpow := hnum.forall_ne_letter_iff.1 hl
      rw [henil hpow]
      exact Prod.ext hpow (henil hpow)

/-! ## All tokens -/

/-- Whether a token that begins with the character is read by `scanSign?`, where no comment
begins. -/
def opensSign (c : Char) : Bool :=
  c != ' ' && c != '\t' && c != '\n' && c != '\r' && !isWordStart c && c != '\'' && c != '"' &&
    c != '\x60' && !c.isDigit && c != '.'

/-- Whether a comment begins with the characters. -/
def OpensComment (c : Char) (cs : List Char) : Prop :=
  (c = '-' ∧ cs.head? = some '-') ∨ (c = '/' ∧ cs.head? = some '*')

/-- The ways to scan a token, by the text, the token and what is left. -/
inductive Scanned : List Char → Token → List Char → Prop where
  | space (cs : List Char) : Scanned (' ' :: cs) (blank .space) cs
  | tab (cs : List Char) : Scanned ('\t' :: cs) (blank .tab) cs
  | newline (cs : List Char) : Scanned ('\n' :: cs) (blank .newline) cs
  | carriageReturn (cs : List Char) : Scanned ('\r' :: cs) (blank .newline) (dropNewline cs)
  | literal {c : Char} {cs v rest behind : List Char} {form : LiteralForm}
      (hc : isWordStart c = true) (hs : literalStart? c cs = some (form, behind))
      (hv : literalValue? form behind = some (v, rest)) :
      Scanned (c :: cs) (literal form (String.ofList v)) rest
  | word {c : Char} {cs : List Char} (hc : isWordStart c = true)
      (hs : literalStart? c cs = none) :
      Scanned (c :: cs) (word (String.ofList (c :: cs.takeWhile isWordPart)))
        (cs.dropWhile isWordPart)
  | plain {cs v rest : List Char} (hv : quoted? '\'' cs = some (v, rest)) :
      Scanned ('\'' :: cs) (literal .plain (String.ofList v)) rest
  | quotedWord {q : NameQuote} {cs v rest : List Char} (hv : quoted? q.char cs = some (v, rest)) :
      Scanned (q.char :: cs) (quotedWord q (String.ofList v)) rest
  | number {cs rest : List Char} {t : Token} (h : ScannedNumber cs t rest) : Scanned cs t rest
  | lineComment (cs : List Char) :
      Scanned ('-' :: '-' :: cs) (scanLineComment cs).1 (scanLineComment cs).2
  | blockComment {cs v rest : List Char} (hv : blockComment? 0 cs = some (v, rest)) :
      Scanned ('/' :: '*' :: cs) (blank (.blockComment (String.ofList v))) rest
  | operator {p rest : List Char} {t : Token} (hp : (p, t) ∈ operators)
      (h : scanOperator? (p ++ rest) = some (t, rest))
      (hd : p = ['-'] → rest.head? ≠ some '-') : Scanned (p ++ rest) t rest
  | numberSign {cs : List Char} (h : scanOperator? ('#' :: cs) = none) :
      Scanned ('#' :: cs) (scanNumberSign cs).1 (scanNumberSign cs).2
  | atSign {cs : List Char} (h : scanOperator? ('@' :: cs) = none) :
      Scanned ('@' :: cs) (scanAtSign cs).1 (scanAtSign cs).2
  | placeholder (cs : List Char) :
      Scanned ('?' :: cs) (sign (String.ofList ('?' :: cs.takeWhile Text.isNumeric)))
        (cs.dropWhile Text.isNumeric)
  | dollar {cs rest : List Char} {t : Token} (h : scanDollar? cs = some (t, rest)) :
      Scanned ('$' :: cs) t rest
  | foreignBlank {c : Char} {cs : List Char} (hc : opensSign c = true)
      (hb : Text.isBlank c = true) : Scanned (c :: cs) (blank .space) cs
  | other {c : Char} {cs : List Char} (hc : opensSign c = true) (hb : Text.isBlank c = false)
      (h : scanOperator? (c :: cs) = none) (hs : c ∉ ['#', '@', '?', '$'])
      (hcom : ¬ OpensComment c cs) : Scanned (c :: cs) (sign (String.ofList [c])) cs

/-- Where no word, string, name, number or comment begins, a sign is read. -/
theorem scan?_of_opensSign {c : Char} {cs : List Char} (hc : opensSign c = true)
    (hcom : ¬ OpensComment c cs) : scan? (c :: cs) = scanSign? c cs := by
  simp only [opensSign, Bool.and_eq_true, bne_iff_ne, Bool.not_eq_true'] at hc
  obtain ⟨⟨⟨⟨⟨⟨⟨⟨⟨h1, h2⟩, h3⟩, h4⟩, h5⟩, h6⟩, h7⟩, h8⟩, h9⟩, h10⟩ := hc
  simp only [OpensComment, not_or] at hcom
  simp only [scan?, scanBlank?, if_neg h1, if_neg h2, if_neg h3, if_neg h4, h5, scanOther?,
    if_neg h6, if_neg h7, if_neg h8, h9, h10, if_neg hcom.1, if_neg hcom.2, Bool.false_eq_true,
    or_self, if_false]

/-- Every operator is read where signs are, and none of them opens a comment. -/
theorem operators_opensSign : ∀ entry ∈ operators, ∀ c ∈ entry.1.head?,
    opensSign c = true ∧ Text.isBlank c = false ∧ c ≠ '?' ∧ c ≠ '$' := by
  decide

theorem scanned_of_scanSign? {c : Char} {cs rest : List Char} {t : Token}
    (hc : opensSign c = true) (hcom : ¬ OpensComment c cs)
    (h : scanSign? c cs = some (t, rest)) : Scanned (c :: cs) t rest := by
  unfold scanSign? at h
  split at h
  · rename_i r hr
    cases h
    obtain ⟨⟨p, u⟩, hmem, hstrip⟩ := List.exists_of_findSome?_eq_some hr
    obtain ⟨rest', hs, he⟩ := Option.map_eq_some_iff.1 hstrip
    obtain ⟨rfl, rfl⟩ := Prod.mk.inj he
    have happ := Text.stripStart?_eq_some_iff.1 hs
    rw [happ] at hr ⊢
    refine Scanned.operator hmem hr ?_
    rintro rfl hd
    obtain ⟨rfl, rfl⟩ := List.cons.inj happ
    exact hcom (Or.inl ⟨rfl, hd⟩)
  rename_i hop
  split at h
  · rename_i hx
    subst hx
    obtain ⟨rfl, rfl⟩ := Prod.mk.inj (Option.some.inj h).symm
    exact Scanned.numberSign hop
  split at h
  · rename_i _ hx
    subst hx
    obtain ⟨rfl, rfl⟩ := Prod.mk.inj (Option.some.inj h).symm
    exact Scanned.atSign hop
  split at h
  · rename_i _ _ hx
    subst hx
    cases h
    exact Scanned.placeholder cs
  split at h
  · rename_i _ _ _ hx
    subst hx
    exact Scanned.dollar h
  split at h
  · rename_i hb
    cases h
    exact Scanned.foreignBlank hc hb
  · rename_i h1 h2 h3 h4 hb
    cases h
    refine Scanned.other hc (Bool.not_eq_true _ ▸ hb) hop ?_ hcom
    simp [h1, h2, h3, h4]

/-- A scanned token was scanned in one of these ways. -/
theorem scanned_of_scan? {cs rest : List Char} {t : Token} (h : scan? cs = some (t, rest)) :
    Scanned cs t rest := by
  cases cs with
  | nil => simp [scan?] at h
  | cons c cs =>
    simp only [scan?] at h
    split at h
    · rename_i r hb
      cases h
      unfold scanBlank? at hb
      split at hb
      · rename_i hx; subst hx; cases hb; exact Scanned.space _
      split at hb
      · rename_i _ hx; subst hx; cases hb; exact Scanned.tab _
      split at hb
      · rename_i _ _ hx; subst hx; cases hb; exact Scanned.newline _
      split at hb
      · rename_i _ _ _ hx; subst hx; cases hb; exact Scanned.carriageReturn _
      · cases hb
    rename_i hb
    split at h
    · rename_i hc
      unfold scanLetter? at h
      split at h
      · rename_i form behind hs
        obtain ⟨v, hv, he⟩ := Option.map_eq_some_iff.1 h
        obtain ⟨rfl, rfl⟩ := Prod.mk.inj he
        exact Scanned.literal hc hs hv
      · rename_i hs
        cases h
        exact Scanned.word hc hs
    rename_i hw
    unfold scanOther? at h
    split at h
    · rename_i hx
      subst hx
      obtain ⟨v, hv, he⟩ := Option.map_eq_some_iff.1 h
      obtain ⟨rfl, rfl⟩ := Prod.mk.inj he
      exact Scanned.plain hv
    rename_i h1
    split at h
    · rename_i hx
      subst hx
      obtain ⟨v, hv, he⟩ := Option.map_eq_some_iff.1 h
      obtain ⟨rfl, rfl⟩ := Prod.mk.inj he
      exact Scanned.quotedWord (q := .double) hv
    rename_i h2
    split at h
    · rename_i hx
      subst hx
      obtain ⟨v, hv, he⟩ := Option.map_eq_some_iff.1 h
      obtain ⟨rfl, rfl⟩ := Prod.mk.inj he
      exact Scanned.quotedWord (q := .backtick) hv
    rename_i h3
    split at h
    · rename_i hd
      have hhead : ∃ d ∈ (c :: cs).head?, d.isDigit = true ∨ d = '.' := ⟨c, rfl, hd⟩
      have hn := scannedNumber_scanNumber hhead
      rw [Option.some.inj h] at hn
      exact Scanned.number hn
    rename_i h4
    split at h
    · rename_i hx
      obtain ⟨rfl, hx⟩ := hx
      obtain ⟨ds, rfl⟩ := List.head?_eq_some_iff.1 hx
      have hline := Scanned.lineComment ds
      rw [show scanLineComment ds = (t, rest) from Option.some.inj h] at hline
      exact hline
    rename_i h5
    split at h
    · rename_i hx
      obtain ⟨rfl, hx⟩ := hx
      obtain ⟨ds, rfl⟩ := List.head?_eq_some_iff.1 hx
      obtain ⟨v, hv, he⟩ := Option.map_eq_some_iff.1 h
      obtain ⟨rfl, rfl⟩ := Prod.mk.inj he
      exact Scanned.blockComment hv
    · rename_i h6
      refine scanned_of_scanSign? ?_ (by simp only [OpensComment, not_or]; exact ⟨h5, h6⟩) h
      have hblank : c ≠ ' ' ∧ c ≠ '\t' ∧ c ≠ '\n' ∧ c ≠ '\r' := by
        unfold scanBlank? at hb
        refine ⟨?_, ?_, ?_, ?_⟩ <;> rintro rfl <;> simp at hb
      simp only [not_or] at h4
      simp [opensSign, hblank, h1, h2, h3, h4, hw]

end Token
end SchemaScript
