import SchemaScript.Proofs.Token.Scanned
import SchemaScript.Proofs.Token.Values

/-!
# What may stand behind a token

Cutting a text into tokens looks ahead: a word goes on as long as it can, `<` in front of `=`
is another operator, a letter in front of a quote opens a literal. `Follows w t rest` says that
`rest` does none of this to the token `t` written `w`.

A token *settles* when what does stand behind it follows it and when it is scanned again in
front of whatever follows it (`Settles`). Here this is shown of words, literals and numbers;
`Settle` adds comments, operators and signs and concludes that every scanned token settles.
-/

namespace SchemaScript
namespace Token

open Text (Stops quoted? isAlphabetic isNumeric)

/-! ## The relation -/

/-- A text that makes no longer operator, and no comment, of the one written `w`. -/
def StopsOperator (w rest : List Char) : Prop :=
  ∀ d ∈ rest.head?, (∀ entry ∈ operators, ¬ w ++ [d] <+: entry.1) ∧
    ¬ (w = ['-'] ∧ d = '-') ∧ ¬ (w = ['/'] ∧ d = '*')

/-- Whether the tag of a dollar sign goes on with the character. -/
def isTagPart (c : Char) : Bool :=
  isAlphabetic c || isNumeric c || c == '_'

/-- A text that does not carry on what a number sign, at sign, question mark or dollar sign
begins. -/
def StopsSign (w rest : List Char) : Prop :=
  (w = ['#'] ∨ w = ['@', '@'] → ∀ d ∈ rest.head?, d = ' ') ∧
    (w = ['@'] → ∀ d ∈ rest.head?, d = ' ' ∨ d = '\'' ∨ d = '"' ∨ d = '\x60') ∧
    (w.head? = some '?' → Stops isNumeric rest) ∧
    (w.head? = some '$' → Stops isTagPart rest ∧ rest.head? ≠ some '$')

/-- What may stand behind the token `t` written `w`. -/
def Follows (w : List Char) (t : Token) (rest : List Char) : Prop :=
  match t with
  | blank .newline => w = ['\r'] → rest.head? ≠ some '\n'
  | blank (.lineComment text) => text.toList.getLast? ≠ some '\n' → rest = []
  | blank _ => True
  | word _ => Stops isWordPart rest ∧ ∀ c, w = [c] → literalStart? c rest = none
  | quotedWord q _ => rest.head? ≠ some q.char
  | number text => w = text.toList → StopsNumber w rest ∧ rest.head? ≠ some 'L'
  | literal form _ =>
    if form = .hex ∧ w.head? = some '0' then Stops isHexDigit rest else Closed form rest
  | mark .period => Stops Char.isDigit rest
  | mark _ => StopsOperator w rest
  | sign _ => StopsOperator w rest ∧ StopsSign w rest

/-! ## Which scanner reads a token -/

theorem isWordStart_of_ascii {c : Char} (h : c.toNat < 0x80) :
    isWordStart c = (c.isAlpha || c == '_') := by
  rw [isWordStart, Text.isAlphabetic_of_ascii h]

/-- A digit begins no word. -/
theorem isWordStart_eq_false_of_isDigit {c : Char} (h : c.isDigit = true) :
    isWordStart c = false := by
  have hd : 48 ≤ c.toNat ∧ c.toNat ≤ 57 := by
    simpa [Char.isDigit, UInt32.le_iff_toNat_le] using h
  rw [isWordStart_of_ascii (by omega)]
  have halpha : c.isAlpha = false := by
    delta Char.isAlpha Char.isUpper Char.isLower
    simp only [UInt32.le_iff_toNat_le, ge_iff_le, Bool.or_eq_false_iff, Bool.and_eq_false_imp,
      decide_eq_true_eq, decide_eq_false_iff_not]
    change ¬ (65 ≤ c.toNat ∧ c.toNat ≤ 90) ∧ (97 ≤ c.toNat → ¬ c.toNat ≤ 122)
    omega
  have hscore : c ≠ '_' := by
    rintro rfl
    cases h
  simp [halpha, hscore]

/-- A letter begins a word or a literal. -/
theorem scan?_of_isWordStart {c : Char} (h : isWordStart c = true) (cs : List Char) :
    scan? (c :: cs) = scanLetter? c cs := by
  have hblank : c ≠ ' ' ∧ c ≠ '\t' ∧ c ≠ '\n' ∧ c ≠ '\r' := by
    refine ⟨?_, ?_, ?_, ?_⟩ <;> rintro rfl <;> revert h <;> decide
  obtain ⟨h1, h2, h3, h4⟩ := hblank
  simp only [scan?, scanBlank?, if_neg h1, if_neg h2, if_neg h3, if_neg h4, h, if_true]

/-- A digit or a period begins a number. -/
theorem scan?_of_isDigit {c : Char} (h : c.isDigit = true ∨ c = '.') (cs : List Char) :
    scan? (c :: cs) = some (scanNumber (c :: cs)) := by
  have hne : ∀ d : Char, d.isDigit = false → d ≠ '.' → c ≠ d := by
    rintro d hd hp rfl
    rcases h with h | h
    · rw [hd] at h
      cases h
    · exact hp h
  have hword : isWordStart c = false := by
    rcases h with h | rfl
    · exact isWordStart_eq_false_of_isDigit h
    · decide
  simp only [scan?, scanBlank?, if_neg (hne ' ' rfl (by decide)),
    if_neg (hne '\t' rfl (by decide)), if_neg (hne '\n' rfl (by decide)),
    if_neg (hne '\r' rfl (by decide)), hword, scanOther?, if_neg (hne '\'' rfl (by decide)),
    if_neg (hne '"' rfl (by decide)), if_neg (hne '\x60' rfl (by decide)), if_pos h]
  rfl

/-! ## Literals and words -/

/-- No letter opens a literal in front of a character that is neither a quote nor an
ampersand. -/
theorem literalStart?_cons_eq_none {c d : Char} (hq : d ≠ '\'') (hd : d ≠ '"') (ha : d ≠ '&')
    (cs : List Char) : literalStart? c (d :: cs) = none := by
  unfold literalStart?
  split <;> simp_all

/-- A text that does not turn the quote of a raw string into three. -/
def OpensOnce (form : LiteralForm) (y : List Char) : Prop :=
  ∀ q, form = .raw false q → ¬ [q.char, q.char] <+: y

/-- What opens a literal is found again in front of any text that adds no quotes to it. -/
theorem literalStart?_settled {c : Char} {cs behind : List Char} {form : LiteralForm}
    (h : literalStart? c cs = some (form, behind)) :
    ∃ a, cs = a ++ behind ∧ OpensOnce form behind ∧
      ∀ y, OpensOnce form y → literalStart? c (a ++ y) = some (form, y) := by
  unfold literalStart? at h
  split at h
  · rename_i hc
    cases h
    exact ⟨['\''], rfl, by rintro q ⟨⟩, fun y _ => by simp [literalStart?, hc]⟩
  · rename_i hc
    cases h
    exact ⟨['"'], rfl, by rintro q ⟨⟩, fun y _ => by simp [literalStart?, hc]⟩
  · rename_i hc
    cases h
    exact ⟨['\'', '\'', '\''], rfl, by rintro q ⟨⟩, fun y _ => by simp [literalStart?, hc]⟩
  · rename_i hc
    cases h
    exact ⟨['"', '"', '"'], rfl, by rintro q ⟨⟩, fun y _ => by simp [literalStart?, hc]⟩
  · rename_i hnot hc
    obtain ⟨rfl, rfl⟩ := Prod.mk.inj (Option.some.inj h)
    refine ⟨['\''], rfl, ?_, fun y hy => ?_⟩
    · rintro q ⟨⟩ ⟨ys, hys⟩
      exact hnot ys (by rw [← hys]; rfl)
    · have hthree : ∀ ys, y ≠ '\'' :: '\'' :: ys := by
        rintro ys rfl
        exact hy .single rfl ⟨ys, rfl⟩
      simp only [literalStart?, hc, List.cons_append, List.nil_append]
  · rename_i hnot hc
    obtain ⟨rfl, rfl⟩ := Prod.mk.inj (Option.some.inj h)
    refine ⟨['"'], rfl, ?_, fun y hy => ?_⟩
    · rintro q ⟨⟩ ⟨ys, hys⟩
      exact hnot ys (by rw [← hys]; rfl)
    · have hthree : ∀ ys, y ≠ '"' :: '"' :: ys := by
        rintro ys rfl
        exact hy .double rfl ⟨ys, rfl⟩
      simp only [literalStart?, hc, List.cons_append, List.nil_append]
  · rename_i hc
    cases h
    exact ⟨['\''], rfl, by rintro q ⟨⟩, fun y _ => by simp [literalStart?, hc]⟩
  · rename_i hc
    cases h
    exact ⟨['\''], rfl, by rintro q ⟨⟩, fun y _ => by simp [literalStart?, hc]⟩
  · rename_i hc
    cases h
    exact ⟨['&', '\''], rfl, by rintro q ⟨⟩, fun y _ => by simp [literalStart?, hc]⟩
  · rename_i hc
    cases h
    exact ⟨['\''], rfl, by rintro q ⟨⟩, fun y _ => by simp [literalStart?, hc]⟩
  · cases h

/-! ## Tokens settle -/

/-- The token that a text begins with takes some of it, and is scanned again in front of
whatever follows it. -/
def Settles (cs : List Char) (t : Token) (rest : List Char) : Prop :=
  ∃ w, cs = w ++ rest ∧ Follows w t rest ∧
    ∀ y, Follows w t y → scan? (w ++ y) = some (t, y)

theorem settles_carriageReturn (cs : List Char) :
    Settles ('\r' :: cs) (blank .newline) (dropNewline cs) := by
  cases cs with
  | nil =>
    refine ⟨['\r'], rfl, by simp [Follows, dropNewline], fun y hy => ?_⟩
    cases y with
    | nil => simp [scan?, scanBlank?, dropNewline]
    | cons d y =>
      have hd : d ≠ '\n' := by simpa using hy rfl
      simp [scan?, scanBlank?, dropNewline, hd]
  | cons c cs =>
    by_cases hc : c = '\n'
    · subst hc
      refine ⟨['\r', '\n'], rfl, by simp [Follows], fun y _ => ?_⟩
      simp [scan?, scanBlank?, dropNewline]
    · refine ⟨['\r'], by simp [dropNewline, hc], by simp [Follows, dropNewline, hc],
        fun y hy => ?_⟩
      cases y with
      | nil => simp [scan?, scanBlank?, dropNewline]
      | cons d y =>
        have hd : d ≠ '\n' := by simpa using hy rfl
        simp [scan?, scanBlank?, dropNewline, hd]

theorem settles_literal {c : Char} {cs v rest behind : List Char} {form : LiteralForm}
    (hc : isWordStart c = true) (hs : literalStart? c cs = some (form, behind))
    (hv : literalValue? form behind = some (v, rest)) :
    Settles (c :: cs) (literal form (String.ofList v)) rest := by
  obtain ⟨a, rfl, honce, ha⟩ := literalStart?_settled hs
  obtain ⟨b, rfl, hclosed, hb⟩ := literalValue?_settled hv
  have hzero : ¬ (form = .hex ∧ (c :: (a ++ b)).head? = some '0') := by
    rintro ⟨-, h0⟩
    have hc0 : c = '0' := by simpa using h0
    subst hc0
    rw [isWordStart_eq_false_of_isDigit rfl] at hc
    cases hc
  refine ⟨c :: (a ++ b), by simp, ?_, fun y hy => ?_⟩
  · simp only [Follows, if_neg hzero]
    exact hclosed
  · simp only [Follows, if_neg hzero] at hy
    have hbonce : OpensOnce form (b ++ y) := by
      rintro q rfl hq
      by_cases hlen : 2 ≤ b.length
      · exact honce q rfl ((Text.prefix_append_congr (by simpa using hlen) y rest).1 hq)
      · obtain ⟨ys, hys⟩ := hq
        have hhead : y.head? = some q.char := by
          cases b with
          | nil =>
            rw [List.nil_append] at hys
            rw [← hys]
            rfl
          | cons d b =>
            cases b with
            | nil =>
              have htail : q.char :: ys = y := (List.cons.inj hys).2
              rw [← htail]
              rfl
            | cons e b =>
              simp at hlen
        exact hy hhead
    rw [List.cons_append, List.append_assoc, scan?_of_isWordStart hc]
    simp only [scanLetter?, ha (b ++ y) hbonce, scanLiteral?, hb y hy]
    rfl

theorem settles_word {c : Char} {cs : List Char} (hc : isWordStart c = true)
    (hs : literalStart? c cs = none) :
    Settles (c :: cs) (word (String.ofList (c :: cs.takeWhile isWordPart)))
      (cs.dropWhile isWordPart) := by
  have hstop := Text.stops_dropWhile (p := isWordPart) cs
  have hrun : ∀ c ∈ cs.takeWhile isWordPart, isWordPart c = true := fun _ => List.mem_takeWhile_imp
  have happ : cs.takeWhile isWordPart ++ cs.dropWhile isWordPart = cs :=
    List.takeWhile_append_dropWhile
  generalize cs.takeWhile isWordPart = run at *
  generalize cs.dropWhile isWordPart = rest at *
  subst happ
  refine ⟨c :: run, rfl, ⟨hstop, ?_⟩, fun y hy => ?_⟩
  · intro c' hc'
    obtain ⟨rfl, rfl⟩ := List.cons.inj hc'
    exact hs
  · have hnone : literalStart? c (run ++ y) = none := by
      cases run with
      | nil => exact hy.2 c rfl
      | cons d run =>
        have hd := hrun d List.mem_cons_self
        have hne : ∀ e : Char, isWordPart e = false → d ≠ e := by
          rintro e he rfl
          rw [he] at hd
          cases hd
        exact literalStart?_cons_eq_none (hne _ (by decide))
          (hne _ (by decide)) (hne _ (by decide)) _
    rw [List.cons_append, scan?_of_isWordStart hc]
    simp only [scanLetter?, hnone, scanWord, Text.takeWhile_append_of_stops hrun hy.1,
      Text.dropWhile_append_of_stops hrun hy.1]
    rfl

theorem scan?_quote (cs : List Char) : scan? ('\'' :: cs) = scanLiteral? .plain cs := by
  have hword : isWordStart '\'' = false := by decide
  simp [scan?, scanBlank?, scanOther?, hword]

theorem scan?_nameQuote (q : NameQuote) (cs : List Char) :
    scan? (q.char :: cs) = scanQuotedWord? q cs := by
  cases q with
  | double =>
    have hword : isWordStart '"' = false := by decide
    simp [scan?, scanBlank?, scanOther?, NameQuote.char, hword]
  | backtick =>
    have hword : isWordStart '\x60' = false := by decide
    simp [scan?, scanBlank?, scanOther?, NameQuote.char, hword]

theorem settles_plain {cs v rest : List Char} (hv : quoted? '\'' cs = some (v, rest)) :
    Settles ('\'' :: cs) (literal .plain (String.ofList v)) rest := by
  obtain ⟨a, rfl, hrest, ha⟩ := quoted?_settled hv
  refine ⟨'\'' :: a, rfl, by simpa [Follows, Closed] using hrest, fun y hy => ?_⟩
  have hclosed : y.head? ≠ some '\'' := by simpa [Follows, Closed] using hy
  rw [List.cons_append, scan?_quote]
  simp [scanLiteral?, literalValue?, ha y hclosed]

theorem settles_quotedWord {q : NameQuote} {cs v rest : List Char}
    (hv : quoted? q.char cs = some (v, rest)) :
    Settles (q.char :: cs) (quotedWord q (String.ofList v)) rest := by
  obtain ⟨a, rfl, hrest, ha⟩ := quoted?_settled hv
  refine ⟨q.char :: a, rfl, hrest, fun y hy => ?_⟩
  rw [List.cons_append, scan?_nameQuote]
  simp [scanQuotedWord?, ha y hy]

/-! ## Numbers settle -/

theorem IsNumber.head {whole part power : List Char} (h : IsNumber whole part power) :
    ∃ c cs, whole ++ part ++ power = c :: cs ∧ (c.isDigit = true ∨ c = '.') := by
  cases whole with
  | cons c cs => exact ⟨c, _, rfl, Or.inl (h.whole_digits c List.mem_cons_self)⟩
  | nil =>
    rcases h.fraction with rfl | ⟨ds, rfl, -⟩
    · exact absurd rfl h.ne_nil
    · exact ⟨'.', _, rfl, Or.inr rfl⟩

theorem settles_number {whole part power rest : List Char} (h : IsNumber whole part power)
    (hr : StopsNumber (whole ++ part ++ power) rest) :
    Settles (whole ++ part ++ power ++ rest)
      (number (String.ofList (whole ++ part ++ power))) (dropLongMark rest) := by
  have hscan : ∀ y, StopsNumber (whole ++ part ++ power) y →
      scan? (whole ++ part ++ power ++ y) =
        some (number (String.ofList (whole ++ part ++ power)), dropLongMark y) := by
    intro y hy
    obtain ⟨c, cs, hcs, hc⟩ := h.head
    rw [← scanNumber_append h hy, hcs, List.cons_append]
    exact scan?_of_isDigit hc _
  generalize whole ++ part ++ power = digits at *
  have hlong : ∀ y, StopsNumber digits ('L' :: y) := by
    intro y
    refine ⟨Text.stops_cons.2 rfl, fun _ => by simp, fun _ => by simp, fun _ => ?_⟩
    simp [exponent]
  have hkeep : ∀ y : List Char, y.head? ≠ some 'L' → dropLongMark y = y := by
    intro y hy
    cases y with
    | nil => rfl
    | cons d y =>
      have hd : d ≠ 'L' := by simpa using hy
      simp [dropLongMark, hd]
  by_cases hL : rest.head? = some 'L'
  · -- the mark ends the number, so that nothing carries it on
    obtain ⟨more, rfl⟩ := List.head?_eq_some_iff.1 hL
    refine ⟨digits ++ ['L'], by simp [dropLongMark], ?_, fun y _ => ?_⟩
    · intro hw
      simp at hw
    · rw [List.append_assoc, List.cons_append, List.nil_append, hscan _ (hlong y)]
      simp [dropLongMark]
  · refine ⟨digits, by rw [hkeep rest hL], ?_, fun y hy => ?_⟩
    · intro _
      rw [hkeep rest hL]
      exact ⟨hr, hL⟩
    · obtain ⟨hstop, hyL⟩ := hy (by simp)
      rw [hscan y hstop, hkeep y hyL]

theorem settles_scannedNumber {cs rest : List Char} {t : Token} (h : ScannedNumber cs t rest) :
    Settles cs t rest := by
  cases h with
  | hex cs =>
    have hstop := Text.stops_dropWhile (p := isHexDigit) cs
    have hrun : ∀ c ∈ cs.takeWhile isHexDigit, isHexDigit c = true :=
      fun _ => List.mem_takeWhile_imp
    have happ : cs.takeWhile isHexDigit ++ cs.dropWhile isHexDigit = cs :=
      List.takeWhile_append_dropWhile
    generalize cs.takeWhile isHexDigit = run at *
    generalize cs.dropWhile isHexDigit = rest at *
    subst happ
    refine ⟨'0' :: 'x' :: run, rfl, by simpa [Follows] using hstop, fun y hy => ?_⟩
    have hy' : Stops isHexDigit y := by simpa [Follows] using hy
    rw [List.cons_append, scan?_of_isDigit (Or.inl rfl)]
    have hx : ('x' : Char).isDigit = false := rfl
    have h0 : ('0' : Char).isDigit = true := rfl
    simp only [scanNumber, List.cons_append, List.takeWhile_cons, List.dropWhile_cons, h0, hx,
      Text.takeWhile_append_of_stops hrun hy', Text.dropWhile_append_of_stops hrun hy', if_true,
      Bool.false_eq_true, if_false]
  | @period cs hstop =>
    refine ⟨['.'], rfl, hstop, fun y hy => ?_⟩
    have htake : y.takeWhile Char.isDigit = [] := Text.takeWhile_eq_nil_of_stops hy
    have hdrop : y.dropWhile Char.isDigit = y := Text.dropWhile_eq_self_of_stops hy
    rw [List.cons_append, List.nil_append, scan?_of_isDigit (Or.inr rfl)]
    simp [scanNumber, scanFraction, fraction, htake, hdrop]
  | number h hr => exact settles_number h hr

end Token
end SchemaScript
