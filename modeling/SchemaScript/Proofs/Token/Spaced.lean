import Mathlib.Data.List.Chain
import SchemaScript.Proofs.Number.Digits
import SchemaScript.Proofs.Token.Pieces

/-!
# Tokens with separators between them

Rendered text puts a space, a line end, a comma or a parenthesis between any two of its words,
strings, names and numbers. Such tokens stand apart whatever they are (`Spaced.apart`): a
separator can stand in front of any text, and everything else ends in front of a separator. The
only other pair in rendered text is a minus sign with its number.

A list of tokens is shown to be spaced piece by piece: two spaced lists can stand behind each
other when the second begins with a separator.
-/

namespace SchemaScript
namespace Token

open Text (Stops)

/-- The characters that separators begin with. -/
def separates (c : Char) : Bool :=
  c == ' ' || c == '\n' || c == '\t' || c == ',' || c == '(' || c == ')' || c == ';'

/-- Whether any text may stand behind the token, and the token behind any other. -/
def isSeparator : Token → Bool
  | blank .space | blank .newline | blank .tab => true
  | mark .comma | mark .openParen | mark .closeParen | mark .semicolon => true
  | _ => false

/-- A token that is read back in front of a separator. -/
structure IsAtom (t : Token) : Prop where
  readsBack : t.ReadsBack
  follows : ∀ rest, (∀ c ∈ rest.head?, separates c = true) → Follows t.print t rest

/-! ## Prints -/

@[simp] theorem print_word (text : String) : (word text).print = text.toList := rfl

@[simp] theorem print_space : (blank .space).print = [' '] := rfl

@[simp] theorem print_newline : (blank .newline).print = ['\n'] := rfl

@[simp] theorem print_tab : (blank .tab).print = ['\t'] := rfl

@[simp] theorem print_comma : (mark .comma).print = [','] := rfl

@[simp] theorem print_openParen : (mark .openParen).print = ['('] := rfl

@[simp] theorem print_closeParen : (mark .closeParen).print = [')'] := rfl

@[simp] theorem print_semicolon : (mark .semicolon).print = [';'] := rfl

@[simp] theorem print_minus : (mark .minus).print = ['-'] := rfl

@[simp] theorem print_number (text : String) : (number text).print = text.toList := rfl

@[simp] theorem print_plain (value : String) :
    (literal .plain value).print = (Text.enclose '\'' value).toList := by
  rw [Text.toList_enclose]
  rfl

@[simp] theorem print_national (value : String) :
    (literal .national value).print = 'N' :: (Text.enclose '\'' value).toList := by
  rw [Text.toList_enclose]
  rfl

/-! ## Separators -/

theorem mem_of_separates {c : Char} (h : separates c = true) :
    c ∈ [' ', '\n', '\t', ',', '(', ')', ';'] := by
  simpa [separates, or_assoc] using h

theorem readsBack_of_isSeparator {t : Token} (h : t.isSeparator = true) : t.ReadsBack := by
  cases t with
  | blank kind => cases kind <;> cases h <;> decide
  | mark kind => cases kind <;> cases h <;> decide
  | _ => cases h

theorem follows_of_isSeparator {t : Token} (h : t.isSeparator = true) (rest : List Char) :
    Follows t.print t rest := by
  cases t with
  | blank kind =>
    cases kind with
    | newline =>
      intro hx
      cases hx
    | lineComment | blockComment => cases h
    | _ => trivial
  | mark kind =>
    cases kind with
    | comma | openParen | closeParen | semicolon => exact follows_mark rfl rest
    | _ => cases h
  | _ => cases h

theorem head?_print_of_isSeparator {t : Token} (h : t.isSeparator = true) (rest : List Char) :
    ∀ c ∈ (t.print ++ rest).head?, separates c = true := by
  intro c hc
  cases t with
  | blank kind => cases kind <;> cases h <;> cases hc <;> rfl
  | mark kind => cases kind <;> cases h <;> cases hc <;> rfl
  | _ => cases h

/-! ## Atoms -/

theorem isAtom_word {text : String} (h : (word text).ReadsBack) : IsAtom (word text) := by
  refine ⟨h, fun rest hrest => ?_⟩
  cases rest with
  | nil => exact follows_word_nil
  | cons c rest =>
    have hall : ∀ c ∈ [' ', '\n', '\t', ',', '(', ')', ';'], endsWord c = true := by
      decide
    exact follows_word (hall c (mem_of_separates (hrest c rfl)))

theorem isAtom_number {text : String} (h : (number text).ReadsBack) : IsAtom (number text) := by
  refine ⟨h, fun rest hrest => ?_⟩
  cases rest with
  | nil =>
    refine fun _ => ⟨⟨Text.stops_nil, by simp, by simp, fun _ => rfl⟩, by simp⟩
  | cons c rest =>
    have hall : ∀ c ∈ [' ', '\n', '\t', ',', '(', ')', ';'], endsNumber c = true := by
      decide
    exact follows_number (hall c (mem_of_separates (hrest c rfl)))

theorem isAtom_quotedWord {q : NameQuote} {text : String} (h : q.char ∉ text.toList) :
    IsAtom (quotedWord q text) := by
  refine ⟨readsBack_quotedWord h, fun rest hrest hq => ?_⟩
  have hall : ∀ q : NameQuote, separates q.char = false := by
    intro q
    cases q <;> rfl
  have hsep := hrest _ hq
  rw [hall] at hsep
  cases hsep

theorem isAtom_plain (value : String) : IsAtom (literal .plain value) := by
  refine ⟨readsBack_plain value, fun rest hrest => ?_⟩
  simp only [Follows, Closed]
  intro hq
  have hsep := hrest _ hq
  cases hsep

theorem isAtom_national {value : String} (h : '\\' ∉ value.toList) :
    IsAtom (literal .national value) := by
  refine ⟨readsBack_national h, fun rest hrest => ?_⟩
  simp only [Follows, Closed]
  intro hq
  have hsep := hrest _ hq
  cases hsep

theorem isAtom_minus : IsAtom (mark .minus) := by
  refine ⟨by decide, fun rest hrest => ?_⟩
  have hall : ∀ c ∈ [' ', '\n', '\t', ',', '(', ')', ';'],
      (∀ entry ∈ operators, ¬ ['-'] ++ [c] <+: entry.1) ∧ c ≠ '-' ∧ c ≠ '*' := by
    decide
  intro c hc
  obtain ⟨hop, hdash, hstar⟩ := hall c (mem_of_separates (hrest c hc))
  exact ⟨hop, fun hx => hdash hx.2, fun hx => hstar hx.2⟩

/-! ## Lists of tokens -/

/-- Whether the token can stand directly in front of the other. -/
def GoesBefore (t u : Token) : Prop :=
  t.isSeparator = true ∨ u.isSeparator = true ∨ (t = mark .minus ∧ ∃ text, u = number text)

/-- Tokens that are separators, or atoms with separators between them. -/
structure Spaced (ts : List Token) : Prop where
  token : ∀ t ∈ ts, t.isSeparator = true ∨ t.IsAtom
  chain : ts.IsChain GoesBefore

theorem spaced_nil : Spaced [] :=
  ⟨fun _ ht => absurd ht List.not_mem_nil, List.isChain_nil⟩

theorem spaced_atom {t : Token} (h : t.IsAtom) : Spaced [t] := by
  refine ⟨fun u hu => Or.inr ?_, List.isChain_singleton t⟩
  rw [List.mem_singleton.1 hu]
  exact h

/-- Two spaced lists can stand behind each other where the second begins with a separator. -/
theorem Spaced.append {a b : List Token} (ha : Spaced a) (hb : Spaced b)
    (hsep : ∀ u ∈ b.head?, u.isSeparator = true) : Spaced (a ++ b) := by
  refine ⟨fun t ht => ?_, ?_⟩
  · rcases List.mem_append.1 ht with ht | ht
    · exact ha.token t ht
    · exact hb.token t ht
  · exact ha.chain.append hb.chain fun _ _ u hu => Or.inr (Or.inl (hsep u hu))

/-- A separator can stand in front of a spaced list. -/
theorem Spaced.cons {t : Token} {ts : List Token} (ht : t.isSeparator = true)
    (hts : Spaced ts) : Spaced (t :: ts) := by
  refine ⟨fun u hu => ?_, ?_⟩
  · rcases List.mem_cons.1 hu with rfl | hu
    · exact Or.inl ht
    · exact hts.token u hu
  · exact List.isChain_cons.2 ⟨fun _ _ => Or.inl ht, hts.chain⟩

/-- An atom can stand in front of a spaced list that begins with a separator. -/
theorem Spaced.cons_atom {t : Token} {ts : List Token} (ht : t.IsAtom) (hts : Spaced ts)
    (hsep : ∀ u ∈ ts.head?, u.isSeparator = true) : Spaced (t :: ts) :=
  (spaced_atom ht).append hts hsep

/-- An atom with a space behind it can stand in front of spaced tokens. -/
theorem Spaced.atom_space {t : Token} {ts : List Token} (hts : Spaced ts) (ht : t.IsAtom) :
    Spaced (t :: .blank .space :: ts) :=
  (hts.cons rfl).cons_atom ht (by simp [isSeparator])

/-- Words with spaces can stand in front of spaced tokens. -/
theorem Spaced.behind_words {ws : List String} {ts : List Token} (hts : Spaced ts)
    (h : ∀ w ∈ ws, (word w).ReadsBack) : Spaced (wordTokens ws ++ ts) := by
  induction ws with
  | nil => exact hts
  | cons w ws ih =>
    have hmore := ih fun v hv => h v (List.mem_cons_of_mem w hv)
    exact hmore.atom_space (isAtom_word (h w List.mem_cons_self))

/-- A separator can stand between two spaced lists. -/
theorem Spaced.between {t : Token} {a b : List Token} (ha : Spaced a)
    (ht : t.isSeparator = true) (hb : Spaced b) : Spaced (a ++ t :: b) := by
  refine ha.append (hb.cons ht) fun u hu => ?_
  rw [← Option.some.inj hu]
  exact ht

/-- A minus sign with its number. -/
theorem spaced_minus {text : String} (h : (number text).ReadsBack) :
    Spaced [mark .minus, number text] := by
  refine ⟨fun t ht => Or.inr ?_, ?_⟩
  · rcases List.mem_cons.1 ht with rfl | ht
    · exact isAtom_minus
    · rw [List.mem_singleton.1 ht]
      exact isAtom_number h
  · exact List.isChain_cons.2 ⟨fun t ht => Or.inr (Or.inr ⟨rfl, text, by simpa using ht.symm⟩),
      List.isChain_singleton _⟩

/-- A number follows a minus sign. -/
theorem follows_minus {text : String} (h : (number text).ReadsBack) (rest : List Char) :
    Follows (mark .minus).print (mark .minus) ((number text).print ++ rest) := by
  obtain ⟨c, hc, hdigit⟩ := head_of_readsBack_number h
  obtain ⟨cs, hcs⟩ := List.head?_eq_some_iff.1 hc
  have hprint : (number text).print = c :: cs := hcs
  have harrow : ∀ entry ∈ operators, entry.1.take 1 = ['-'] → entry.1.length = 1 ∨
      entry.1.take 2 = ['-', '>'] := by
    decide
  have hne : c ≠ '>' ∧ c ≠ '-' := by
    constructor <;> rintro rfl <;> rcases hdigit with hd | hd <;> cases hd
  rw [hprint]
  intro d hd
  obtain rfl : c = d := Option.some.inj hd
  refine ⟨fun entry he hp => ?_, fun hx => hne.2 hx.2, fun hx => absurd hx.1 (by decide)⟩
  obtain ⟨more, hmore⟩ := hp
  have hspelled : entry.1 = '-' :: c :: more := hmore.symm
  rcases harrow entry he (by rw [hspelled]; rfl) with hone | htwo
  · rw [hspelled] at hone
    simp at hone
  · rw [hspelled] at htwo
    simp only [List.take_succ_cons, List.take_zero, List.cons.injEq, and_true, true_and] at htwo
    exact hne.1 htwo

/-- **Spaced tokens stand apart** in front of a separator. -/
theorem Spaced.apart {ts : List Token} {rest : List Char} (h : Spaced ts)
    (hrest : ∀ c ∈ rest.head?, separates c = true) : Apart rest ts := by
  obtain ⟨htoken, hchain⟩ := h
  induction ts with
  | nil => trivial
  | cons t ts ih =>
    obtain ⟨hnext, hts⟩ := List.isChain_cons.1 hchain
    have hapart := ih (fun u hu => htoken u (List.mem_cons_of_mem t hu)) hts
    rcases htoken t List.mem_cons_self with hsep | hatom
    · exact apart_cons (readsBack_of_isSeparator hsep) (follows_of_isSeparator hsep _) hapart
    · refine apart_cons hatom.readsBack ?_ hapart
      cases ts with
      | nil => exact hatom.follows rest hrest
      | cons u ts =>
        rw [printAll_cons, List.append_assoc]
        rcases hnext u rfl with hsep | hsep | ⟨rfl, text, rfl⟩
        · exact follows_of_isSeparator hsep _
        · exact hatom.follows _ (head?_print_of_isSeparator hsep _)
        · exact follows_minus hapart.1 _

theorem Spaced.of_append {ts us : List Token} (h : Spaced (ts ++ us)) : Spaced ts :=
  ⟨fun t ht => h.token t (List.mem_append_left us ht), h.chain.left_of_append⟩

/-- Spaced tokens that end in a separator stand apart in front of any text. -/
theorem Spaced.apart_of_getLast? {ts : List Token} {t : Token} (h : Spaced ts)
    (hlast : ts.getLast? = some t) (ht : t.isSeparator = true) (rest : List Char) :
    Apart rest ts := by
  obtain ⟨us, rfl⟩ := List.getLast?_eq_some_iff.1 hlast
  refine apart_append (h.of_append.apart fun c hc => ?_) ?_
  · rw [printAll_cons, printAll_nil, List.append_nil] at hc
    exact head?_print_of_isSeparator ht rest c hc
  · exact apart_cons (readsBack_of_isSeparator ht) (follows_of_isSeparator ht _) trivial

theorem Spaced.tokenize {ts : List Token} (h : Spaced ts) :
    Token.tokenize (printAll ts) = some ts :=
  tokenize_printAll (h.apart (by simp))

/-! ## Plain tokens -/

/-- Tokens of which one look shows that they are read back from their print: separators, and
words and numbers that stand apart. -/
structure IsPlain (ts : List Token) : Prop where
  tokens : ∀ t ∈ ts, t.isSeparator = true ∨ (t.bareWord?.isSome ∨ t.numberText?.isSome) ∧ t.ReadsBack
  apart : ts.IsChain fun t u => t.isSeparator = true ∨ u.isSeparator = true

instance (ts : List Token) : Decidable (IsPlain ts) :=
  decidable_of_iff ((∀ t ∈ ts, t.isSeparator = true ∨
      (t.bareWord?.isSome ∨ t.numberText?.isSome) ∧ t.ReadsBack) ∧
    ts.IsChain fun t u => (t.isSeparator || u.isSeparator) = true)
    ⟨fun h => ⟨h.1, h.2.imp fun _ _ => (Bool.or_eq_true _ _).mp⟩,
      fun h => ⟨h.tokens, h.apart.imp fun _ _ => (Bool.or_eq_true _ _).mpr⟩⟩

theorem IsPlain.spaced {ts : List Token} (h : IsPlain ts) : Spaced ts := by
  refine ⟨fun t ht => (h.tokens t ht).imp_right fun ⟨hkind, hback⟩ => ?_,
    h.apart.imp fun t u htu => htu.imp_right Or.inl⟩
  cases t with
  | word w => exact isAtom_word hback
  | number w => exact isAtom_number hback
  | _ => rcases hkind with hkind | hkind <;> cases hkind

/-! ## Numbers -/

/-- The token of a number without a sign. -/
def digitsToken (n : Nat) : Token :=
  number (String.ofList (Nat.toDigits 10 n))

/-- A number is read back. -/
theorem IsNumber.readsBack {whole part power : List Char} (h : IsNumber whole part power) :
    (number (String.ofList (whole ++ part ++ power))).ReadsBack := by
  have hstop : StopsNumber (whole ++ part ++ power) [] :=
    ⟨Text.stops_nil, by simp, by simp, fun _ => rfl⟩
  have hscan := scanNumber_append h hstop
  obtain ⟨c, ds, hds, hc⟩ := h.head
  have hprint : (number (String.ofList (whole ++ part ++ power))).print = whole ++ part ++ power :=
    String.toList_ofList
  rw [List.append_nil] at hscan
  rw [ReadsBack, hprint, hds, scan?_of_isDigit hc, ← hds, hscan]
  rfl

/-- Digits are a number. -/
theorem isNumber_digits {ds : List Char} (hne : ds ≠ []) (hds : ∀ c ∈ ds, c.isDigit = true) :
    IsNumber ds [] [] := by
  refine ⟨hds, Or.inl rfl, Or.inl rfl, by simpa using hne, ?_⟩
  rintro hperiod
  rw [List.append_nil] at hperiod
  have hdot := hds '.' (by rw [hperiod]; exact List.mem_singleton_self _)
  cases hdot

theorem readsBack_digitsToken (n : Nat) : (digitsToken n).ReadsBack := by
  have hnumber : IsNumber (Nat.toDigits 10 n) [] [] :=
    isNumber_digits Nat.toDigits_ne_nil (List.all_eq_true.1 (Number.all_isDigit_toDigits n))
  have hback := hnumber.readsBack
  rwa [List.append_nil, List.append_nil] at hback

end Token
end SchemaScript
