import SchemaScript.Proofs.Token.Settle
import Mathlib.Data.List.Chain

/-!
# Printing tokens and reading them again

A run of tokens that is cut out of a statement is printed and read again. This loses nothing
when every token is found again in its own print (`ReadsBack`) and no two tokens that the print
puts side by side grow together. For tokens in general the second condition is that the print
of the rest follows each of them (`Apart`, `tokenize_printAll`).

For the tokens of a text much less is needed. What stands behind a token in the text does not
carry it on, and the print begins almost as the text does: a blank may have become another
blank, `!=` has become `<>`, and the letter in front of a quote is written large. So only
three kinds of neighbours can grow together (`GrowTogether`), and a text whose tokens read
back and that has no such neighbours is read again from its print
(`tokenize_printAll_of_reprintable`).
-/

namespace SchemaScript
namespace Token

open Text (Stops isAlphabetic isNumeric)

/-! ## Tokens that stand apart -/

/-- Whether the token is read from its own print. -/
def ReadsBack (t : Token) : Prop :=
  scan? t.print = some (t, [])

instance (t : Token) : Decidable t.ReadsBack :=
  inferInstanceAs (Decidable (_ = _))

/-- Whether each of the tokens reads back and is followed by the print of the tokens behind
it, in front of the text `rest`. -/
def Apart (rest : List Char) : List Token → Prop
  | [] => True
  | t :: ts => t.ReadsBack ∧ Follows t.print t (printAll ts ++ rest) ∧ Apart rest ts

/-- A token that reads back is read in front of whatever follows it. -/
theorem ReadsBack.scan?_append {t : Token} (h : t.ReadsBack) {rest : List Char}
    (hr : Follows t.print t rest) : scan? (t.print ++ rest) = some (t, rest) := by
  have hself : scan? (t.print ++ []) = some (t, []) := by
    rw [List.append_nil]
    exact h
  exact Token.scan?_append hself hr

/-- **Tokens that stand apart are read from their print**, and what stands behind them is
read after them. -/
theorem tokenize_printAll_append {ts : List Token} {rest : List Char} (h : Apart rest ts) :
    tokenize (printAll ts ++ rest) = (tokenize rest).map (ts ++ ·) := by
  induction ts with
  | nil =>
    rw [printAll_nil, List.nil_append]
    cases tokenize rest <;> rfl
  | cons t ts ih =>
    obtain ⟨hback, hfollow, hrest⟩ := h
    rw [printAll_cons, List.append_assoc, tokenize_of_scan? (hback.scan?_append hfollow),
      ih hrest, Option.map_map]
    rfl

theorem tokenize_printAll {ts : List Token} (h : Apart [] ts) :
    tokenize (printAll ts) = some ts := by
  have hall := tokenize_printAll_append h
  rw [List.append_nil, tokenize_nil, Option.map_some, List.append_nil] at hall
  exact hall

theorem ReadsBack.print_ne_nil {t : Token} (h : t.ReadsBack) : t.print ≠ [] := by
  intro hn
  rw [ReadsBack, hn] at h
  cases h

/-! ## How a print differs from what was read -/

/-- The letters that the print of a literal can begin with. -/
def literalLetters : List Char :=
  ['B', 'E', 'N', 'R', 'U', 'X']

/-- How the print of a token that reads back differs from the text `w` it was read from. -/
inductive Respelled (w : List Char) : Token → Prop where
  | same {t : Token} (h : t.print = w) : Respelled w t
  | space : Respelled w (blank .space)
  | newline (h : w.head? = some '\r') : Respelled w (blank .newline)
  | unequal (h : w = ['!', '=']) : Respelled w (sign "<>")
  | long {text : String} (h : w = text.toList ++ ['L']) : Respelled w (number text)
  | literal {form : LiteralForm} {value : String} {l q d : Char} {more ds : List Char}
      (hl : l ∈ literalLetters) (hq : q = '\'' ∨ q = '"' ∨ q = '&')
      (hp : (literal form value).print = l :: q :: more) (hw : w = d :: ds)
      (hd : isWordStart d = true ∨ d = '0') : Respelled w (literal form value)

/-- The print of a literal begins with its letter, if it has one. -/
theorem print_literal_cons (form : LiteralForm) (value : String) :
    form = .plain ∨ (∃ tag, form = .dollar tag) ∨
      ∃ l ∈ literalLetters, ∃ q more, (q = '\'' ∨ q = '"' ∨ q = '&') ∧
        (Token.literal form value).print = l :: q :: more := by
  cases form with
  | plain => exact Or.inl rfl
  | dollar tag => exact Or.inr (Or.inl ⟨tag, rfl⟩)
  | national => exact Or.inr (Or.inr ⟨'N', by decide, '\'', _, Or.inl rfl, rfl⟩)
  | escaped => exact Or.inr (Or.inr ⟨'E', by decide, '\'', _, Or.inl rfl, rfl⟩)
  | codePoints => exact Or.inr (Or.inr ⟨'U', by decide, '&', _, Or.inr (Or.inr rfl), rfl⟩)
  | hex => exact Or.inr (Or.inr ⟨'X', by decide, '\'', _, Or.inl rfl, rfl⟩)
  | bytes q =>
    cases q with
    | single => exact Or.inr (Or.inr ⟨'B', by decide, '\'', _, Or.inl rfl, rfl⟩)
    | double => exact Or.inr (Or.inr ⟨'B', by decide, '"', _, Or.inr (Or.inl rfl), rfl⟩)
  | raw triple q =>
    cases triple <;> cases q
    · exact Or.inr (Or.inr ⟨'R', by decide, '\'', _, Or.inl rfl, rfl⟩)
    · exact Or.inr (Or.inr ⟨'R', by decide, '"', _, Or.inr (Or.inl rfl), rfl⟩)
    · exact Or.inr (Or.inr ⟨'R', by decide, '\'', _, Or.inl rfl, rfl⟩)
    · exact Or.inr (Or.inr ⟨'R', by decide, '"', _, Or.inr (Or.inl rfl), rfl⟩)

/-- What the operators are read as is printed as they are written, `!=` excepted. -/
theorem operators_print : ∀ entry ∈ operators,
    entry.2.print = entry.1 ∨ (entry.1 = ['!', '='] ∧ entry.2 = sign "<>") := by
  decide

theorem isWordPart_of_isWordStart {c : Char} (h : isWordStart c = true) :
    isWordPart c = true := by
  simp only [isWordStart, Bool.or_eq_true] at h
  simp only [isWordPart, Bool.or_eq_true]
  tauto

/-- A quoted name that reads back has none of its quotes inside. -/
theorem double_of_readsBack_quotedWord {q : NameQuote} {text : String}
    (h : (quotedWord q text).ReadsBack) : Text.double q.char text.toList = text.toList := by
  rw [ReadsBack, show (quotedWord q text).print = q.char :: (text.toList ++ [q.char]) from rfl,
    scan?_nameQuote] at h
  obtain ⟨⟨v, rest⟩, hv, he⟩ := Option.map_eq_some_iff.1 h
  obtain ⟨hvt, rfl⟩ := Prod.mk.inj he
  have hval : v = text.toList := by
    simp only [quotedWord.injEq, true_and] at hvt
    rw [← hvt, String.toList_ofList]
  have happ := Text.eq_double_of_quoted? hv
  rw [hval] at happ
  exact (List.append_cancel_right happ).symm

theorem literalStart?_form {c : Char} {cs behind : List Char} {form : LiteralForm}
    (h : literalStart? c cs = some (form, behind)) :
    form ≠ .plain ∧ ∀ tag, form ≠ .dollar tag := by
  unfold literalStart? at h
  split at h <;> cases h <;> exact ⟨by simp, by simp⟩

/-- A word with its first characters given is printed as it is written. -/
theorem print_scanWord (start cs : List Char) :
    (scanWord start cs).1.print ++ (scanWord start cs).2 = start ++ cs := by
  simp only [scanWord, print, String.toList_ofList, List.append_assoc,
    List.takeWhile_append_dropWhile]

theorem print_scanNumberSign (cs : List Char) :
    (scanNumberSign cs).1.print ++ (scanNumberSign cs).2 = '#' :: cs := by
  unfold scanNumberSign
  split
  · rfl
  · split
    · rfl
    · exact print_scanWord _ _

theorem print_scanAtSign (cs : List Char) :
    (scanAtSign cs).1.print ++ (scanAtSign cs).2 = '@' :: cs := by
  unfold scanAtSign
  split
  · rfl
  · split
    · rename_i hc
      subst hc
      split
      · rfl
      · split
        · rfl
        · exact print_scanWord _ _
    · split
      · rfl
      · exact print_scanWord _ _

theorem print_scanLineComment (cs : List Char) :
    (scanLineComment cs).1.print ++ (scanLineComment cs).2 = '-' :: '-' :: cs := by
  have happ : cs.takeWhile (· != '\n') ++ cs.dropWhile (· != '\n') = cs :=
    List.takeWhile_append_dropWhile
  simp only [scanLineComment]
  split
  · rename_i hd
    rw [hd, List.append_nil] at happ
    simp [print, Blank.print, happ]
  · rename_i c rest hd
    rw [hd] at happ
    simp [print, Blank.print, happ]

/-- Behind a dollar sign stands a tag, and behind the tag a literal if there is another one. -/
theorem scanDollar?_eq (cs : List Char) :
    scanDollar? cs =
      match cs.drop (cs.takeWhile isTagPart).length with
      | '$' :: rest => scanLiteral? (.dollar (String.ofList (cs.takeWhile isTagPart))) rest
      | rest => some (sign (String.ofList ('$' :: cs.takeWhile isTagPart)), rest) := rfl

theorem print_scanDollar? {cs rest : List Char} {t : Token}
    (h : scanDollar? cs = some (t, rest)) : t.print ++ rest = '$' :: cs := by
  have happ : cs.takeWhile isTagPart ++ cs.drop (cs.takeWhile isTagPart).length = cs := by
    have hpre : cs.takeWhile isTagPart <+: cs := List.takeWhile_prefix _
    rw [List.prefix_iff_eq_take.1 hpre, List.length_take]
    simp [List.take_append_drop, Nat.min_eq_left (hpre.length_le)]
  rw [scanDollar?_eq] at h
  generalize cs.takeWhile isTagPart = tag at *
  split at h
  · rename_i behind hd
    obtain ⟨⟨v, more⟩, hv, he⟩ := Option.map_eq_some_iff.1 h
    obtain ⟨rfl, rfl⟩ := Prod.mk.inj he
    have hcs := Text.eq_append_of_upTo? hv
    rw [hd, hcs] at happ
    rw [← happ]
    simp [print, LiteralForm.opening, LiteralForm.closing, LiteralForm.body]
  · obtain ⟨rfl, rfl⟩ := Prod.mk.inj (Option.some.inj h)
    simp [print, happ]

/-- **The print of a token that reads back is what it was read from**, up to the spelling of
blanks, of `!=` and of the letter in front of a quote. -/
theorem respelled_of_scanned {cs w rest : List Char} {t : Token} (h : Scanned cs t rest)
    (hw : w ≠ []) (hcs : cs = w ++ rest) (hback : t.ReadsBack) : Respelled w t := by
  have hsame : ∀ {u : Token}, u.print ++ rest = w ++ rest → Respelled w u :=
    fun he => Respelled.same (List.append_cancel_right he)
  cases h with
  | space => exact Respelled.space
  | tab => exact hsame hcs
  | newline => exact hsame hcs
  | carriageReturn =>
    obtain ⟨d, ds, rfl⟩ := List.exists_cons_of_ne_nil hw
    obtain ⟨rfl, -⟩ := List.cons.inj hcs
    exact Respelled.newline rfl
  | literal hc hs hv =>
    obtain ⟨hplain, hdollar⟩ := literalStart?_form hs
    obtain ⟨d, ds, rfl⟩ := List.exists_cons_of_ne_nil hw
    obtain ⟨rfl, -⟩ := List.cons.inj hcs
    rcases print_literal_cons _ _ with hf | ⟨tag, hf⟩ | ⟨l, hl, q, more, hq, hp⟩
    · exact absurd hf hplain
    · exact absurd hf (hdollar tag)
    · exact Respelled.literal hl hq hp rfl (Or.inl hc)
  | word hc hs =>
    refine hsame ?_
    rw [← hcs]
    exact print_scanWord [_] _
  | plain hv =>
    refine hsame ?_
    rw [← hcs, Text.eq_double_of_quoted? hv]
    simp [print, LiteralForm.opening, LiteralForm.closing, LiteralForm.body]
  | @quotedWord q cs v rest hv =>
    have hdouble := double_of_readsBack_quotedWord hback
    rw [String.toList_ofList] at hdouble
    refine hsame ?_
    rw [← hcs, Text.eq_double_of_quoted? hv, hdouble]
    simp [print]
  | number hn =>
    cases hn with
    | hex cs =>
      obtain ⟨d, ds, rfl⟩ := List.exists_cons_of_ne_nil hw
      obtain ⟨rfl, -⟩ := List.cons.inj hcs
      exact Respelled.literal (l := 'X') (by decide) (Or.inl rfl) rfl rfl (Or.inr rfl)
    | period hstop => exact hsame hcs
    | @number whole part power more hnum hr =>
      generalize whole ++ part ++ power = digits at *
      by_cases hL : ∃ ds, more = 'L' :: ds
      · obtain ⟨ds, rfl⟩ := hL
        refine Respelled.long ?_
        have happ : digits ++ ['L'] ++ ds = w ++ ds := by
          rw [List.append_assoc]
          simpa [dropLongMark] using hcs
        rw [String.toList_ofList]
        exact (List.append_cancel_right happ).symm
      · have hkeep : dropLongMark more = more := by
          cases more with
          | nil => rfl
          | cons d ds =>
            have hd : d ≠ 'L' := by
              rintro rfl
              exact hL ⟨ds, rfl⟩
            simp [dropLongMark, hd]
        rw [hkeep] at hcs
        refine Respelled.same ?_
        rw [print, String.toList_ofList]
        exact List.append_cancel_right hcs
  | lineComment => exact hsame ((print_scanLineComment _).trans hcs)
  | blockComment hv =>
    obtain ⟨rfl, -⟩ := blockComment?_settled hv
    refine hsame ?_
    rw [← hcs]
    simp [print, Blank.print]
  | operator hp h hd =>
    rcases operators_print _ hp with he | ⟨hneq, rfl⟩
    · exact Respelled.same (he.trans (List.append_cancel_right hcs))
    · exact Respelled.unequal ((List.append_cancel_right hcs).symm.trans hneq)
  | numberSign => exact hsame ((print_scanNumberSign _).trans hcs)
  | atSign => exact hsame ((print_scanAtSign _).trans hcs)
  | placeholder cs =>
    refine hsame ?_
    rw [← hcs]
    simp [print, List.takeWhile_append_dropWhile]
  | dollar h => exact hsame ((print_scanDollar? h).trans hcs)
  | foreignBlank => exact Respelled.space
  | other =>
    refine hsame ?_
    rw [← hcs]
    simp [print]

/-! ## Neighbours that grow together -/

/-- Whether the prints of two neighbours make other tokens side by side: `<` in front of `!=`,
hexadecimal digits in front of a string, and a number that had the letter `L` behind it in
front of a word or number. -/
def growTogether (l l' : Lexeme) : Bool :=
  match l.token, l'.token with
  | sign "<", sign "<>" => true
  | literal .hex _, literal .plain _ => true
  | number text, word _ => l.written != text.toList
  | number text, number _ => l.written != text.toList
  | number text, mark .period => l.written != text.toList
  | _, _ => false

/-- Whether the lexemes can be printed and read again: each reads back and no two neighbours
grow together. -/
def Reprintable (ls : List Lexeme) : Prop :=
  (∀ l ∈ ls, l.token.ReadsBack) ∧ ls.IsChain fun l l' => growTogether l l' = false

instance (ls : List Lexeme) : Decidable (Reprintable ls) :=
  inferInstanceAs (Decidable (_ ∧ _))

theorem reprintable_cons {l : Lexeme} {ls : List Lexeme} :
    Reprintable (l :: ls) ↔
      l.token.ReadsBack ∧ (∀ l' ∈ ls.head?, growTogether l l' = false) ∧ Reprintable ls := by
  simp only [Reprintable, List.forall_mem_cons, List.isChain_cons]
  tauto

/-- The lexemes of a text that begins with a token. -/
theorem head?_lexemes {cs : List Char} {t : Token} {ts : List Token}
    (h : tokenize cs = some (t :: ts)) : ∃ l, (lexemes cs).head? = some l ∧ l.token = t := by
  have hmap := map_token_lexemes h
  cases hl : lexemes cs with
  | nil =>
    rw [hl] at hmap
    cases hmap
  | cons l ls =>
    rw [hl, List.map_cons] at hmap
    exact ⟨l, rfl, (List.cons.inj hmap).1⟩

/-! ## How a print begins -/

/-- A character that the print of a text begins with only if the text does. -/
def Firm (d : Char) : Prop :=
  d ≠ ' ' ∧ d ≠ '\n' ∧ d ≠ '<' ∧ d ∉ literalLetters

instance (d : Char) : Decidable (Firm d) :=
  inferInstanceAs (Decidable (_ ∧ _))

/-- The print of the tokens of a text begins as the text does, with the exceptions that the
spelling of its first token makes. -/
theorem head_printAll {cs : List Char} {ts : List Token} (h : tokenize cs = some ts)
    (hr : Reprintable (lexemes cs)) {d : Char} {more : List Char}
    (hp : printAll ts = d :: more) :
    cs.head? = some d ∨ d = ' ' ∨ (d = '\n' ∧ cs.head? = some '\r') ∨
      (d = '<' ∧ cs.head? = some '!' ∧ ts.head? = some (sign "<>")) ∨
      (d ∈ literalLetters ∧ (∃ q ∈ more.head?, q = '\'' ∨ q = '"' ∨ q = '&') ∧
        ∃ c ∈ cs.head?, isWordStart c = true ∨ c = '0') := by
  induction h using tokenize_induction with
  | nil => cases hp
  | cons w t rest ts hs ht hne _ =>
    rw [lexemes_of_scan? hs, reprintable_cons] at hr
    have hback : t.ReadsBack := hr.1
    have hprint := hback.print_ne_nil
    have hspell := respelled_of_scanned (scanned_of_scan? hs) hne rfl hback
    rw [printAll_cons] at hp
    have hhead : t.print.head? = some d := by
      rw [← List.head?_append_of_ne_nil t.print hprint, hp]
      rfl
    cases hspell with
    | same he =>
      left
      rw [← he, List.head?_append_of_ne_nil _ hprint]
      exact hhead
    | space =>
      right; left
      exact (Option.some.inj hhead).symm
    | newline hw =>
      right; right; left
      exact ⟨(Option.some.inj hhead).symm, by rw [List.head?_append_of_ne_nil w hne, hw]⟩
    | unequal he =>
      right; right; right; left
      exact ⟨(Option.some.inj hhead).symm, by rw [he]; rfl, rfl⟩
    | @long text he =>
      left
      rw [he, List.append_assoc]
      exact (List.head?_append_of_ne_nil text.toList hprint).trans hhead
    | @literal form value l q d' more' ds hl hq hpl hw hd' =>
      right; right; right; right
      rw [hpl, List.cons_append, List.cons_append] at hp
      obtain ⟨rfl, hmore⟩ := List.cons.inj hp
      refine ⟨hl, ⟨q, by rw [← hmore]; rfl, hq⟩, d', by rw [hw]; rfl, hd'⟩

theorem head?_of_printAll {cs : List Char} {ts : List Token} (h : tokenize cs = some ts)
    (hr : Reprintable (lexemes cs)) {d : Char} (hp : (printAll ts).head? = some d)
    (hd : Firm d) : cs.head? = some d := by
  obtain ⟨more, hmore⟩ := List.head?_eq_some_iff.1 hp
  rcases head_printAll h hr hmore with hc | hc | hc | hc | hc
  · exact hc
  · exact absurd hc hd.1
  · exact absurd hc.1 hd.2.1
  · exact absurd hc.1 hd.2.2.1
  · exact absurd hc.1 hd.2.2.2

/-- A text that stops a run is printed to one that does. -/
theorem stops_printAll {cs : List Char} {ts : List Token} (h : tokenize cs = some ts)
    (hr : Reprintable (lexemes cs)) {p : Char → Bool} (hs : Stops p cs)
    (hblank : p ' ' = false ∧ p '\n' = false ∧ p '<' = false)
    (hletter : (∀ l ∈ literalLetters, p l = false) ∨
      ∀ c, isWordStart c = true ∨ c = '0' → p c = true) :
    Stops p (printAll ts) := by
  intro d hd
  obtain ⟨more, hmore⟩ := List.head?_eq_some_iff.1 hd
  rcases head_printAll h hr hmore with hc | rfl | ⟨rfl, -⟩ | ⟨rfl, -⟩ | ⟨hl, -, c, hc, hword⟩
  · exact hs d hc
  · exact hblank.1
  · exact hblank.2.1
  · exact hblank.2.2
  · rcases hletter with hletter | hletter
    · exact hletter d hl
    · have hpc := hletter c hword
      rw [hs c hc] at hpc
      cases hpc

/-- A number sign begins a word or is a sign. -/
theorem scanNumberSign_token (cs : List Char) :
    ∃ text, (scanNumberSign cs).1 = word text ∨ (scanNumberSign cs).1 = sign text := by
  unfold scanNumberSign
  split
  · exact ⟨_, Or.inr rfl⟩
  · split
    · exact ⟨_, Or.inr rfl⟩
    · exact ⟨_, Or.inl rfl⟩

/-- An at sign begins a word or is a sign. -/
theorem scanAtSign_token (cs : List Char) :
    ∃ text, (scanAtSign cs).1 = word text ∨ (scanAtSign cs).1 = sign text := by
  unfold scanAtSign
  split
  · exact ⟨_, Or.inr rfl⟩
  · split
    · split
      · exact ⟨_, Or.inr rfl⟩
      · split
        · exact ⟨_, Or.inr rfl⟩
        · exact ⟨_, Or.inl rfl⟩
    · split
      · exact ⟨_, Or.inr rfl⟩
      · exact ⟨_, Or.inl rfl⟩

/-- A dollar sign begins a string or is a sign. -/
theorem scanDollar?_token {cs rest : List Char} {t : Token} (h : scanDollar? cs = some (t, rest)) :
    (∃ form value, t = literal form value) ∨ ∃ text, t = sign text := by
  simp only [scanDollar?] at h
  split at h
  · obtain ⟨v, -, he⟩ := Option.map_eq_some_iff.1 h
    exact Or.inl ⟨_, _, (Prod.mk.inj he).1.symm⟩
  · exact Or.inr ⟨_, (Prod.mk.inj (Option.some.inj h)).1.symm⟩

theorem scanLineComment_token (cs : List Char) :
    ∃ text, (scanLineComment cs).1 = blank (.lineComment text) := by
  simp only [scanLineComment]
  split
  · exact ⟨_, rfl⟩
  · exact ⟨_, rfl⟩

/-- A number begins with a digit or a period. -/
theorem head_of_scanned_number {cs rest : List Char} {text : String}
    (h : Scanned cs (number text) rest) : ∃ c ∈ cs.head?, c.isDigit = true ∨ c = '.' := by
  generalize ht : number text = t at h
  cases h with
  | number hn =>
    cases hn with
    | hex => cases ht
    | period => cases ht
    | number hnum hr =>
      obtain ⟨c, ds, hcs, hc⟩ := hnum.head
      rw [hcs]
      exact ⟨c, rfl, hc⟩
  | lineComment cs =>
    obtain ⟨text', he⟩ := scanLineComment_token cs
    cases ht.trans he
  | operator hp h hd =>
    subst ht
    cases (operators_tokens _ hp).1
  | @numberSign cs h =>
    obtain ⟨text', he | he⟩ := scanNumberSign_token cs <;> cases ht.trans he
  | @atSign cs h =>
    obtain ⟨text', he | he⟩ := scanAtSign_token cs <;> cases ht.trans he
  | dollar h =>
    rcases scanDollar?_token h with ⟨form, value, he⟩ | ⟨text', he⟩ <;> cases ht.trans he
  | _ => cases ht

theorem head_of_readsBack_number {text : String} (h : (number text).ReadsBack) :
    ∃ c ∈ text.toList.head?, c.isDigit = true ∨ c = '.' :=
  head_of_scanned_number (scanned_of_scan? h)

/-- Several characters that the print begins with are those of the text, as long as they are
firm and no number lies among them. -/
theorem prefix_of_prefix_printAll {cs : List Char} {ts : List Token}
    (h : tokenize cs = some ts) (hr : Reprintable (lexemes cs)) {s : List Char}
    (hp : s <+: printAll ts) (hfirm : ∀ d ∈ s, Firm d)
    (hnum : ∀ d ∈ s.dropLast, d.isDigit = false ∧ d ≠ '.') : s <+: cs := by
  induction h using tokenize_induction generalizing s with
  | nil => exact hp
  | cons w t rest ts hs ht hne ih =>
    cases s with
    | nil => exact List.nil_prefix
    | cons d s =>
      have hhead : (printAll (t :: ts)).head? = some d := by
        obtain ⟨z, hz⟩ := hp
        rw [← hz]
        rfl
      have hd : Firm d := hfirm d List.mem_cons_self
      have hcs := head?_of_printAll (tokenize_cons hs ht) hr hhead hd
      cases s with
      | nil =>
        obtain ⟨z, hz⟩ := List.head?_eq_some_iff.1 hcs
        exact ⟨z, by rw [hz]; rfl⟩
      | cons d' s =>
        rw [lexemes_of_scan? hs, reprintable_cons] at hr
        have hback : t.ReadsBack := hr.1
        have hpr := hback.print_ne_nil
        have hpt : t.print.head? = some d := by
          rw [printAll_cons, List.head?_append_of_ne_nil _ hpr] at hhead
          exact hhead
        have hsame : t.print = w := by
          cases respelled_of_scanned (scanned_of_scan? hs) hne rfl hback with
          | same he => exact he
          | space => exact absurd (Option.some.inj hpt).symm hd.1
          | newline => exact absurd (Option.some.inj hpt).symm hd.2.1
          | unequal he => exact absurd (Option.some.inj hpt).symm hd.2.2.1
          | @long text he =>
            obtain ⟨c, hc, hdig⟩ := head_of_readsBack_number hback
            have hcd : c = d := Option.some.inj (hc.symm.trans hpt)
            subst hcd
            obtain ⟨h1, h2⟩ := hnum c (by simp)
            rcases hdig with h3 | h3
            · rw [h1] at h3
              cases h3
            · exact absurd h3 h2
          | literal hl hq hpl hw hd' =>
            rw [hpl] at hpt
            rw [← Option.some.inj hpt] at hd
            exact absurd hl hd.2.2.2
        rw [printAll_cons, hsame] at hp
        rcases List.prefix_or_prefix_of_prefix hp (List.prefix_append w _) with hw | ⟨s2, hs2⟩
        · exact List.prefix_append_of_prefix hw
        · rw [← hs2] at hp hfirm hnum ⊢
          rw [List.prefix_append_right_inj] at hp ⊢
          refine ih hr.2.2 hp (fun e he => hfirm e (List.mem_append_right w he)) fun e he => ?_
          refine hnum e ?_
          have hne2 : s2 ≠ [] := List.ne_nil_of_mem (List.mem_of_mem_dropLast he)
          rw [List.dropLast_append_of_ne_nil hne2]
          exact List.mem_append_right w he

/-! ## The print follows where the text does -/

/-- The characters of operators are firm, but for the one that `!=` is printed with. -/
theorem operators_firm : ∀ entry ∈ operators, ∀ d ∈ entry.1, Firm d ∨ d = '<' := by
  decide

/-- No operator but `<` goes on with the character that `!=` is printed with. -/
theorem operators_less : ∀ entry ∈ operators, ∀ p ∈ entry.1.inits,
    p.getLast? = some '<' → p.dropLast = [] ∨ p.dropLast = ['<'] := by
  decide

/-- What opens a literal shows in the first quote, or in an ampersand and a quote. -/
theorem literalStart?_ne_none {c : Char} {cs : List Char} (h : literalStart? c cs ≠ none) :
    (∃ q more, (q = '\'' ∨ q = '"') ∧ cs = q :: more ∧
      ∀ x, literalStart? c (q :: x) ≠ none) ∨
    (∃ more, cs = '&' :: '\'' :: more ∧ ∀ x, literalStart? c ('&' :: '\'' :: x) ≠ none) := by
  have hraw : c.toLower = 'r' → ∀ q x, q = '\'' ∨ q = '"' → literalStart? c (q :: x) ≠ none := by
    rintro hl q x (rfl | rfl) <;>
    · unfold literalStart?
      rw [hl]
      split <;> simp_all
  unfold literalStart? at h
  split at h
  · rename_i hl
    exact Or.inl ⟨_, _, Or.inl rfl, rfl, fun x => by simp [literalStart?, hl]⟩
  · rename_i hl
    exact Or.inl ⟨_, _, Or.inr rfl, rfl, fun x => by simp [literalStart?, hl]⟩
  · rename_i hl
    exact Or.inl ⟨_, _, Or.inl rfl, rfl, fun x => hraw hl _ x (Or.inl rfl)⟩
  · rename_i hl
    exact Or.inl ⟨_, _, Or.inr rfl, rfl, fun x => hraw hl _ x (Or.inr rfl)⟩
  · rename_i hl
    exact Or.inl ⟨_, _, Or.inl rfl, rfl, fun x => hraw hl _ x (Or.inl rfl)⟩
  · rename_i hl
    exact Or.inl ⟨_, _, Or.inr rfl, rfl, fun x => hraw hl _ x (Or.inr rfl)⟩
  · rename_i hl
    exact Or.inl ⟨_, _, Or.inl rfl, rfl, fun x => by simp [literalStart?, hl]⟩
  · rename_i hl
    exact Or.inl ⟨_, _, Or.inl rfl, rfl, fun x => by simp [literalStart?, hl]⟩
  · rename_i hl
    exact Or.inr ⟨_, rfl, fun x => by simp [literalStart?, hl]⟩
  · rename_i hl
    exact Or.inl ⟨_, _, Or.inl rfl, rfl, fun x => by simp [literalStart?, hl]⟩
  · exact absurd rfl h

/-- A text has no exponent in front when no letter, sign and digit make one. -/
theorem exponent_eq_iff {cs : List Char} :
    exponent cs = ([], cs) ↔ ∀ e sign d, (e = 'e' ∨ e = 'E') →
      (sign = [] ∨ sign = ['+'] ∨ sign = ['-']) → d.isDigit = true →
        ¬ e :: sign ++ [d] <+: cs := by
  constructor
  · rintro h e sign d he hsign hd ⟨more, rfl⟩
    have hpow : IsExponent (e :: sign ++ (d :: more).takeWhile Char.isDigit) := by
      refine Or.inr ⟨e, sign, _, he, hsign, ?_, fun _ => List.mem_takeWhile_imp, rfl⟩
      rw [List.takeWhile_cons_of_pos hd]
      exact List.cons_ne_nil _ _
    have hread := exponent_append hpow (by simp)
      (Text.stops_dropWhile (p := Char.isDigit) (d :: more))
    rw [List.append_assoc, List.takeWhile_append_dropWhile] at hread
    rw [List.append_assoc, List.singleton_append, hread] at h
    cases (Prod.mk.inj h).1
  · intro h
    cases cs with
    | nil => rfl
    | cons e cs =>
      simp only [exponent]
      rw [if_neg]
      rintro ⟨he, hdig⟩
      obtain ⟨hsign, happ⟩ := exponentSign_spec cs
      have hrun : ∀ c ∈ (cs.drop (exponentSign cs).length).takeWhile Char.isDigit,
          c.isDigit = true := fun _ => List.mem_takeWhile_imp
      have htake := List.takeWhile_prefix (p := Char.isDigit)
        (l := cs.drop (exponentSign cs).length)
      obtain ⟨d, ds, hds⟩ := List.exists_cons_of_ne_nil hdig
      rw [hds] at hrun htake
      refine h e (exponentSign cs) d he hsign (hrun d List.mem_cons_self) ?_
      obtain ⟨z, hz⟩ := htake
      refine ⟨ds ++ z, ?_⟩
      conv_rhs => rw [← happ, ← hz]
      simp

section Follow

variable {cs : List Char} {ts : List Token} (h : tokenize cs = some ts)
  (hr : Reprintable (lexemes cs))
include h hr

theorem literalStart?_printAll {c : Char} (hc : literalStart? c cs = none) :
    literalStart? c (printAll ts) = none := by
  by_contra hn
  rcases literalStart?_ne_none hn with ⟨q, more, hq, hp, hx⟩ | ⟨more, hp, hx⟩
  · have hfirm : Firm q := by rcases hq with rfl | rfl <;> decide
    obtain ⟨more', rfl⟩ := List.head?_eq_some_iff.1
      (head?_of_printAll h hr (by rw [hp]; rfl) hfirm)
    exact hx more' hc
  · have hpre : ['&', '\''] <+: printAll ts := by
      rw [hp]
      exact ⟨more, rfl⟩
    obtain ⟨more', rfl⟩ := prefix_of_prefix_printAll h hr hpre (by decide) (by decide)
    exact hx more' hc

/-- A print has an exponent in front only if the text has. -/
theorem exponent_printAll (hc : exponent cs = ([], cs)) :
    exponent (printAll ts) = ([], printAll ts) := by
  rw [exponent_eq_iff] at hc ⊢
  intro e sign d he hsign hd hp
  refine hc e sign d he hsign hd ?_
  have hdfirm : Firm d := by
    have hne : ∀ x : Char, x.isDigit = false → d ≠ x := by
      rintro x hx rfl
      rw [hx] at hd
      cases hd
    refine ⟨hne _ rfl, hne _ rfl, hne _ rfl, fun hm => ?_⟩
    simp only [literalLetters, List.mem_cons, List.not_mem_nil, or_false] at hm
    rcases hm with rfl | rfl | rfl | rfl | rfl | rfl <;> cases hd
  have htail : ∀ x ∈ sign ++ [d], Firm x := by
    intro x hx
    rcases List.mem_append.1 hx with hx | hx
    · rcases hsign with rfl | rfl | rfl
      · cases hx
      · obtain rfl := List.mem_singleton.1 hx
        decide
      · obtain rfl := List.mem_singleton.1 hx
        decide
    · obtain rfl := List.mem_singleton.1 hx
      exact hdfirm
  have hnum : ∀ x ∈ (sign ++ [d]).dropLast, x.isDigit = false ∧ x ≠ '.' := by
    intro x hx
    rw [List.dropLast_concat] at hx
    rcases hsign with rfl | rfl | rfl
    · cases hx
    · obtain rfl := List.mem_singleton.1 hx
      decide
    · obtain rfl := List.mem_singleton.1 hx
      decide
  cases ts with
  | nil => simp at hp
  | cons t ts =>
    obtain ⟨rest, hs, ht⟩ := tokenize_cons_iff.1 h
    obtain ⟨w, hne, rfl⟩ := exists_written hs
    rw [lexemes_of_scan? hs, reprintable_cons] at hr
    have hback : t.ReadsBack := hr.1
    have hhead : t.print.head? = some e := by
      obtain ⟨z, hz⟩ := hp
      have hfirst : (t.print ++ printAll ts).head? = t.print.head? :=
        List.head?_append_of_ne_nil t.print hback.print_ne_nil
      rw [← hfirst, ← printAll_cons, ← hz]
      rfl
    cases respelled_of_scanned (scanned_of_scan? hs) hne rfl hback with
    | same hw =>
      rw [printAll_cons, hw] at hp
      rcases List.prefix_or_prefix_of_prefix hp (List.prefix_append w _) with hpw | ⟨s2, hs2⟩
      · exact List.prefix_append_of_prefix hpw
      · obtain ⟨c, w, rfl⟩ := List.exists_cons_of_ne_nil hne
        rw [← hs2] at hp ⊢
        rw [List.prefix_append_right_inj] at hp ⊢
        have hs2' : w ++ s2 = sign ++ [d] := (List.cons.inj hs2).2
        rw [← hs2'] at htail hnum
        refine prefix_of_prefix_printAll ht hr.2.2 hp
          (fun x hx => htail x (List.mem_append_right w hx)) fun x hx => hnum x ?_
        have hne2 : s2 ≠ [] := List.ne_nil_of_mem (List.mem_of_mem_dropLast hx)
        rw [List.dropLast_append_of_ne_nil hne2]
        exact List.mem_append_right w hx
    | space => rcases he with rfl | rfl <;> cases hhead
    | newline => rcases he with rfl | rfl <;> cases hhead
    | unequal => rcases he with rfl | rfl <;> cases hhead
    | long hw =>
      obtain ⟨c, hc, hdig⟩ := head_of_readsBack_number hback
      have hce : c = e := Option.some.inj (hc.symm.trans hhead)
      subst hce
      rcases he with rfl | rfl <;> rcases hdig with hdig | hdig <;> cases hdig
    | @literal form value l q d' more ds hl hq hpl hw hd' =>
      -- the letter stands in front of a quote, not of a sign or digit
      rw [printAll_cons, hpl] at hp
      obtain ⟨z, hz⟩ := hp
      have hsecond : (sign ++ [d] ++ z).head? = some q := by
        have htl : sign ++ [d] ++ z = q :: (more ++ printAll ts) := (List.cons.inj hz).2
        rw [htl]
        rfl
      have hqd : q.isDigit = false ∧ q ≠ '+' ∧ q ≠ '-' := by
        rcases hq with rfl | rfl | rfl <;> decide
      rcases hsign with rfl | rfl | rfl
      · rw [← Option.some.inj hsecond, hd] at hqd
        cases hqd.1
      · exact absurd (Option.some.inj hsecond).symm hqd.2.1
      · exact absurd (Option.some.inj hsecond).symm hqd.2.2

theorem stopsNumber_printAll {digits : List Char} (hs : StopsNumber digits cs) :
    StopsNumber digits (printAll ts) := by
  refine ⟨?_, fun hd hp => ?_, fun hd hp => ?_, fun hd => ?_⟩
  · exact stops_printAll h hr hs.digit (by decide) (Or.inl (by decide))
  · exact hs.period hd (head?_of_printAll h hr hp (by decide))
  · exact hs.hex hd (head?_of_printAll h hr hp (by decide))
  · exact exponent_printAll h hr (hs.exponent hd)

theorem closed_printAll {form : LiteralForm} (hs : Closed form cs) :
    Closed form (printAll ts) := by
  have hquote : ∀ q, Firm q → cs.head? ≠ some q → (printAll ts).head? ≠ some q :=
    fun q hq hne hp => hne (head?_of_printAll h hr hp hq)
  cases form with
  | bytes q => cases q <;> exact hquote _ (by decide) hs
  | raw triple q =>
    cases triple with
    | true => trivial
    | false => cases q <;> exact hquote _ (by decide) hs
  | dollar tag => trivial
  | _ => exact hquote _ (by decide) hs

theorem stopsOperator_printAll {w : List Char} (hw : w ≠ [])
    (hless : w = ['<'] → ts.head? ≠ some (sign "<>")) (hs : StopsOperator w cs) :
    StopsOperator w (printAll ts) := by
  intro d hd
  obtain ⟨more, hmore⟩ := List.head?_eq_some_iff.1 hd
  refine ⟨fun entry he hp => ?_, ?_, ?_⟩
  · have hmem : d ∈ entry.1 := hp.subset (by simp)
    rcases operators_firm entry he d hmem with hfirm | rfl
    · exact (hs d (head?_of_printAll h hr hd hfirm)).1 entry he hp
    · rcases head_printAll h hr hmore with hc | hc | ⟨hc, -⟩ | ⟨-, -, hc⟩ | ⟨hc, -⟩
      · exact (hs _ hc).1 entry he hp
      · cases hc
      · cases hc
      · have hlast := operators_less entry he (w ++ ['<']) ((List.mem_inits _ _).2 hp) (by simp)
        rw [List.dropLast_concat] at hlast
        rcases hlast with hlast | hlast
        · exact hw hlast
        · exact hless hlast hc
      · revert hc
        decide
  · rintro ⟨hm, rfl⟩
    exact (hs _ (head?_of_printAll h hr hd (by decide))).2.1 ⟨hm, rfl⟩
  · rintro ⟨hm, rfl⟩
    exact (hs _ (head?_of_printAll h hr hd (by decide))).2.2 ⟨hm, rfl⟩

/-- What stands behind a sign is one of few characters, and these are printed as they
are. -/
theorem head_printAll_of_quotes {p : Char → Prop} (hspace : p ' ')
    (hcond : ∀ c, p c → c ≠ '\r' ∧ c ≠ '!' ∧ isWordStart c = false ∧ c ≠ '0')
    (hs : ∀ c ∈ cs.head?, p c) : ∀ d ∈ (printAll ts).head?, p d := by
  intro d hd
  obtain ⟨more, hmore⟩ := List.head?_eq_some_iff.1 hd
  rcases head_printAll h hr hmore with hc | rfl | ⟨-, hc⟩ | ⟨-, hc, -⟩ | ⟨-, -, c, hc, hword⟩
  · exact hs d hc
  · exact hspace
  · exact absurd rfl (hcond _ (hs _ hc)).1
  · exact absurd rfl (hcond _ (hs _ hc)).2.1
  · obtain ⟨-, -, h3, h4⟩ := hcond _ (hs _ hc)
    rcases hword with hword | hword
    · rw [h3] at hword
      cases hword
    · exact absurd hword h4

theorem stopsSign_printAll {w : List Char} (hs : StopsSign w cs) :
    StopsSign w (printAll ts) := by
  refine ⟨fun hw => ?_, fun hw => ?_, fun hw => ?_, fun hw => ⟨?_, fun hp => ?_⟩⟩
  · refine head_printAll_of_quotes h hr (p := fun d => d = ' ') rfl ?_ (hs.1 hw)
    rintro c rfl
    decide
  · refine head_printAll_of_quotes h hr
      (p := fun d => d = ' ' ∨ d = '\'' ∨ d = '"' ∨ d = '\x60') (Or.inl rfl) ?_ (hs.2.1 hw)
    rintro c (rfl | rfl | rfl | rfl) <;> decide
  · exact stops_printAll h hr (hs.2.2.1 hw) (by decide) (Or.inl (by decide))
  · refine stops_printAll h hr (hs.2.2.2 hw).1 (by decide) (Or.inr ?_)
    rintro c (hc | rfl)
    · simp only [isWordStart, Bool.or_eq_true] at hc
      simp only [isTagPart, Bool.or_eq_true]
      tauto
    · decide
  · exact (hs.2.2.2 hw).2 (head?_of_printAll h hr hp (by decide))

end Follow

/-! ## Printing and reading again -/

/-- A token whose print begins with a digit or a period is a number or that period. -/
theorem ReadsBack.number_of_isDigit {u : Token} (h : u.ReadsBack) {d : Char} {ds : List Char}
    (hp : u.print = d :: ds) (hd : d.isDigit = true ∨ d = '.') :
    (∃ text, u = number text) ∨ u = mark .period := by
  have hself := h
  rw [ReadsBack, hp, scan?_of_isDigit hd] at hself
  have hhead : ∃ c ∈ (d :: ds).head?, c.isDigit = true ∨ c = '.' := ⟨d, rfl, hd⟩
  have hn := scannedNumber_scanNumber hhead
  rw [Option.some.inj hself] at hn
  generalize hcs : d :: ds = cs at hn
  generalize ([] : List Char) = rest at hn
  cases hn with
  | hex cs =>
    -- hexadecimal digits are printed between quotes
    have hx : d = 'X' := (List.cons.inj hp).1.symm
    subst hx
    rcases hd with hd | hd <;> cases hd
  | period => exact Or.inr rfl
  | number => exact Or.inl ⟨_, rfl⟩

/-- A token whose print begins with a letter is a word, or the letter opens a literal. -/
theorem ReadsBack.word_of_isWordStart {u : Token} (h : u.ReadsBack) {d : Char} {ds : List Char}
    (hp : u.print = d :: ds) (hd : isWordStart d = true) :
    (∃ text, u = word text) ∨
      (d ∈ literalLetters ∧ ∃ q ∈ ds.head?, q = '\'' ∨ q = '"' ∨ q = '&') := by
  have hself := h
  rw [ReadsBack, hp, scan?_of_isWordStart hd] at hself
  unfold scanLetter? at hself
  split at hself
  · rename_i form behind hs
    obtain ⟨v, -, he⟩ := Option.map_eq_some_iff.1 hself
    obtain ⟨rfl, -⟩ := Prod.mk.inj he
    obtain ⟨hplain, hdollar⟩ := literalStart?_form hs
    rcases print_literal_cons form (String.ofList v.1) with
      hf | ⟨tag, hf⟩ | ⟨l, hl, q, more, hq, hlp⟩
    · exact absurd hf hplain
    · exact absurd hf (hdollar tag)
    · rw [hp] at hlp
      obtain ⟨rfl, rfl⟩ := List.cons.inj hlp
      exact Or.inr ⟨hl, q, rfl, hq⟩
  · obtain ⟨ht, -⟩ := Prod.mk.inj (Option.some.inj hself)
    exact Or.inl ⟨_, ht.symm⟩

/-- A token whose print begins with a quote is a plain string. -/
theorem ReadsBack.plain_of_quote {u : Token} (h : u.ReadsBack)
    (hp : u.print.head? = some '\'') : ∃ value, u = literal .plain value := by
  obtain ⟨ds, hds⟩ := List.head?_eq_some_iff.1 hp
  rw [ReadsBack, hds, scan?_quote] at h
  obtain ⟨v, -, he⟩ := Option.map_eq_some_iff.1 h
  exact ⟨_, (Prod.mk.inj he).1.symm⟩

/-- No operator goes on behind `<>`. -/
theorem stopsOperator_unequal (y : List Char) : StopsOperator ['<', '>'] y := by
  have hlast : ∀ entry ∈ operators, ['<', '>'] <+: entry.1 → entry.1.length = 2 := by
    decide
  refine fun d _ => ⟨fun entry he hp => ?_, by simp, by simp⟩
  have hlen := hlast entry he ((List.prefix_append _ [d]).trans hp)
  have := hp.length_le
  simp only [List.length_append, List.length_cons, List.length_nil] at this
  omega

/-- A number that had the letter `L` behind it is not carried on by a print that begins with
no word and no number. -/
theorem stopsNumber_of_head {digits : List Char} {us : List Token}
    (hback : ∀ u ∈ us.head?, u.ReadsBack)
    (hword : ∀ u ∈ us.head?, ∀ text, u ≠ word text)
    (hnum : ∀ u ∈ us.head?, (∀ text, u ≠ number text) ∧ u ≠ mark .period) :
    StopsNumber digits (printAll us) ∧ (printAll us).head? ≠ some 'L' := by
  cases us with
  | nil => exact ⟨⟨Text.stops_nil, by simp, by simp, fun _ => rfl⟩, by simp⟩
  | cons u us =>
    have hu := hback u rfl
    obtain ⟨d, ds, hp⟩ := List.exists_cons_of_ne_nil hu.print_ne_nil
    have hdigit : ¬ (d.isDigit = true ∨ d = '.') := by
      intro hd
      rcases hu.number_of_isDigit hp hd with ⟨text, ht⟩ | ht
      · exact (hnum u rfl).1 text ht
      · exact (hnum u rfl).2 ht
    have hletter : isWordStart d = true →
        d ∈ literalLetters ∧ ∃ q ∈ ds.head?, q = '\'' ∨ q = '"' ∨ q = '&' := by
      intro hd
      rcases hu.word_of_isWordStart hp hd with ⟨text, ht⟩ | hq
      · exact absurd ht (hword u rfl text)
      · exact hq
    rw [printAll_cons, hp, List.cons_append]
    refine ⟨⟨?_, ?_, ?_, ?_⟩, ?_⟩
    · exact Text.stops_cons.2 (by simpa using fun hd => hdigit (Or.inl hd))
    · rintro - hd
      exact hdigit (Or.inr (Option.some.inj hd))
    · rintro - hd
      obtain rfl := Option.some.inj hd
      have hmem := (hletter (by decide)).1
      revert hmem
      decide
    · intro _
      rw [exponent_eq_iff]
      rintro e sign c he hsign hc ⟨z, happ⟩
      obtain ⟨rfl, hz⟩ := List.cons.inj happ
      obtain ⟨-, q, hq, hquote⟩ := hletter (by rcases he with rfl | rfl <;> decide)
      -- a quote stands where the sign or the digit should
      have hsecond : (sign ++ [c] ++ z).head? = some q := by
        rw [show sign ++ [c] ++ z = ds ++ printAll us from hz]
        obtain ⟨more, rfl⟩ := List.head?_eq_some_iff.1 hq
        rfl
      have hqd : q.isDigit = false ∧ q ≠ '+' ∧ q ≠ '-' := by
        rcases hquote with rfl | rfl | rfl <;> decide
      rcases hsign with rfl | rfl | rfl
      · rw [← Option.some.inj hsecond, hc] at hqd
        cases hqd.1
      · exact hqd.2.1 (Option.some.inj hsecond).symm
      · exact hqd.2.2 (Option.some.inj hsecond).symm
    · intro hd
      obtain rfl := Option.some.inj hd
      have hmem := (hletter (by decide)).1
      revert hmem
      decide

/-- **What the tokens of a text are printed to follows where the text does.** -/
theorem follows_printAll {w rest : List Char} {t : Token} {ts : List Token}
    (hs : scan? (w ++ rest) = some (t, rest)) (hne : w ≠ []) (ht : tokenize rest = some ts)
    (hr : Reprintable (⟨t, w⟩ :: lexemes rest)) : Follows t.print t (printAll ts) := by
  rw [reprintable_cons] at hr
  obtain ⟨hback, hgrow, hr⟩ := hr
  have hfollows := follows_of_scan? hs
  have hscanned := scanned_of_scan? hs
  have hspell := respelled_of_scanned hscanned hne rfl hback
  -- what is known of the first token of the print
  have hnext : ∀ u ∈ ts.head?, ∃ l, l.token = u ∧ growTogether ⟨t, w⟩ l = false ∧ u.ReadsBack := by
    intro u hu
    obtain ⟨us, rfl⟩ := List.head?_eq_some_iff.1 hu
    obtain ⟨l, hl, rfl⟩ := head?_lexemes ht
    exact ⟨l, rfl, hgrow l hl, hr.1 l (List.mem_of_mem_head? hl)⟩
  cases t with
  | blank kind =>
    cases kind with
    | newline =>
      intro hcr
      cases hcr
    | lineComment text =>
      intro hlast
      have hnil : rest = [] := hfollows hlast
      subst hnil
      rw [tokenize_nil] at ht
      cases ht
      rfl
    | _ => trivial
  | word text =>
    have hsame : (word text).print = w := by
      cases hspell with
      | same he => exact he
    rw [hsame]
    refine ⟨stops_printAll ht hr hfollows.1 (by decide) (Or.inr ?_), fun c hc => ?_⟩
    · rintro c (hc | rfl)
      · exact isWordPart_of_isWordStart hc
      · decide
    · exact literalStart?_printAll ht hr (hfollows.2 c hc)
  | quotedWord q text =>
    intro hp
    exact hfollows (head?_of_printAll ht hr hp (by cases q <;> decide))
  | number text =>
    intro _
    by_cases hw : w = text.toList
    · obtain ⟨hstop, hL⟩ := hfollows hw
      rw [show (number text).print = w from hw.symm]
      exact ⟨stopsNumber_printAll ht hr hstop,
        fun hp => hL (head?_of_printAll ht hr hp (by decide))⟩
    · refine stopsNumber_of_head (fun u hu => ?_) (fun u hu text' => ?_) (fun u hu => ?_)
      · obtain ⟨l, -, -, hb⟩ := hnext u hu
        exact hb
      · rintro rfl
        obtain ⟨l, hl, hg, -⟩ := hnext _ hu
        simp [growTogether, hl, hw] at hg
      · refine ⟨fun text' => ?_, ?_⟩ <;>
        · rintro rfl
          obtain ⟨l, hl, hg, -⟩ := hnext _ hu
          simp [growTogether, hl, hw] at hg
  | literal form value =>
    have hzero : ¬ (form = .hex ∧ (Token.literal form value).print.head? = some '0') := by
      rintro ⟨rfl, hp⟩
      cases hp
    simp only [Follows, if_neg hzero]
    by_cases hhex : form = .hex ∧ w.head? = some '0'
    · obtain ⟨rfl, -⟩ := hhex
      intro hp
      cases ts with
      | nil => cases hp
      | cons u us =>
        obtain ⟨l, hl, hg, hb⟩ := hnext u rfl
        rw [printAll_cons, List.head?_append_of_ne_nil _ hb.print_ne_nil] at hp
        obtain ⟨value', rfl⟩ := hb.plain_of_quote hp
        simp [growTogether, hl] at hg
    · simp only [Follows, if_neg hhex] at hfollows
      exact closed_printAll ht hr hfollows
  | mark kind =>
    have hsame : (mark kind).print = w := by
      cases hspell with
      | same he => exact he
    have hless : w = ['<'] → ts.head? ≠ some (sign "<>") := by
      rintro rfl
      cases kind <;> cases hsame
    have hstop : StopsOperator w rest → StopsOperator (mark kind).print (printAll ts) := by
      rw [hsame]
      exact stopsOperator_printAll ht hr hne hless
    cases kind with
    | period => exact stops_printAll ht hr hfollows (by decide) (Or.inl (by decide))
    | _ => exact hstop hfollows
  | sign text =>
    cases hspell with
    | same he =>
      rw [he]
      refine ⟨stopsOperator_printAll ht hr hne ?_ hfollows.1, stopsSign_printAll ht hr hfollows.2⟩
      rintro rfl hp
      have htext : text = "<" := String.toList_inj.1 he
      obtain ⟨l, hl, hg, -⟩ := hnext _ hp
      simp [growTogether, hl, htext] at hg
    | unequal => exact ⟨stopsOperator_unequal _, by simp [StopsSign, print]⟩

/-- The tokens of a text that can be printed and read again stand apart. -/
theorem apart_of_reprintable {cs : List Char} {ts : List Token} (h : tokenize cs = some ts)
    (hr : Reprintable (lexemes cs)) : Apart [] ts := by
  induction h using tokenize_induction with
  | nil => trivial
  | cons w t rest ts hs ht hne ih =>
    rw [lexemes_of_scan? hs] at hr
    have hcons := reprintable_cons.1 hr
    have hfollows := follows_printAll hs hne ht hr
    rw [← List.append_nil (printAll ts)] at hfollows
    exact ⟨hcons.1, hfollows, ih hcons.2.2⟩

/-- **The tokens of a text are read again from their print**, if each of them reads back and
no two neighbours grow together. -/
theorem tokenize_printAll_of_reprintable {cs : List Char} {ts : List Token}
    (h : tokenize cs = some ts) (hr : Reprintable (lexemes cs)) :
    tokenize (printAll ts) = some ts :=
  tokenize_printAll (apart_of_reprintable h hr)

end Token
end SchemaScript
