import SchemaScript.Proofs.Token.Reprint

/-!
# Pieces of written text

What is needed to see that given tokens stand apart: which tokens read back whatever they hold,
and which texts follow a token.

A plain string reads back whatever its value is, since the print doubles the quotes in it; a
quoted name does when it does not hold its own quote. Brackets, commas and semicolons can stand
in front of any text. A word or number can stand in front of a text that begins with none of
the characters that would carry it on.
-/

namespace SchemaScript
namespace Token

open Text (Stops)

/-! ## Tokens that read back -/

theorem readsBack_plain (value : String) : (literal .plain value).ReadsBack := by
  have hprint : (literal .plain value).print =
      '\'' :: (Text.double '\'' value.toList ++ ['\'']) := by
    simp [print, LiteralForm.opening, LiteralForm.body, LiteralForm.closing]
  have hv := Text.quoted?_double (q := '\'') value.toList [] (by simp)
  rw [ReadsBack, hprint, scan?_quote]
  simp [scanLiteral?, literalValue?, hv]

/-- Without backslashes a national string is a text with doubled quotes. -/
theorem backslashed?_double {v rest : List Char} (hslash : '\\' ∉ v)
    (hrest : rest.head? ≠ some '\'') :
    backslashed? (Text.double '\'' v ++ '\'' :: rest) = some (v, rest) := by
  induction v with
  | nil =>
    cases rest with
    | nil => rfl
    | cons d rest =>
      have hd : d ≠ '\'' := by simpa using hrest
      simp [backslashed?, hd]
  | cons c v ih =>
    obtain ⟨hc, hv⟩ := not_or.1 (List.mem_cons.not.1 hslash)
    have ih := ih hv
    by_cases hquote : c = '\''
    · subst hquote
      rw [Text.double_quote, List.cons_append, List.cons_append, backslashed?, if_pos rfl,
        if_pos rfl, ih]
      rfl
    · obtain ⟨d, ds, hds⟩ := List.exists_cons_of_ne_nil
        (List.append_ne_nil_of_right_ne_nil (Text.double '\'' v) (List.cons_ne_nil '\'' rest))
      rw [Text.double_cons_of_ne hquote, List.cons_append, hds, backslashed?, if_neg hquote,
        if_neg (Ne.symm hc), ← hds, ih]
      rfl

theorem readsBack_national {value : String} (h : '\\' ∉ value.toList) :
    (literal .national value).ReadsBack := by
  have hprint : (literal .national value).print =
      'N' :: '\'' :: (Text.double '\'' value.toList ++ ['\'']) := by
    simp [print, LiteralForm.opening, LiteralForm.body, LiteralForm.closing]
  have hv : backslashed? (Text.double '\'' value.toList ++ ['\'']) = some (value.toList, []) :=
    backslashed?_double h (by simp)
  rw [ReadsBack, hprint, scan?_of_isWordStart (by decide)]
  simp [scanLetter?, literalStart?, scanLiteral?, literalValue?, hv]

/-- A name between quotes that are doubled inside is read in front of anything but a further
quote. -/
theorem scan?_enclose (q : NameQuote) (text : String) {rest : List Char}
    (h : rest.head? ≠ some q.char) :
    scan? ((Text.enclose q.char text).toList ++ rest) = some (quotedWord q text, rest) := by
  have hwritten : (Text.enclose q.char text).toList ++ rest =
      q.char :: (Text.double q.char text.toList ++ q.char :: rest) := by simp
  rw [hwritten, scan?_nameQuote, scanQuotedWord?, Text.quoted?_double text.toList rest h,
    Option.map_some, String.ofList_toList]

theorem readsBack_quotedWord {q : NameQuote} {text : String} (h : q.char ∉ text.toList) :
    (quotedWord q text).ReadsBack := by
  have hend : ([] : List Char).head? ≠ some q.char := by simp
  have hprint : (quotedWord q text).print = (Text.enclose q.char text).toList ++ [] := by
    rw [Text.toList_enclose, Text.double_eq_self h, List.append_nil]
    rfl
  rw [ReadsBack, hprint]
  exact scan?_enclose q text hend

/-! ## Texts that follow a token -/

/-- The marks that no operator begins with but themselves. -/
def standsAlone (kind : Mark) : Bool :=
  kind == .openParen || kind == .closeParen || kind == .comma || kind == .semicolon ||
    kind == .openBracket || kind == .closeBracket || kind == .plus

/-- Any text follows a mark that stands alone. -/
theorem follows_mark {kind : Mark} (h : standsAlone kind = true) (rest : List Char) :
    Follows (mark kind).print (mark kind) rest := by
  have hshort : ∀ kind ∈ [Mark.openParen, .closeParen, .comma, .semicolon, .openBracket,
      .closeBracket, .plus], ∀ entry ∈ operators, kind.print <+: entry.1 →
        entry.1.length = 1 := by
    decide
  have hstop : ∀ kind ∈ [Mark.openParen, .closeParen, .comma, .semicolon, .openBracket,
      .closeBracket, .plus], kind.print.length = 1 ∧ kind.print ≠ ['-'] ∧ kind.print ≠ ['/'] := by
    decide
  have hmem : kind ∈ [Mark.openParen, .closeParen, .comma, .semicolon, .openBracket,
      .closeBracket, .plus] := by
    simpa [standsAlone, or_assoc] using h
  obtain ⟨hlen, hdash, hslash⟩ := hstop kind hmem
  have hop : StopsOperator kind.print rest := by
    refine fun d _ => ⟨fun entry he hp => ?_, fun hd => hdash hd.1, fun hd => hslash hd.1⟩
    have hone := hshort kind hmem entry he ((List.prefix_append _ _).trans hp)
    have hle := hp.length_le
    rw [List.length_append, List.length_singleton] at hle
    omega
  cases kind with
  | period => cases h
  | _ => exact hop

/-- Whether a word ends in front of the character, and a letter in front of it opens no
literal. -/
def endsWord (d : Char) : Bool :=
  !isWordPart d && d != '\'' && d != '"' && d != '&'

/-- A word ends in front of a character that ends words. -/
theorem follows_word {w : List Char} {text : String} {d : Char} {rest : List Char}
    (hd : endsWord d = true) : Follows w (word text) (d :: rest) := by
  simp only [endsWord, Bool.and_eq_true, bne_iff_ne, Bool.not_eq_true'] at hd
  obtain ⟨⟨⟨h1, h2⟩, h3⟩, h4⟩ := hd
  exact ⟨Text.stops_cons.2 h1, fun c _ => literalStart?_cons_eq_none h2 h3 h4 rest⟩

theorem follows_word_nil {w : List Char} {text : String} : Follows w (word text) [] := by
  refine ⟨Text.stops_nil, fun c _ => ?_⟩
  unfold literalStart?
  split <;> simp_all

/-- Whether a number ends in front of the character. -/
def endsNumber (d : Char) : Bool :=
  !d.isDigit && d != '.' && d != 'x' && d != 'e' && d != 'E' && d != 'L'

theorem follows_number {w : List Char} {text : String} {d : Char} {rest : List Char}
    (hd : endsNumber d = true) : Follows w (number text) (d :: rest) := by
  simp only [endsNumber, Bool.and_eq_true, bne_iff_ne, Bool.not_eq_true'] at hd
  obtain ⟨⟨⟨⟨⟨h1, h2⟩, h3⟩, h4⟩, h5⟩, h6⟩ := hd
  refine fun _ => ⟨⟨Text.stops_cons.2 h1, fun _ => by simpa using h2, fun _ => by simpa using h3,
    fun _ => ?_⟩, by simpa using h6⟩
  simp [exponent, h4, h5]

/-- Without any token behind it a token need only read back. -/
theorem apart_cons {t : Token} {ts : List Token} {rest : List Char} (hback : t.ReadsBack)
    (hfollow : Follows t.print t (printAll ts ++ rest)) (hts : Apart rest ts) :
    Apart rest (t :: ts) :=
  ⟨hback, hfollow, hts⟩

theorem apart_append {a b : List Token} {rest : List Char} (ha : Apart (printAll b ++ rest) a)
    (hb : Apart rest b) : Apart rest (a ++ b) := by
  induction a with
  | nil => exact hb
  | cons t a ih =>
    obtain ⟨hback, hfollow, hts⟩ := ha
    refine apart_cons hback ?_ (ih hts)
    show Follows t.print t (printAll (a ++ b) ++ rest)
    rwa [printAll_append, List.append_assoc]

/-- Words with a space behind each of them. -/
def wordTokens : List String → List Token
  | [] => []
  | w :: ws => .word w :: .blank .space :: wordTokens ws

/-- Words with spaces stand apart in front of any text. -/
theorem apart_wordTokens {ws : List String} (h : ∀ w ∈ ws, (word w).ReadsBack)
    (rest : List Char) : Apart rest (wordTokens ws) := by
  induction ws with
  | nil => trivial
  | cons w ws ih =>
    have hmore := ih fun v hv => h v (List.mem_cons_of_mem w hv)
    refine apart_cons (h w List.mem_cons_self) ?_ (apart_cons (by decide) trivial hmore)
    exact follows_word (d := ' ') (by decide)

theorem Apart.of_append {a b : List Token} {rest : List Char} (h : Apart rest (a ++ b)) :
    Apart rest b := by
  induction a with
  | nil => exact h
  | cons t a ih => exact ih h.2.2

end Token
end SchemaScript
