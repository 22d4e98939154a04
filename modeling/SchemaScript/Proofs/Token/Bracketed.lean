import SchemaScript.Proofs.Token.Newline
import SchemaScript.Proofs.Token.Pieces

/-!
# Tokens up to a bracket

What stands between square brackets is read as tokens like any other text, so that a bracket in a
string or comment does not close. Where the bracket at the end of a text is a token of its own, the
text is cut into the same tokens with anything behind the bracket
(`Token.tokenize_append_closeBracket`).

The reason is that what follows a token is decided by few characters: mostly by the first one, and
else by a quote behind an ampersand or by a digit behind the letter and sign of an exponent. So what
stands behind a character that is none of these, as a bracket is none, makes no difference in front
of it (`Token.follows_append_cons`).
-/

namespace SchemaScript
namespace Token

open Text (Stops)

variable {w rest more : List Char} {t : Token} {d : Char}

/-! ## What is decided in front of a character -/

/-- The characters behind which the scanner looks further ahead. -/
def looksPast (d : Char) : Bool :=
  d == 'e' || d == 'E' || d == '+' || d == '-' || d == '&'

theorem head?_append_cons (rest more : List Char) (d : Char) :
    (rest ++ d :: more).head? = (rest ++ [d]).head? := by
  cases rest <;> rfl

/-- A beginning that goes on behind a character has this character in it. -/
theorem prefix_concat_of_append_cons {s : List Char} (h : s <+: rest ++ d :: more)
    (hd : d ∉ s.dropLast) : s <+: rest ++ [d] := by
  rcases List.eq_nil_or_concat' s with rfl | ⟨s, x, rfl⟩
  · exact List.nil_prefix
  · rw [List.dropLast_concat] at hd
    obtain ⟨r, rfl⟩ := (Text.prefix_append_cons_iff hd rest more).1
      ((List.prefix_append s [x]).trans h)
    rw [List.append_assoc, List.prefix_append_right_inj] at h ⊢
    cases r with
    | nil => exact List.cons_prefix_cons.2 ⟨(List.cons_prefix_cons.1 h).1, List.nil_prefix⟩
    | cons y r => exact List.cons_prefix_cons.2 ⟨(List.cons_prefix_cons.1 h).1, List.nil_prefix⟩

theorem literalStart?_append_cons {c : Char} (hd : d ≠ '&')
    (h : literalStart? c (rest ++ [d]) = none) : literalStart? c (rest ++ d :: more) = none := by
  by_contra hn
  rcases literalStart?_ne_none hn with ⟨q, more', -, hp, hx⟩ | ⟨more', hp, hx⟩
  · have hpre : [q] <+: rest ++ [d] := prefix_concat_of_append_cons ⟨more', hp.symm⟩ (by simp)
    obtain ⟨z, hz⟩ := hpre
    exact hx z (by rw [← hz] at h; exact h)
  · have hpre : ['&', '\''] <+: rest ++ [d] :=
      prefix_concat_of_append_cons ⟨more', hp.symm⟩ (by simpa using hd)
    obtain ⟨z, hz⟩ := hpre
    exact hx z (by rw [← hz] at h; exact h)

theorem exponent_append_cons (hd : looksPast d = false)
    (h : exponent (rest ++ [d]) = ([], rest ++ [d])) :
    exponent (rest ++ d :: more) = ([], rest ++ d :: more) := by
  simp only [looksPast, Bool.or_eq_false_iff, beq_eq_false_iff_ne] at hd
  obtain ⟨⟨⟨⟨he, hE⟩, hplus⟩, hminus⟩, -⟩ := hd
  rw [exponent_eq_iff] at h ⊢
  intro e sign x hletter hsign hx hp
  refine h e sign x hletter hsign hx (prefix_concat_of_append_cons hp ?_)
  rw [List.dropLast_concat, List.mem_cons, not_or]
  refine ⟨?_, ?_⟩
  · rcases hletter with rfl | rfl
    · exact he
    · exact hE
  · rcases hsign with rfl | rfl | rfl
    · exact List.not_mem_nil
    · exact List.mem_singleton.not.2 hplus
    · exact List.mem_singleton.not.2 hminus

theorem closed_append_cons {form : LiteralForm} (h : Closed form (rest ++ [d])) :
    Closed form (rest ++ d :: more) := by
  have hhead := head?_append_cons rest more d
  cases form with
  | raw triple q =>
    cases triple with
    | true => trivial
    | false =>
      rw [Closed, hhead]
      exact h
  | dollar tag => trivial
  | _ =>
    rw [Closed, hhead]
    exact h

/-- **What stands behind a character that is not looked past makes no difference in front of
it.** -/
theorem follows_append_cons (hd : looksPast d = false) (h : Follows w t (rest ++ [d])) :
    Follows w t (rest ++ d :: more) := by
  have hhead := head?_append_cons rest more d
  have hstops : ∀ {p}, Stops p (rest ++ [d]) → Stops p (rest ++ d :: more) := by
    intro p hp
    rwa [Stops, hhead]
  have hoperator : StopsOperator w (rest ++ [d]) → StopsOperator w (rest ++ d :: more) := by
    intro hop
    rwa [StopsOperator, hhead]
  cases t with
  | blank kind =>
    cases kind with
    | newline =>
      intro hreturn
      rw [hhead]
      exact h hreturn
    | lineComment text => exact fun hlast => absurd (h hlast) (by simp)
    | _ => trivial
  | word text =>
    refine ⟨hstops h.1, fun c hc => literalStart?_append_cons ?_ (h.2 c hc)⟩
    rintro rfl
    cases hd
  | quotedWord q text =>
    rw [Follows, hhead]
    exact h
  | number text =>
    intro heq
    obtain ⟨hstop, hlong⟩ := h heq
    refine ⟨⟨hstops hstop.digit, ?_, ?_, fun hletters =>
      exponent_append_cons hd (hstop.exponent hletters)⟩, ?_⟩
    · rw [hhead]
      exact hstop.period
    · rw [hhead]
      exact hstop.hex
    · rw [hhead]
      exact hlong
  | literal form value =>
    simp only [Follows] at h ⊢
    split at h
    · rename_i hhex
      rw [if_pos hhex]
      exact hstops h
    · rename_i hhex
      rw [if_neg hhex]
      exact closed_append_cons h
  | mark kind =>
    cases kind with
    | period => exact hstops h
    | _ => exact hoperator h
  | sign text =>
    refine ⟨hoperator h.1, ?_⟩
    obtain ⟨h1, h2, h3, h4⟩ := h.2
    refine ⟨?_, ?_, fun hw => hstops (h3 hw), fun hw => ⟨hstops (h4 hw).1, ?_⟩⟩
    · rw [hhead]
      exact h1
    · rw [hhead]
      exact h2
    · rw [hhead]
      exact (h4 hw).2

/-! ## Brackets -/

/-- The mark of a closing bracket is read from a closing bracket. -/
theorem eq_cons_of_scan?_closeBracket {cs : List Char}
    (h : scan? cs = some (mark .closeBracket, rest)) : cs = ']' :: rest := by
  have hs := scanned_of_scan? h
  generalize ht : mark .closeBracket = t at hs
  cases hs with
  | operator hp =>
    subst ht
    have hall : ∀ entry ∈ operators, entry.2 = mark .closeBracket → entry.1 = [']'] := by decide
    obtain rfl := hall _ hp rfl
    rfl
  | number hn => cases hn <;> cases ht
  | lineComment cs =>
    simp only [scanLineComment] at ht
    split at ht <;> cases ht
  | @numberSign cs =>
    obtain ⟨text, he | he⟩ := scanNumberSign_token cs <;> cases ht.trans he
  | @atSign cs =>
    obtain ⟨text, he | he⟩ := scanAtSign_token cs <;> cases ht.trans he
  | dollar hd =>
    rcases scanDollar?_token hd with ⟨form, value, he⟩ | ⟨text, he⟩ <;> cases ht.trans he
  | _ => cases ht

theorem tokenize_cons_openBracket (cs : List Char) :
    tokenize ('[' :: cs) = (tokenize cs).map (mark .openBracket :: ·) :=
  have hback : (mark .openBracket).ReadsBack := by decide
  tokenize_of_scan? (hback.scan?_append (follows_mark rfl cs))

theorem tokenize_cons_closeBracket (cs : List Char) :
    tokenize (']' :: cs) = (tokenize cs).map (mark .closeBracket :: ·) :=
  have hback : (mark .closeBracket).ReadsBack := by decide
  tokenize_of_scan? (hback.scan?_append (follows_mark rfl cs))

/-- **A closing bracket that is a token of its own cuts a text.** -/
theorem tokenize_append_closeBracket {cs : List Char} {ts : List Token}
    (h : tokenize (cs ++ [']']) = some (ts ++ [mark .closeBracket])) (more : List Char) :
    tokenize (cs ++ ']' :: more) = (tokenize more).map (ts ++ mark .closeBracket :: ·) := by
  generalize hall : cs ++ [']'] = all at h
  generalize htokens : ts ++ [mark .closeBracket] = tokens at h
  induction h using tokenize_induction generalizing cs ts with
  | nil => simp at hall
  | cons w t rest us hs ht hne ih =>
    rcases List.eq_nil_or_concat' rest with rfl | ⟨rest, d, rfl⟩
    · -- the bracket is the only token
      rw [tokenize_nil] at ht
      cases ht
      obtain ⟨rfl, hlast⟩ := List.append_inj' (htokens.trans (List.nil_append [t]).symm) rfl
      cases hlast
      have hw : w = [']'] := by
        have hcs := eq_cons_of_scan?_closeBracket hs
        rwa [List.append_nil] at hcs
      rw [hw, List.append_nil] at hall
      obtain rfl : cs = [] := (List.append_inj' (hall.trans (List.nil_append [']']).symm) rfl).1
      exact tokenize_cons_closeBracket more
    · rw [← List.append_assoc] at hall
      obtain ⟨rfl, hd⟩ := List.append_inj' hall rfl
      obtain rfl : d = ']' := by simpa using hd.symm
      cases ts with
      | nil =>
        obtain ⟨rfl, rfl⟩ := List.cons.inj htokens
        have hnil := tokenize_eq_some_nil_iff.1 ht
        simp at hnil
      | cons u ts =>
        obtain ⟨rfl, hus⟩ := List.cons.inj htokens
        have hfollow : Follows w u (rest ++ ']' :: more) :=
          follows_append_cons (by decide) (follows_of_scan? hs)
        rw [List.append_assoc, tokenize_of_scan? (scan?_append hs hfollow), ih rfl hus,
          Option.map_map]
        rfl

end Token
end SchemaScript
