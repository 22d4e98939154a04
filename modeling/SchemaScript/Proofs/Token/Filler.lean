import SchemaScript.Proofs.Token.Newline

/-!
# Blanks and comments in front of a text

Blank characters, comments up to the end of their line and comments in brackets are *filler*
(`IsFiller`). In a comment the brackets pair up (`IsNested`), and the comment ends at the first
bracket that is left over (`blockComment?_zero_eq_some_iff`).

Filler in front of a text is read as blank tokens, and the tokens behind these are those of the
text (`tokensBehindBlanks?_append`). The tokens of both need not be the same, since a carriage
return at the end of filler is one line end with a newline behind it. Conversely a text is read
as nothing but blank tokens only if it is filler, apart from a comment that the end of the text
closes as the end of its line would (`tokensBehindBlanks?_eq_some_nil_iff`).
-/

namespace SchemaScript
namespace Token

variable {cs a b v rest : List Char} {c : Char} {t : Token}

/-! ## Nested comments -/

/-- Whether the comment brackets in the text of a comment pair up, none of them made up with the
bracket behind the text. -/
inductive IsNested : List Char → Prop where
  | nil : IsNested []
  /-- A character that is not the first one of a bracket. -/
  | char {c : Char} {cs : List Char} (hopen : ¬ (c = '/' ∧ (cs ++ ['*']).head? = some '*'))
    (hclose : ¬ (c = '*' ∧ (cs ++ ['*']).head? = some '/')) (hcs : IsNested cs) :
    IsNested (c :: cs)
  /-- A comment inside the comment. -/
  | comment {a cs : List Char} (ha : IsNested a) (hcs : IsNested cs) :
    IsNested ('/' :: '*' :: (a ++ '*' :: '/' :: cs))

theorem blockComment?_open (depth : Nat) (cs : List Char) :
    blockComment? depth ('/' :: '*' :: cs) =
      (blockComment? (depth + 1) cs).map fun r => ('/' :: '*' :: r.1, r.2) := by
  rw [blockComment?.eq_def]
  exact if_pos ⟨rfl, rfl⟩

theorem blockComment?_close (depth : Nat) (cs : List Char) :
    blockComment? (depth + 1) ('*' :: '/' :: cs) =
      (blockComment? depth cs).map fun r => ('*' :: '/' :: r.1, r.2) := by
  simp [blockComment?]

theorem blockComment?_zero_close (cs : List Char) :
    blockComment? 0 ('*' :: '/' :: cs) = some ([], cs) := by
  simp [blockComment?]

theorem blockComment?_cons (hopen : ¬ (c = '/' ∧ cs.head? = some '*'))
    (hclose : ¬ (c = '*' ∧ cs.head? = some '/')) (depth : Nat) :
    blockComment? depth (c :: cs) = (blockComment? depth cs).map fun r => (c :: r.1, r.2) := by
  cases cs with
  | nil => simp [blockComment?]
  | cons d cs =>
    simp only [List.head?_cons, Option.some.injEq] at hopen hclose
    rw [blockComment?.eq_def]
    simp only [if_neg hopen, if_neg hclose]

/-- A text whose brackets pair up is passed. -/
theorem IsNested.blockComment?_append (h : IsNested a) (depth : Nat) (y : List Char) :
    blockComment? depth (a ++ '*' :: '/' :: y) =
      (blockComment? depth ('*' :: '/' :: y)).map fun r => (a ++ r.1, r.2) := by
  induction h generalizing depth y with
  | nil => simp
  | @char c a hopen hclose _ ih =>
    have hhead : (a ++ '*' :: '/' :: y).head? = (a ++ ['*']).head? := by
      cases a <;> rfl
    rw [← hhead] at hopen hclose
    rw [List.cons_append, blockComment?_cons hopen hclose, ih, Option.map_map]
    rfl
  | @comment a b _ _ iha ihb =>
    have happ : '/' :: '*' :: (a ++ '*' :: '/' :: b) ++ '*' :: '/' :: y =
        '/' :: '*' :: (a ++ '*' :: '/' :: (b ++ '*' :: '/' :: y)) := by simp
    rw [happ, blockComment?_open, iha, blockComment?_close, ihb]
    simp only [Option.map_map]
    congr 1
    funext r
    simp

/-- Whether a text closes comments, the given number of them and no more: in front of each bracket
that closes one, and behind the last, the brackets pair up. -/
def ClosesComments : Nat → List Char → Prop
  | 0, v => IsNested v
  | depth + 1, v => ∃ a b, IsNested a ∧ ClosesComments depth b ∧ v = a ++ '*' :: '/' :: b

theorem closesComments_char {depth : Nat} (h : ClosesComments depth v)
    (hopen : ¬ (c = '/' ∧ (v ++ ['*']).head? = some '*'))
    (hclose : ¬ (c = '*' ∧ (v ++ ['*']).head? = some '/')) : ClosesComments depth (c :: v) := by
  cases depth with
  | zero => exact .char hopen hclose h
  | succ depth =>
    obtain ⟨a, b, ha, hb, rfl⟩ := h
    have hhead : (a ++ '*' :: '/' :: b ++ ['*']).head? = (a ++ ['*']).head? := by
      cases a <;> rfl
    rw [hhead] at hopen hclose
    exact ⟨c :: a, b, .char hopen hclose ha, hb, rfl⟩

theorem closesComments_comment {depth : Nat} (ha : IsNested a) (h : ClosesComments depth v) :
    ClosesComments depth ('/' :: '*' :: (a ++ '*' :: '/' :: v)) := by
  cases depth with
  | zero => exact .comment ha h
  | succ depth =>
    obtain ⟨x, y, hx, hy, rfl⟩ := h
    exact ⟨'/' :: '*' :: (a ++ '*' :: '/' :: x), y, .comment ha hx, hy, by simp⟩

theorem closesComments_of_blockComment? {depth : Nat}
    (h : blockComment? depth cs = some (v, rest)) : ClosesComments depth v := by
  fun_induction blockComment? depth cs generalizing v rest with
  | case1 => cases h
  | case2 => cases h
  | case3 depth c d cs hopen ih =>
    obtain ⟨rfl, rfl⟩ := hopen
    obtain ⟨r, hr, he⟩ := Option.map_eq_some_iff.1 h
    obtain ⟨rfl, -⟩ := Prod.mk.inj he
    obtain ⟨a, b, ha, hb, hab⟩ := ih hr
    rw [hab]
    exact closesComments_comment ha hb
  | case4 =>
    cases h
    exact .nil
  | case5 c d cs hopen hclose depth ih =>
    obtain ⟨rfl, rfl⟩ := hclose
    obtain ⟨r, hr, he⟩ := Option.map_eq_some_iff.1 h
    obtain ⟨rfl, -⟩ := Prod.mk.inj he
    exact ⟨[], r.1, .nil, ih hr, rfl⟩
  | case6 depth c d cs hopen hclose ih =>
    obtain ⟨r, hr, he⟩ := Option.map_eq_some_iff.1 h
    obtain ⟨rfl, -⟩ := Prod.mk.inj he
    -- the bracket behind the text begins with what stands behind `c`
    have hhead : (r.1 ++ ['*']).head? = some d := by
      have hcs := congrArg List.head? (blockComment?_settled hr).1
      rw [List.head?_cons] at hcs
      rw [hcs]
      cases r.1 <;> rfl
    refine closesComments_char (ih hr) ?_ ?_ <;> rw [hhead, Option.some.injEq] <;> assumption

/-- **A comment ends at the first bracket that closes none of the comments in it.** -/
theorem blockComment?_zero_eq_some_iff :
    blockComment? 0 cs = some (v, rest) ↔ IsNested v ∧ cs = v ++ '*' :: '/' :: rest := by
  constructor
  · exact fun h => ⟨closesComments_of_blockComment? h, (blockComment?_settled h).1⟩
  · rintro ⟨hv, rfl⟩
    rw [hv.blockComment?_append, blockComment?_zero_close, Option.map_some, List.append_nil]

/-! ## Filler -/

/-- A text of blanks and comments, every comment closed. -/
inductive IsFiller : List Char → Prop where
  | nil : IsFiller []
  | blank {c : Char} {cs : List Char} (hc : Text.isBlank c = true) (hcs : IsFiller cs) :
    IsFiller (c :: cs)
  /-- A comment with the end of its line. -/
  | lineComment {body cs : List Char} (hbody : '\n' ∉ body) (hcs : IsFiller cs) :
    IsFiller ('-' :: '-' :: (body ++ '\n' :: cs))
  | blockComment {body cs : List Char} (hbody : IsNested body) (hcs : IsFiller cs) :
    IsFiller ('/' :: '*' :: (body ++ '*' :: '/' :: cs))

theorem isFiller_of_allBlank (h : Text.allBlank cs = true) : IsFiller cs := by
  induction cs with
  | nil => exact .nil
  | cons c cs ih =>
    obtain ⟨hc, hcs⟩ := Bool.and_eq_true_iff.1 h
    exact .blank hc (ih hcs)

/-- The newline at the end of a text is the end of each of its tails. -/
theorem exists_append_newline {w more : List Char} (h : a ++ ['\n'] = w ++ more)
    (hmore : more ≠ []) : ∃ b, more = b ++ ['\n'] ∧ a = w ++ b := by
  obtain ⟨b, d, rfl⟩ := (List.eq_nil_or_concat' more).resolve_left hmore
  obtain ⟨rfl, hd⟩ := List.append_inj' (h.trans (List.append_assoc w b [d]).symm) rfl
  exact ⟨b, by rw [hd], rfl⟩

/-- What stands in front of the newline at the end of filler is filler, or ends in a comment that
the newline closes. -/
theorem IsFiller.of_append_newline (h : IsFiller (a ++ ['\n'])) :
    IsFiller a ∨ ∃ x body, IsFiller x ∧ '\n' ∉ body ∧ a = x ++ '-' :: '-' :: body := by
  generalize ha : a ++ ['\n'] = cs at h
  induction h generalizing a with
  | nil => simp at ha
  | @blank c more hc _ ih =>
    by_cases hmore : more = []
    · rw [hmore] at ha
      obtain rfl : a = [] := (List.append_inj' (ha.trans (List.nil_append [c]).symm) rfl).1
      exact Or.inl .nil
    · obtain ⟨b, rfl, rfl⟩ := exists_append_newline (w := [c]) ha hmore
      rcases ih rfl with hb | ⟨x, body, hx, hbody, rfl⟩
      · exact Or.inl (.blank hc hb)
      · exact Or.inr ⟨c :: x, body, .blank hc hx, hbody, rfl⟩
  | @lineComment body more hbody _ ih =>
    by_cases hmore : more = []
    · rw [hmore] at ha
      obtain rfl : a = '-' :: '-' :: body := (List.append_inj' ha rfl).1
      exact Or.inr ⟨[], body, .nil, hbody, rfl⟩
    · obtain ⟨b, rfl, rfl⟩ := exists_append_newline (w := '-' :: '-' :: (body ++ ['\n']))
        (by rw [ha]; simp) hmore
      rcases ih rfl with hb | ⟨x, body', hx, hbody', rfl⟩
      · left
        simpa using IsFiller.lineComment hbody hb
      · exact Or.inr ⟨_, body', .lineComment hbody hx, hbody', by simp⟩
  | @blockComment body more hbody _ ih =>
    by_cases hmore : more = []
    · rw [hmore] at ha
      have hend : (body ++ ['*', '/']).getLast? = some '\n' := by
        have hlast := congrArg List.getLast? ha
        rw [List.getLast?_concat] at hlast
        simpa [List.getLast?_cons] using hlast.symm
      simp at hend
    · obtain ⟨b, rfl, rfl⟩ := exists_append_newline (w := '/' :: '*' :: (body ++ ['*', '/']))
        (by rw [ha]; simp) hmore
      rcases ih rfl with hb | ⟨x, body', hx, hbody', rfl⟩
      · left
        simpa using IsFiller.blockComment hbody hb
      · exact Or.inr ⟨_, body', .blockComment hbody hx, hbody', by simp⟩

/-! ## Reading filler -/

/-- The tokens of a text behind the blanks that it begins with. -/
def tokensBehindBlanks? (cs : List Char) : Option (List Token) :=
  (tokenize cs).map (List.dropWhile isBlank)

theorem tokensBehindBlanks?_of_scan? (hs : scan? cs = some (t, rest)) (ht : t.isBlank = true) :
    tokensBehindBlanks? cs = tokensBehindBlanks? rest := by
  rw [tokensBehindBlanks?, tokenize_of_scan? hs, Option.map_map, tokensBehindBlanks?]
  congr 1
  funext ts
  exact List.dropWhile_cons_of_pos ht

theorem tokensBehindBlanks?_cons_of_isBlank (hc : Text.isBlank c = true) (cs : List Char) :
    tokensBehindBlanks? (c :: cs) = tokensBehindBlanks? cs := by
  obtain ⟨t, rest, hs, ht, rfl | rfl⟩ := exists_scan?_of_isBlank hc cs
  · exact tokensBehindBlanks?_of_scan? hs ht
  · rw [tokensBehindBlanks?_of_scan? hs ht]
    cases cs with
    | nil => rfl
    | cons d cs =>
      rw [dropNewline]
      split
      · rename_i hd
        rw [hd, tokensBehindBlanks?_of_scan? (scan?_newline cs) rfl]
      · rfl

/-- **Filler in front of a text changes none of its tokens but the blanks it begins with.** -/
theorem tokensBehindBlanks?_append (h : IsFiller a) (cs : List Char) :
    tokensBehindBlanks? (a ++ cs) = tokensBehindBlanks? cs := by
  induction h with
  | nil => rfl
  | @blank c a hc _ ih => rw [List.cons_append, tokensBehindBlanks?_cons_of_isBlank hc, ih]
  | @lineComment body a hbody _ ih =>
    have happ : '-' :: '-' :: (body ++ '\n' :: a) ++ cs =
        '-' :: '-' :: (body ++ '\n' :: (a ++ cs)) := by simp
    rw [happ, tokensBehindBlanks?_of_scan? (scan?_lineComment hbody _) rfl, ih]
  | @blockComment body a hbody _ ih =>
    have happ : '/' :: '*' :: (body ++ '*' :: '/' :: a) ++ cs =
        '/' :: '*' :: (body ++ '*' :: '/' :: (a ++ cs)) := by simp
    have hs : scan? ('/' :: '*' :: (body ++ '*' :: '/' :: (a ++ cs))) =
        some (Token.blank (.blockComment (String.ofList body)), a ++ cs) := by
      rw [scan?_bracket, scanBlockComment?, blockComment?_zero_eq_some_iff.2 ⟨hbody, rfl⟩]
      rfl
    rw [happ, tokensBehindBlanks?_of_scan? hs rfl, ih]

theorem tokensBehindBlanks?_of_isFiller (h : IsFiller a) : tokensBehindBlanks? a = some [] := by
  have happ := tokensBehindBlanks?_append h []
  rw [List.append_nil] at happ
  rw [happ, tokensBehindBlanks?, tokenize_nil]
  rfl

/-- A blank token is read from filler, or from a comment that the end of the text closes. -/
theorem isFiller_of_scan? (hs : scan? cs = some (t, rest)) (ht : t.isBlank = true)
    (h : IsFiller (rest ++ ['\n'])) : IsFiller (cs ++ ['\n']) := by
  cases scanned_of_scan? hs with
  | space => exact .blank (by decide) h
  | tab => exact .blank (by decide) h
  | newline => exact .blank (by decide) h
  | carriageReturn cs =>
    refine .blank (by decide) ?_
    cases cs with
    | nil => exact h
    | cons d cs =>
      rw [dropNewline] at h
      split at h
      · rename_i hd
        exact .blank (by rw [hd]; decide) h
      · exact h
  | foreignBlank _ hb => exact .blank hb h
  | lineComment cs =>
    have hbody : '\n' ∉ cs.takeWhile (· != '\n') := fun hmem =>
      absurd (List.mem_takeWhile_imp hmem) (by decide)
    have hstop := Text.stops_dropWhile (p := (· != '\n')) cs
    have happ : cs.takeWhile (· != '\n') ++ cs.dropWhile (· != '\n') = cs :=
      List.takeWhile_append_dropWhile
    simp only [scanLineComment] at h
    split at h
    · rename_i hnil
      rw [hnil, List.append_nil] at happ
      rw [← happ]
      exact .lineComment hbody .nil
    · rename_i c rest hcons
      rw [hcons] at happ hstop
      obtain rfl : c = '\n' := by simpa using Text.stops_cons.1 hstop
      rw [← happ]
      simpa using IsFiller.lineComment hbody h
  | blockComment hv =>
    obtain ⟨hbody, rfl⟩ := blockComment?_zero_eq_some_iff.1 hv
    simpa using IsFiller.blockComment hbody h
  | number hn => cases hn <;> cases ht
  | operator hp =>
    cases t with
    | blank => cases (operators_tokens _ hp).1
    | _ => cases ht
  | numberSign =>
    obtain ⟨text, he | he⟩ := scanNumberSign_token _ <;> rw [he] at ht <;> cases ht
  | atSign =>
    obtain ⟨text, he | he⟩ := scanAtSign_token _ <;> rw [he] at ht <;> cases ht
  | dollar hd =>
    rcases scanDollar?_token hd with ⟨form, value, rfl⟩ | ⟨text, rfl⟩ <;> cases ht
  | _ => cases ht

/-- **Only filler is read as nothing but blanks**, a newline closing the comment that a text may
end in. -/
theorem tokensBehindBlanks?_eq_some_nil_iff :
    tokensBehindBlanks? cs = some [] ↔ IsFiller (cs ++ ['\n']) := by
  constructor
  · intro h
    obtain ⟨ts, hts, hblank⟩ := Option.map_eq_some_iff.1 h
    clear h
    induction hts using tokenize_induction with
    | nil => exact .blank (by decide) .nil
    | cons w t rest ts hs ht hne ih =>
      have hall := List.dropWhile_eq_nil_iff.1 hblank
      refine isFiller_of_scan? hs (hall t List.mem_cons_self) (ih ?_)
      exact List.dropWhile_eq_nil_iff.2 fun u hu => hall u (List.mem_cons_of_mem t hu)
  · intro h
    rcases h.of_append_newline with h | ⟨x, body, hx, hbody, rfl⟩
    · exact tokensBehindBlanks?_of_isFiller h
    · have hrun : ∀ c ∈ body, (c != '\n') = true := fun c hc => by
        rw [bne_iff_ne]
        rintro rfl
        exact hbody hc
      have hs : scan? ('-' :: '-' :: body) =
          some (Token.blank (.lineComment (String.ofList body)), []) := by
        rw [scan?_hyphens, scanLineComment, List.dropWhile_eq_nil_iff.2 hrun,
          List.takeWhile_eq_self_iff.2 hrun]
      rw [tokensBehindBlanks?_append hx, tokensBehindBlanks?_of_scan? hs rfl,
        tokensBehindBlanks?_of_isFiller .nil]

end Token
end SchemaScript
