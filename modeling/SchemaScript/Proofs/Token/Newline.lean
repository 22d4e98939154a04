import SchemaScript.Proofs.Reader.Trailing
import SchemaScript.Proofs.Token.Reprint

/-!
# A newline or a space behind a text

A text that has tokens keeps them when a space is put behind it, unless it ends in a blank
(`tokenize_append_space`), and when a newline is put behind it, whatever follows the
newline: the last of them is closed (`tokenize_newline`). Three things can happen at the end.
A comment that runs to the end of the line takes the newline in, a carriage return makes one
line end with it, and otherwise it is a token of its own. All of this concerns blanks only. The
exception is a number sign or at sign alone, which takes the newline for the first character
of a word.
-/

namespace SchemaScript
namespace Token

open Text (Stops)

/-! ## Blanks -/

/-- A text of blanks has blank tokens only. -/
theorem isBlank_of_tokenize {cs : List Char} {ts : List Token} (h : tokenize cs = some ts)
    (hcs : ∀ c ∈ cs, Text.isBlank c = true) : ∀ t ∈ ts, t.isBlank = true := by
  induction h using tokenize_induction with
  | nil => exact fun t ht => absurd ht List.not_mem_nil
  | cons w t rest ts hs ht hne ih =>
    obtain ⟨c, w, rfl⟩ := List.exists_cons_of_ne_nil hne
    intro u hu
    rcases List.mem_cons.1 hu with rfl | hu
    · exact (scan?_of_isBlank (hcs c List.mem_cons_self) hs).1
    · exact ih (fun d hd => hcs d (List.mem_append_right _ hd)) u hu

/-! ## What a newline or a space does not carry on -/

theorem stops_cons_behind {p : Char → Bool} {d : Char} {rest more : List Char} (h : Stops p rest)
    (hp : p d = false) : Stops p (rest ++ d :: more) := by
  cases rest with
  | nil => exact Text.stops_cons.2 hp
  | cons c rest => exact Text.stops_cons.2 (Text.stops_cons.1 h)

theorem head?_cons_behind_ne {d : Char} {rest more : List Char} {q : Char}
    (h : rest.head? ≠ some q) (hq : q ≠ d) : (rest ++ d :: more).head? ≠ some q := by
  cases rest with
  | nil =>
    intro hn
    exact hq (Option.some.inj hn).symm
  | cons c rest => exact h

/-- Characters in front of a newline are characters of the text in front of it. -/
theorem prefix_of_prefix_newline {s rest more : List Char} (h : s <+: rest ++ '\n' :: more)
    (hs : '\n' ∉ s) : s <+: rest :=
  (Text.prefix_append_cons_iff hs rest more).1 h

/-- A newline or a space. -/
def IsGap (d : Char) : Prop :=
  d = '\n' ∨ d = ' '

variable {d : Char} {rest more : List Char}

theorem literalStart?_gap (hd : IsGap d) {c : Char} (h : literalStart? c rest = none) :
    literalStart? c (rest ++ d :: more) = none := by
  have hprefix : ∀ s : List Char, d ∉ s → s <+: rest ++ d :: more → s <+: rest :=
    fun s hs => (Text.prefix_append_cons_iff hs rest more).1
  by_contra hn
  rcases literalStart?_ne_none hn with ⟨q, more', hq, hp, hx⟩ | ⟨more', hp, hx⟩
  · have hpre : [q] <+: rest ++ d :: more := ⟨more', by rw [hp]; rfl⟩
    have hnot : d ∉ [q] := by
      rcases hd with rfl | rfl <;> rcases hq with rfl | rfl <;> decide
    obtain ⟨z, rfl⟩ := hprefix _ hnot hpre
    exact hx z h
  · have hpre : ['&', '\''] <+: rest ++ d :: more := ⟨more', by rw [hp]; rfl⟩
    obtain ⟨z, rfl⟩ := hprefix _ (by rcases hd with rfl | rfl <;> decide) hpre
    exact hx z h

theorem stopsNumber_gap (hd : IsGap d) {digits : List Char} (h : StopsNumber digits rest) :
    StopsNumber digits (rest ++ d :: more) := by
  have hne : ∀ c ∈ ['.', 'x'], c ≠ d := by
    rcases hd with rfl | rfl <;> decide
  have hdigit : d.isDigit = false := by
    rcases hd with rfl | rfl <;> rfl
  refine ⟨stops_cons_behind h.digit hdigit,
    fun hdig => head?_cons_behind_ne (h.period hdig) (hne _ (by simp)),
    fun hdig => head?_cons_behind_ne (h.hex hdig) (hne _ (by simp)), fun hdig => ?_⟩
  have hexp := h.exponent hdig
  rw [exponent_eq_iff] at hexp ⊢
  intro e sign c he hsign hdig hp
  refine hexp e sign c he hsign hdig ((Text.prefix_append_cons_iff ?_ rest more).1 hp)
  intro hmem
  rcases List.mem_append.1 hmem with hmem | hmem
  · rcases List.mem_cons.1 hmem with heq | hmem
    · rcases hd with rfl | rfl <;> rcases he with rfl | rfl <;> cases heq
    · rcases hd with rfl | rfl <;> rcases hsign with rfl | rfl | rfl <;> revert hmem <;> decide
  · obtain rfl := List.mem_singleton.1 hmem
    rw [hdigit] at hdig
    cases hdig

theorem closed_gap (hd : IsGap d) {form : LiteralForm} (h : Closed form rest) :
    Closed form (rest ++ d :: more) := by
  have hne : ∀ c ∈ ['\'', '"'], c ≠ d := by
    rcases hd with rfl | rfl <;> decide
  cases form with
  | bytes q => cases q <;> exact head?_cons_behind_ne h (hne _ (by decide))
  | raw triple q =>
    cases triple with
    | true => trivial
    | false => cases q <;> exact head?_cons_behind_ne h (hne _ (by decide))
  | dollar tag => trivial
  | _ => exact head?_cons_behind_ne h (hne _ (by decide))

/-- No operator is spelled with a newline or a space. -/
theorem operators_gap (hd : IsGap d) : ∀ entry ∈ operators, d ∉ entry.1 := by
  rcases hd with rfl | rfl <;> decide

theorem stopsOperator_gap (hd : IsGap d) {w : List Char} (h : StopsOperator w rest) :
    StopsOperator w (rest ++ d :: more) := by
  cases rest with
  | nil =>
    intro c hc
    obtain rfl : d = c := Option.some.inj hc
    refine ⟨fun entry he hp => operators_gap hd entry he (hp.subset (by simp)), ?_, ?_⟩
    · rintro ⟨-, rfl⟩
      rcases hd with heq | heq <;> cases heq
    · rintro ⟨-, rfl⟩
      rcases hd with heq | heq <;> cases heq
  | cons c rest => exact h

/-- The signs that take any character behind them for the beginning of a word. -/
def TakesAny (w : List Char) : Prop :=
  w = ['#'] ∨ w = ['@'] ∨ w = ['@', '@']

instance (w : List Char) : Decidable (TakesAny w) :=
  inferInstanceAs (Decidable (_ ∨ _))

/-- A sign that takes any character in takes a newline into a word. -/
theorem scan?_takesAny {w : List Char} (h : TakesAny w) (more : List Char) :
    scan? (w ++ '\n' :: more) = some (scanWord (w ++ ['\n']) more) := by
  rcases h with rfl | rfl | rfl
  · have hop : scanOperator? ('#' :: '\n' :: more) = none := by
      simp [scanOperator?, operators, Text.stripStart?]
    rw [List.singleton_append, scan?_of_opensSign (by decide)
      (not_opensComment (by decide) (by decide) _), scanSign?_of_none hop]
    rfl
  · have hop : scanOperator? ('@' :: '\n' :: more) = none := by
      simp [scanOperator?, operators, Text.stripStart?]
    rw [List.singleton_append, scan?_of_opensSign (by decide)
      (not_opensComment (by decide) (by decide) _), scanSign?_of_none hop]
    rfl
  · have hop : scanOperator? ('@' :: '@' :: '\n' :: more) = none := by
      simp [scanOperator?, operators, Text.stripStart?]
    rw [List.cons_append, List.singleton_append, scan?_of_opensSign (by decide)
      (not_opensComment (by decide) (by decide) _), scanSign?_of_none hop]
    rfl

theorem stopsSign_gap (hd : IsGap d) {w : List Char} (h : StopsSign w rest)
    (hw : rest = [] → d = '\n' → ¬ TakesAny w) : StopsSign w (rest ++ d :: more) := by
  cases rest with
  | nil =>
    have hdollar : isTagPart d = false := by
      rcases hd with rfl | rfl <;> decide
    have hnumeric : Text.isNumeric d = false := by
      rcases hd with rfl | rfl <;> decide
    have htakes : TakesAny w → d = ' ' := fun hx =>
      hd.resolve_left fun heq => hw rfl heq hx
    refine ⟨fun hx c hc => ?_, fun hx c hc => Or.inl ?_,
      fun _ => stops_cons_behind Text.stops_nil hnumeric,
      fun _ => ⟨stops_cons_behind Text.stops_nil hdollar, ?_⟩⟩
    · rw [← Option.some.inj hc]
      exact htakes (hx.elim Or.inl fun hx => Or.inr (Or.inr hx))
    · rw [← Option.some.inj hc]
      exact htakes (Or.inr (Or.inl hx))
    · rcases hd with rfl | rfl <;> simp
  | cons c rest => exact h

/-! ## The last token -/

/-- Whether a newline behind the token, at the end of a text, is not a token of its own: it
belongs to a comment or a carriage return. -/
def TakesNewline (w : List Char) (t : Token) : Prop :=
  w = ['\r'] ∨ ∃ text, t = blank (.lineComment text) ∧ text.toList.getLast? ≠ some '\n'

/-- What follows a token also follows it with a newline or a space behind. -/
theorem follows_gap (hd : IsGap d) {w : List Char} {t : Token} (h : Follows w t rest)
    (hw : rest = [] → (d = '\n' → ¬ TakesAny w) ∧ ¬ TakesNewline w t) :
    Follows w t (rest ++ d :: more) := by
  have hword : isWordPart d = false := by
    rcases hd with rfl | rfl <;> decide
  have hhex : isHexDigit d = false := by
    rcases hd with rfl | rfl <;> decide
  have hdigit : d.isDigit = false := by
    rcases hd with rfl | rfl <;> rfl
  cases t with
  | blank kind =>
    cases kind with
    | newline =>
      intro hcr
      cases rest with
      | nil => exact absurd (Or.inl hcr) (hw rfl).2
      | cons c rest => exact h hcr
    | lineComment text =>
      intro hlast
      have hnil := h hlast
      exact absurd (Or.inr ⟨text, rfl, hlast⟩) (hw hnil).2
    | _ => trivial
  | word text =>
    exact ⟨stops_cons_behind h.1 hword, fun c hc => literalStart?_gap hd (h.2 c hc)⟩
  | quotedWord q text =>
    refine head?_cons_behind_ne h ?_
    rcases hd with rfl | rfl <;> cases q <;> decide
  | number text =>
    intro heq
    obtain ⟨hstop, hL⟩ := h heq
    refine ⟨stopsNumber_gap hd hstop, head?_cons_behind_ne hL ?_⟩
    rcases hd with rfl | rfl <;> decide
  | literal form value =>
    simp only [Follows] at h ⊢
    split at h
    · rename_i hzero
      rw [if_pos hzero]
      exact stops_cons_behind h hhex
    · rename_i hzero
      rw [if_neg hzero]
      exact closed_gap hd h
  | mark kind =>
    cases kind with
    | period => exact stops_cons_behind h hdigit
    | _ => exact stopsOperator_gap hd h
  | sign text =>
    exact ⟨stopsOperator_gap hd h.1, stopsSign_gap hd h.2 fun hn => (hw hn).1⟩

theorem follows_newline {w : List Char} {t : Token} (h : Follows w t rest)
    (hw : rest = [] → ¬ TakesAny w ∧ ¬ TakesNewline w t) :
    Follows w t (rest ++ '\n' :: more) :=
  follows_gap (Or.inl rfl) h fun hn => ⟨fun _ => (hw hn).1, (hw hn).2⟩

/-! ## A space behind a text -/

theorem scan?_space (cs : List Char) : scan? (' ' :: cs) = some (blank .space, cs) := by
  simp [scan?, scanBlank?]

/-- A token that takes a newline behind it is a blank. -/
theorem isBlank_of_takesNewline {w : List Char} {t : Token} (hs : scan? w = some (t, []))
    (ht : TakesNewline w t) : t.isBlank = true := by
  rcases ht with rfl | ⟨text, rfl, -⟩
  · have hr : scan? ['\r'] = some (blank .newline, []) := by decide
    rw [hr] at hs
    cases hs
    rfl
  · rfl

/-- **A space behind a text is a token of its own**, unless the text ends in a blank. -/
theorem tokenize_append_space {cs : List Char} {ts : List Token} (h : tokenize cs = some ts)
    (hlast : ∀ t ∈ ts.getLast?, t.isBlank = false) (more : List Char) :
    tokenize (cs ++ ' ' :: more) = (tokenize more).map (ts ++ blank .space :: ·) := by
  induction h using tokenize_induction with
  | nil => exact tokenize_of_scan? (scan?_space more)
  | cons w t rest ts hs ht hne ih =>
    have hlast' : ∀ u ∈ ts.getLast?, u.isBlank = false := by
      intro u hu
      refine hlast u ?_
      rw [List.getLast?_cons, Option.mem_def.1 hu]
      rfl
    have hscan : scan? (w ++ (rest ++ ' ' :: more)) = some (t, rest ++ ' ' :: more) := by
      refine scan?_append hs (follows_gap (Or.inr rfl) (follows_of_scan? hs) fun hnil => ?_)
      subst hnil
      rw [tokenize_nil] at ht
      cases ht
      refine ⟨fun heq => absurd heq (by decide), fun htakes => ?_⟩
      rw [List.append_nil] at hs
      have hblank := isBlank_of_takesNewline hs htakes
      rw [hlast t rfl] at hblank
      cases hblank
    rw [List.append_assoc, tokenize_of_scan? hscan, ih hlast', Option.map_map]
    rfl

/-! ## A newline behind a text -/

theorem scan?_newline (cs : List Char) : scan? ('\n' :: cs) = some (blank .newline, cs) := by
  simp [scan?, scanBlank?]

theorem tokenize_newline_cons (cs : List Char) :
    tokenize ('\n' :: cs) = (tokenize cs).map (blank .newline :: ·) :=
  tokenize_of_scan? (scan?_newline cs)

/-- A comment up to the end of its line is one token with the newline there. -/
theorem scan?_lineComment {body : List Char} (h : '\n' ∉ body) (cs : List Char) :
    scan? ('-' :: '-' :: (body ++ '\n' :: cs)) =
      some (blank (.lineComment (String.ofList (body ++ ['\n']))), cs) := by
  have hrun : ∀ c ∈ body, (c != '\n') = true := by
    intro c hc
    rw [bne_iff_ne]
    rintro rfl
    exact h hc
  have hstop : Stops (· != '\n') ('\n' :: cs) := Text.stops_cons.2 rfl
  simp [scan?_hyphens, scanLineComment, Text.takeWhile_append_of_stops hrun hstop,
    Text.dropWhile_append_of_stops hrun hstop]

/-- A comment up to the end of the line was read behind two hyphens. -/
theorem scanned_lineComment {cs rest : List Char} {text : String}
    (h : Scanned cs (blank (.lineComment text)) rest) :
    ∃ ds, cs = '-' :: '-' :: ds ∧ scanLineComment ds = (blank (.lineComment text), rest) := by
  generalize ht : blank (.lineComment text) = t at h
  cases h with
  | lineComment ds => exact ⟨ds, rfl, rfl⟩
  | number hn => cases hn <;> cases ht
  | operator hp h hd =>
    subst ht
    cases (operators_tokens _ hp).1
  | @numberSign cs h =>
    obtain ⟨text', he | he⟩ := scanNumberSign_token cs <;> cases ht.trans he
  | @atSign cs h =>
    obtain ⟨text', he | he⟩ := scanAtSign_token cs <;> cases ht.trans he
  | dollar h =>
    rcases scanDollar?_token h with ⟨form, value, he⟩ | ⟨text', he⟩ <;> cases ht.trans he
  | _ => cases ht

/-- A token that takes the newline behind it is a blank, and so is what it becomes. -/
theorem scan?_takesNewline {w : List Char} {t : Token} (hs : scan? w = some (t, []))
    (ht : TakesNewline w t) :
    t.isBlank = true ∧ ∃ u : Token, u.isBlank = true ∧ u.ReadsBack ∧
      ∀ more, scan? (w ++ '\n' :: more) = some (u, more) := by
  rcases ht with rfl | ⟨text, rfl, hlast⟩
  · have hr : scan? ['\r'] = some (blank .newline, []) := by decide
    rw [hr] at hs
    cases hs
    refine ⟨rfl, blank .newline, rfl, by decide, fun more => ?_⟩
    simp [scan?, scanBlank?, dropNewline]
  · obtain ⟨ds, rfl, hline⟩ := scanned_lineComment (scanned_of_scan? hs)
    have hnl : '\n' ∉ ds := by
      intro hmem
      simp only [scanLineComment] at hline
      split at hline
      · rename_i hd
        exact absurd (List.dropWhile_eq_nil_iff.1 hd '\n' hmem) (by decide)
      · rename_i d rest hd
        -- the comment would end in the newline that stopped it
        exfalso
        have hstop := Text.stops_dropWhile (p := (· != '\n')) ds
        rw [hd] at hstop
        have hdn : d = '\n' := by simpa using Text.stops_cons.1 hstop
        obtain ⟨htext, -⟩ := Prod.mk.inj hline
        simp only [blank.injEq, Blank.lineComment.injEq] at htext
        rw [← htext, hdn] at hlast
        simp at hlast
    have hscan : ∀ more, scan? ('-' :: '-' :: ds ++ '\n' :: more) =
        some (blank (.lineComment (String.ofList (ds ++ ['\n']))), more) :=
      scan?_lineComment hnl
    refine ⟨rfl, _, rfl, ?_, hscan⟩
    rw [ReadsBack, ← hscan []]
    simp [print, Blank.print]

/-- Tokens of which the last may have become another one, with the same parentheses open. -/
def SameDepth (ts us : List Token) : Prop :=
  ∀ depth, depthAfter depth us = depthAfter depth ts

theorem SameDepth.cons {ts us : List Token} (h : SameDepth ts us) (t : Token) :
    SameDepth (t :: ts) (t :: us) := by
  intro depth
  have happ : ∀ vs : List Token, depthAfter depth (t :: vs) =
      (depthAfter depth [t]).bind fun opened => depthAfter opened vs :=
    fun vs => depthAfter_append depth [t] vs
  rw [happ us, happ ts]
  congr 1
  funext opened
  exact h opened

/-- A text that has tokens has them with a newline behind it, and as many parentheses are open in
them, whatever follows the newline and does not carry on a word. -/
theorem exists_tokenize_newline {cs : List Char} {ts : List Token} (h : tokenize cs = some ts) :
    ∃ us, SameDepth ts us ∧ ∀ more, Stops isWordPart more →
      tokenize (cs ++ '\n' :: more) = (tokenize more).map (us ++ ·) := by
  induction h using tokenize_induction with
  | nil => exact ⟨[blank .newline], fun _ => rfl, fun more _ => tokenize_newline_cons more⟩
  | cons w t rest ts hs ht hne ih =>
    by_cases htakes : rest = [] ∧ (TakesAny w ∨ TakesNewline w t)
    · obtain ⟨rfl, htakes⟩ := htakes
      rw [tokenize_nil] at ht
      cases ht
      rw [List.append_nil] at hs ⊢
      rcases htakes with hany | hnew
      · have hsign : ∃ text, t = sign text := by
          have hall : ∀ w ∈ [['#'], ['@'], ['@', '@']],
              scan? w = some (sign (String.ofList w), []) := by decide
          have hw := hall w (by simpa [TakesAny] using hany)
          rw [hs] at hw
          exact ⟨_, (Prod.mk.inj (Option.some.inj hw)).1⟩
        obtain ⟨text, rfl⟩ := hsign
        refine ⟨[word (String.ofList (w ++ ['\n']))], fun _ => rfl, fun more hmore => ?_⟩
        have hscan := scan?_takesAny hany more
        rw [scanWord, Text.takeWhile_eq_nil_of_stops hmore,
          Text.dropWhile_eq_self_of_stops hmore,
          List.append_nil] at hscan
        exact tokenize_of_scan? hscan
      · obtain ⟨htb, u, hub, -, hscan⟩ := scan?_takesNewline hs hnew
        refine ⟨[u], fun depth => ?_, fun more _ => tokenize_of_scan? (hscan more)⟩
        rw [depthAfter_of_allBlank (allBlank_singleton hub),
          depthAfter_of_allBlank (allBlank_singleton htb)]
    · obtain ⟨us, hdepth, hus⟩ := ih
      refine ⟨t :: us, hdepth.cons t, fun more hmore => ?_⟩
      have hscan : scan? (w ++ (rest ++ '\n' :: more)) = some (t, rest ++ '\n' :: more) := by
        refine scan?_append hs (follows_newline (follows_of_scan? hs) fun hnil => ?_)
        exact ⟨fun hx => htakes ⟨hnil, Or.inl hx⟩, fun hx => htakes ⟨hnil, Or.inr hx⟩⟩
      rw [List.append_assoc, tokenize_of_scan? hscan, hus more hmore, Option.map_map]
      rfl

/-- What a newline behind a text makes of its tokens: blanks at the end become other blanks,
and the lexemes can still be printed if they could. -/
structure NewlineBehind (cs : List Char) (ts core a b : List Token) : Prop where
  tokens : ts = core ++ a
  blank_old : AllBlank a
  blank_new : AllBlank b
  tokenize : ∀ more, tokenize (cs ++ '\n' :: more) = (tokenize more).map (core ++ b ++ ·)
  reprintable : Reprintable (lexemes cs) → Reprintable (lexemes (cs ++ ['\n']))
  head : ∀ l ∈ (lexemes (cs ++ ['\n'])).head?,
    l.token.isBlank = true ∨ (lexemes cs).head? = some l

/-- No blank grows together with what stands in front of it. -/
theorem growTogether_of_isBlank {l l' : Lexeme} (h : l'.token.isBlank = true) :
    growTogether l l' = false := by
  obtain ⟨t, w⟩ := l
  obtain ⟨t', w'⟩ := l'
  cases t' with
  | blank kind => unfold growTogether; split <;> simp_all
  | _ => cases h

theorem reprintable_singleton {l : Lexeme} (h : l.token.ReadsBack) : Reprintable [l] :=
  ⟨by simpa using h, List.isChain_singleton _⟩

/-- **A newline behind a text leaves its tokens as they are**, up to blanks at the end. -/
theorem exists_newlineBehind {cs : List Char} {ts : List Token} (h : tokenize cs = some ts)
    (hlast : ∀ l ∈ (lexemes cs).getLast?, ¬ TakesAny l.written) :
    ∃ core a b, NewlineBehind cs ts core a b := by
  have hend : lexemes ['\n'] = [⟨blank .newline, ['\n']⟩] := by
    have hs := lexemes_of_scan? (w := ['\n']) (scan?_newline [])
    rw [lexemes_nil] at hs
    exact hs
  have hback : (blank .newline).ReadsBack := by decide
  induction h using tokenize_induction with
  | nil =>
    refine ⟨[], [], [blank .newline], rfl, by simp [AllBlank], allBlank_singleton rfl,
      fun more => tokenize_newline_cons more, fun _ => ?_, fun l hl => ?_⟩
    · rw [List.nil_append, hend]
      exact reprintable_singleton hback
    · rw [List.nil_append, hend] at hl
      rw [← Option.some.inj hl]
      exact Or.inl rfl
  | cons w t rest ts hs ht hne ih =>
    by_cases htakes : rest = [] ∧ TakesNewline w t
    · obtain ⟨rfl, htakes⟩ := htakes
      rw [tokenize_nil] at ht
      cases ht
      rw [List.append_nil] at hs
      obtain ⟨htb, u, hub, hback, hscan⟩ := scan?_takesNewline hs htakes
      have hlex : lexemes (w ++ ['\n']) = [⟨u, w ++ ['\n']⟩] := by
        have hw := hscan []
        rw [← List.append_nil (w ++ ['\n'])] at hw
        have hsc := lexemes_of_scan? hw
        rw [lexemes_nil, List.append_nil] at hsc
        exact hsc
      refine ⟨[], [t], [u], rfl, allBlank_singleton htb, allBlank_singleton hub, fun more => ?_,
        fun _ => ?_, fun l hl => ?_⟩
      · rw [List.append_nil]
        exact tokenize_of_scan? (hscan more)
      · rw [List.append_nil, hlex]
        exact reprintable_singleton hback
      · rw [List.append_nil, hlex] at hl
        rw [← Option.some.inj hl]
        exact Or.inl hub
    · rw [lexemes_of_scan? hs] at hlast
      have hlast' : ∀ l ∈ (lexemes rest).getLast?, ¬ TakesAny l.written := by
        intro l hl
        refine hlast l ?_
        rw [List.getLast?_cons, Option.mem_def.1 hl]
        rfl
      obtain ⟨core, a, b, hn⟩ := ih hlast'
      have hscan : ∀ more,
          scan? (w ++ (rest ++ '\n' :: more)) = some (t, rest ++ '\n' :: more) := by
        intro more
        refine scan?_append hs (follows_newline (follows_of_scan? hs) fun hnil => ⟨?_, ?_⟩)
        · subst hnil
          exact hlast ⟨t, w⟩ (by rw [lexemes_nil]; rfl)
        · exact fun hx => htakes ⟨hnil, hx⟩
      have hlex : lexemes (w ++ rest ++ ['\n']) = ⟨t, w⟩ :: lexemes (rest ++ ['\n']) := by
        rw [List.append_assoc]
        exact lexemes_of_scan? (hscan [])
      refine ⟨t :: core, a, b, by rw [hn.tokens]; rfl, hn.blank_old, hn.blank_new, fun more => ?_,
        fun hr => ?_, fun l hl => ?_⟩
      · rw [List.append_assoc, tokenize_of_scan? (hscan more), hn.tokenize more, Option.map_map]
        rfl
      · rw [lexemes_of_scan? hs, reprintable_cons] at hr
        rw [hlex, reprintable_cons]
        refine ⟨hr.1, fun l' hl' => ?_, hn.reprintable hr.2.2⟩
        rcases hn.head l' hl' with hb | hh
        · exact growTogether_of_isBlank hb
        · exact hr.2.1 l' hh
      · rw [hlex] at hl
        rw [lexemes_of_scan? hs]
        exact Or.inr hl

end Token
end SchemaScript
