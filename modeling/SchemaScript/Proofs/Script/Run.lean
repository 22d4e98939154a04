import SchemaScript.Proofs.Script.Modes
import SchemaScript.Proofs.Text.Blanks
import SchemaScript.Proofs.Text.Case
import SchemaScript.Proofs.Token.Newline

/-!
# A scanner on its way through a script

A scanner takes the characters of a text in as long as no statement ends in it, and then stands
behind the text in the mode that the text leads to (`Scanner.exists_extends`; for the semicolon
`Scanner.exists_isBehind`). The exception is a directive, which no text without directives that
count can hold (`Undirected`). A directive needs its word, which ends no longer word, with a space
or tab behind it on the same line, since a scanner expects it at the beginning of a line only
(`undirected_of_not_hasDirectiveWord`); and it does not count behind anything that has content.

`Scanner.run` keeps apart what ends in a text and what the scanner behind it has still to end
(`Scanner.statements_eq_run`).

Whatever a scanner finds was in front of it: a statement holds no more characters than the text
it was cut from, blanks aside (`Scanner.solid_le_of_mem_statements`).
-/

namespace SchemaScript
namespace Script

open Token Mode

/-! ## Newlines -/

@[simp] theorem countNewlines_append (a b : List Char) :
    countNewlines (a ++ b) = countNewlines a + countNewlines b :=
  List.count_append

theorem countNewlines_of_notMem {cs : List Char} (h : '\n' ∉ cs) : countNewlines cs = 0 :=
  List.count_eq_zero.2 h

/-! ## Directives -/

/-- Whether a word stands in a text, the case of ASCII letters aside, and is not a part of a
longer one. -/
def HasWord (word cs : List Char) : Prop :=
  ∃ a b, cs = a ++ b ∧ Text.startsWithIgnoringCase b word = true ∧
    (∀ c ∈ a.getLast?, isWordPart c = false) ∧
    ∀ c ∈ (b.drop word.length).head?, isWordPart c = false

/-- A word that a part of a text begins with stands in the text. -/
theorem occursIn_of_startsWithIgnoringCase {word b : List Char}
    (hb : Text.startsWithIgnoringCase b word = true) (a : List Char) :
    Text.occursIn (Text.foldCase word) (Text.foldCase (a ++ b)) = true := by
  rw [Text.startsWithIgnoringCase_eq] at hb
  rw [Text.foldCase_append]
  induction a with
  | nil =>
    rw [Text.foldCase_nil, List.nil_append]
    cases hcs : Text.foldCase b with
    | nil =>
      rw [hcs, List.isPrefixOf_iff_prefix, List.prefix_nil] at hb
      rw [hb]
      rfl
    | cons c cs =>
      rw [Text.occursIn, ← hcs, hb]
      rfl
  | cons c a ih =>
    rw [Text.foldCase_cons, List.cons_append, Text.occursIn, ih, Bool.or_true]

theorem occursIn_of_hasWord {word cs : List Char} (h : HasWord word cs) :
    Text.occursIn (Text.foldCase word) (Text.foldCase cs) = true := by
  obtain ⟨a, b, rfl, hb, -⟩ := h
  exact occursIn_of_startsWithIgnoringCase hb a

/-- A text begins with a word and a character behind it if it does so letter by letter. -/
theorem startsWithIgnoringCase_append {cs word : List Char} {d : Char}
    (h : Text.startsWithIgnoringCase cs (word ++ [d]) = true) :
    Text.startsWithIgnoringCase cs word = true ∧
      ∃ c, (cs.drop word.length).head? = some c ∧ c.toLower = d.toLower := by
  induction word generalizing cs with
  | nil =>
    cases cs with
    | nil => cases h
    | cons c cs =>
      simp only [List.nil_append, Text.startsWithIgnoringCase, Bool.and_true, beq_iff_eq] at h
      exact ⟨by simp [Text.startsWithIgnoringCase], c, rfl, h⟩
  | cons e word ih =>
    cases cs with
    | nil => cases h
    | cons c cs =>
      simp only [List.cons_append, Text.startsWithIgnoringCase, Bool.and_eq_true] at h ⊢
      obtain ⟨hword, hnext⟩ := ih h.2
      exact ⟨⟨h.1, hword⟩, hnext⟩

/-- Whether the word of a directive stands in a text, with a space or tab behind it, and is not
the end of a longer word. -/
def HasDirectiveWord (cs : List Char) : Prop :=
  ∃ a b, cs = a ++ b ∧ (∀ c ∈ a.getLast?, isWordPart c = false) ∧
    ∃ d, (d = ' ' ∨ d = '\t') ∧
      Text.startsWithIgnoringCase b ("DELIMITER".toList ++ [d]) = true

/-- A directive behind a character of no word is the word of a directive. -/
theorem hasDirectiveWord_of_isDirective {a cs : List Char} (h : Scanner.isDirective cs = true)
    (ha : ∀ c ∈ a.getLast?, isWordPart c = false) : HasDirectiveWord (a ++ cs) := by
  have hdirective : ∃ d, (d = ' ' ∨ d = '\t') ∧ Text.startsWithIgnoringCase
      (cs.dropWhile fun c => c == ' ' || c == '\t') ("DELIMITER".toList ++ [d]) = true := by
    rw [Scanner.isDirective, Bool.or_eq_true] at h
    rcases h with h | h
    · exact ⟨' ', Or.inl rfl, h⟩
    · exact ⟨'\t', Or.inr rfl, h⟩
  refine ⟨a ++ cs.takeWhile fun c => c == ' ' || c == '\t', _, ?_, ?_, hdirective⟩
  · rw [List.append_assoc, List.takeWhile_append_dropWhile]
  · intro x hx
    rw [List.getLast?_append] at hx
    cases hlast : (cs.takeWhile fun c => c == ' ' || c == '\t').getLast? with
    | none =>
      rw [hlast] at hx
      exact ha x hx
    | some y =>
      rw [hlast] at hx
      cases hx
      have hy := List.mem_takeWhile_imp (List.mem_of_getLast? hlast)
      simp only [Bool.or_eq_true, beq_iff_eq] at hy
      rcases hy with rfl | rfl <;> decide

/-- The word of a directive is a word, since no blank goes on with it. -/
theorem HasDirectiveWord.hasWord {cs : List Char} (h : HasDirectiveWord cs) :
    HasWord "DELIMITER".toList cs := by
  obtain ⟨a, b, hab, ha, d, hd, hstart⟩ := h
  obtain ⟨hword, c, hc, hlower⟩ := startsWithIgnoringCase_append hstart
  refine ⟨a, b, hab, hword, ha, fun x hx => ?_⟩
  rw [hc] at hx
  cases hx
  rcases hd with rfl | rfl
  · rw [Text.eq_of_toLower_eq hlower (by decide)]
    decide
  · rw [Text.eq_of_toLower_eq hlower (by decide)]
    decide

theorem HasDirectiveWord.occursIn {cs : List Char} (h : HasDirectiveWord cs) :
    Text.occursIn "delimiter ".toList (Text.foldCase cs) = true ∨
      Text.occursIn "delimiter\t".toList (Text.foldCase cs) = true := by
  obtain ⟨a, b, rfl, -, d, rfl | rfl, hb⟩ := h
  · exact Or.inl (occursIn_of_startsWithIgnoringCase hb a)
  · exact Or.inr (occursIn_of_startsWithIgnoringCase hb a)

/-- What stands behind a newline is no part of a word that begins in front of it. -/
theorem startsWithIgnoringCase_append_newline {word : List Char}
    (hword : '\n' ∉ Text.foldCase word) (a b : List Char) :
    Text.startsWithIgnoringCase (a ++ '\n' :: b) word = Text.startsWithIgnoringCase a word := by
  rw [Bool.eq_iff_iff, Text.startsWithIgnoringCase_eq, Text.startsWithIgnoringCase_eq,
    List.isPrefixOf_iff_prefix, List.isPrefixOf_iff_prefix, Text.foldCase_append]
  exact ⟨fun h => prefix_of_prefix_newline h hword,
    fun h => h.trans (List.prefix_append _ _)⟩

/-- A directive is one of the line on which it stands. -/
theorem isDirective_append_newline (a b : List Char) :
    Scanner.isDirective (a ++ '\n' :: b) = Scanner.isDirective a := by
  have hdrop : (a ++ '\n' :: b).dropWhile (fun c => c == ' ' || c == '\t') =
      a.dropWhile (fun c => c == ' ' || c == '\t') ++ '\n' :: b :=
    Text.dropWhile_append_cons rfl a b
  simp only [Scanner.isDirective, hdrop]
  rw [startsWithIgnoringCase_append_newline (by decide),
    startsWithIgnoringCase_append_newline (by decide)]

/-- The word of a directive does not reach across the end of a line. -/
theorem HasDirectiveWord.of_append_newline {a b : List Char}
    (h : HasDirectiveWord (a ++ '\n' :: b)) : HasDirectiveWord a ∨ HasDirectiveWord b := by
  obtain ⟨x, y, hxy, hx, d, hd, hy⟩ := h
  have hword : '\n' ∉ Text.foldCase ("DELIMITER".toList ++ [d]) := by
    rcases hd with rfl | rfl <;> decide
  rcases List.append_eq_append_iff.1 hxy with ⟨z, rfl, hz⟩ | ⟨z, rfl, hz⟩
  · cases z with
    | nil =>
      rw [List.nil_append] at hz
      rw [← hz, ← List.nil_append ('\n' :: b), startsWithIgnoringCase_append_newline hword] at hy
      cases hy
    | cons c z =>
      obtain ⟨rfl, rfl⟩ := List.cons.inj hz
      refine Or.inr ⟨z, y, rfl, fun e he => hx e ?_, d, hd, hy⟩
      rw [List.getLast?_append, List.getLast?_cons, Option.mem_def.1 he]
      rfl
  · subst hz
    rw [startsWithIgnoringCase_append_newline hword] at hy
    exact Or.inl ⟨x, z, rfl, hx, d, hd, hy⟩

theorem not_hasDirectiveWord_nil : ¬ HasDirectiveWord [] :=
  fun h => absurd h.occursIn (by decide)

/-- Whether no directive counts in a text that is read behind another one: where one could
stand, what was read has content. -/
def Undirected (read cs : List Char) : Prop :=
  ∀ a b, cs = a ++ b → Scanner.isDirective b = true →
    (∀ c ∈ (read ++ a).getLast?, isWordPart c = false) → hasContent (read ++ a) = true

/-- Without the word of a directive there is none. -/
theorem undirected_of_not_hasDirectiveWord {read cs : List Char}
    (h : ¬ HasDirectiveWord (read ++ cs)) : Undirected read cs := by
  rintro a b rfl hb ha
  rw [← List.append_assoc] at h
  exact absurd (hasDirectiveWord_of_isDirective hb ha) h

theorem Undirected.of_append {read w cs : List Char} (h : Undirected read (w ++ cs)) :
    Undirected (read ++ w) cs := by
  rintro a b rfl hb ha
  rw [List.append_assoc] at ha ⊢
  exact h (w ++ a) b (List.append_assoc _ _ _).symm hb ha

/-! ## A scanner on its way -/

namespace Scanner

theorem statements_nil (s : Scanner) : s.statements [] = s.statement?.toList := by
  rw [statements]

theorem statements_cons (s : Scanner) (c : Char) (cs : List Char) :
    s.statements (c :: cs) =
      (s.step c cs).emitted.toList ++ (s.step c cs).scanner.statements (s.step c cs).rest := by
  rw [statements]

/-- The statements that end in a text, and the scanner behind it. -/
def run (s : Scanner) (cs : List Char) : List Statement × Scanner :=
  match cs with
  | [] => ([], s)
  | c :: cs =>
    Prod.map ((s.step c cs).emitted.toList ++ ·) id (run (s.step c cs).scanner (s.step c cs).rest)
termination_by cs.length
decreasing_by exact Nat.lt_succ_of_le (step_rest_suffix s c cs).length_le

@[simp] theorem run_nil (s : Scanner) : s.run [] = ([], s) := by
  rw [run]

theorem run_cons (s : Scanner) (c : Char) (cs : List Char) :
    s.run (c :: cs) =
      ((s.step c cs).emitted.toList ++ ((s.step c cs).scanner.run (s.step c cs).rest).1,
        ((s.step c cs).scanner.run (s.step c cs).rest).2) := by
  rw [run]
  rfl

/-- What is pending behind a text is its last statement. -/
theorem statements_eq_run (s : Scanner) (cs : List Char) :
    s.statements cs = (s.run cs).1 ++ (s.run cs).2.statement?.toList := by
  fun_induction run s cs with
  | case1 s => rw [statements_nil, List.nil_append]
  | case2 s c cs ih => rw [statements_cons, ih, Prod.map_fst, Prod.map_snd, List.append_assoc]; rfl

/-- Whether a scanner has taken in a text. -/
structure Extends (s s' : Scanner) (w : List Char) : Prop where
  text : s'.text = s.text ++ w
  delimiter : s'.delimiter = s.delimiter
  firstLine : s'.firstLine = s.firstLine
  line : s'.line = s.line + countNewlines w

theorem extends_push (s : Scanner) (c : Char) (mode : Mode) :
    s.Extends { s.push c with mode := mode } [c] := by
  refine ⟨by simp [text, push], rfl, rfl, ?_⟩
  by_cases hc : c = '\n'
  · simp [push, hc, countNewlines]
  · simp [push, hc, countNewlines]

theorem extends_pushBracket (s : Scanner) {c d : Char} (hc : c ≠ '\n') (hd : d ≠ '\n')
    (mode : Mode) : s.Extends (s.pushBracket c d mode) [c, d] := by
  refine ⟨by simp [text, pushBracket], rfl, rfl, ?_⟩
  simp [pushBracket, countNewlines, hc, hd]

theorem Extends.trans {s₁ s₂ s₃ : Scanner} {v w : List Char} (h₁ : s₁.Extends s₂ v)
    (h₂ : s₂.Extends s₃ w) : s₁.Extends s₃ (v ++ w) where
  text := by rw [h₂.text, h₁.text, List.append_assoc]
  delimiter := h₂.delimiter.trans h₁.delimiter
  firstLine := h₂.firstLine.trans h₁.firstLine
  line := by rw [h₂.line, h₁.line, countNewlines_append, Nat.add_assoc]

/-- A scanner at the beginning of a line has no character of a word behind it. -/
def AtWord (s : Scanner) : Prop :=
  s.atLineStart = true → ∀ c ∈ s.pending.head?, isWordPart c = false

/-- Whether a scanner is in normal mode with nothing read. -/
structure IsFresh (s : Scanner) : Prop where
  delimiter : s.delimiter = .semicolon
  mode : s.mode = .normal
  pending : s.pending = []

theorem IsFresh.text_eq_nil {s : Scanner} (h : s.IsFresh) : s.text = [] := by
  rw [text, h.pending, List.reverse_nil]

theorem IsFresh.atWord {s : Scanner} (h : s.IsFresh) : s.AtWord := by
  intro _ c hc
  rw [h.pending] at hc
  cases hc

theorem isFresh_start : ({} : Scanner).IsFresh :=
  ⟨rfl, rfl, rfl⟩

/-- A text without directives that count is passed character by character. -/
theorem step_eq {s : Scanner} {c : Char} (cs : List Char) (hs : s.AtWord)
    (hplain : Undirected s.text (c :: cs)) :
    s.step c cs = if s.mode = .normal then s.stepNormal c cs else s.stepInside c cs := by
  rw [step, if_neg]
  intro hx
  rw [Bool.and_eq_true, expectsDirective, Bool.and_eq_true, Bool.and_eq_true] at hx
  have hcontent := hplain [] (c :: cs) rfl hx.1 fun d hd => hs hx.2.1.2 d (by
    rwa [List.append_nil, text, List.getLast?_reverse] at hd)
  rw [List.append_nil] at hcontent
  rw [hcontent] at hx
  exact Bool.false_ne_true hx.2.2

/-! What one step does with a text in which no directive counts, case by case. -/

section Step

variable {s : Scanner} {c : Char} {cs : List Char}

/-- The bracket that opens a comment is taken in. -/
theorem step_open (hs : s.AtWord) (hplain : Undirected s.text ('/' :: '*' :: cs))
    (hmode : s.mode = .normal) (hcut : ¬ s.delimiter.chars <+: '/' :: '*' :: cs) :
    s.step '/' ('*' :: cs) = ⟨none, s.pushBracket '/' '*' .blockComment, cs⟩ := by
  rw [step_eq _ hs hplain, if_pos hmode, stepNormal, Text.stripStart?_eq_none_iff.2 hcut]
  rfl

/-- A character in normal mode is taken in and may open a quote or a comment. -/
theorem step_opened (hs : s.AtWord) (hplain : Undirected s.text (c :: cs))
    (hmode : s.mode = .normal) (hcut : ¬ s.delimiter.chars <+: c :: cs)
    (hopen : ¬ (c = '/' ∧ cs.head? = some '*')) :
    s.step c cs = ⟨none, { s.push c with mode := openedBy c cs }, cs⟩ := by
  rw [step_eq _ hs hplain, if_pos hmode, stepNormal, Text.stripStart?_eq_none_iff.2 hcut]
  exact if_neg hopen

/-- The bracket that closes a comment is taken in. -/
theorem step_close (hs : s.AtWord) (hplain : Undirected s.text ('*' :: '/' :: cs))
    (hmode : s.mode = .blockComment) :
    s.step '*' ('/' :: cs) = ⟨none, s.pushBracket '*' '/' .normal, cs⟩ := by
  rw [step_eq _ hs hplain, hmode, if_neg (by decide), stepInside, if_pos ⟨hmode, rfl, rfl⟩]
  rfl

/-- A character inside a quote or comment is taken in and may close it. -/
theorem step_inside (hs : s.AtWord) (hplain : Undirected s.text (c :: cs))
    (hmode : s.mode ≠ .normal)
    (hclose : ¬ (s.mode = .blockComment ∧ c = '*' ∧ cs.head? = some '/')) :
    s.step c cs =
      ⟨none, { s.push c with mode := if closer? s.mode = some c then .normal else s.mode }, cs⟩ := by
  rw [step_eq _ hs hplain, if_neg hmode, stepInside, if_neg hclose]
  split <;> rfl

end Step

theorem atWord_push (s : Scanner) (c : Char) (mode : Mode) :
    Scanner.AtWord { s.push c with mode := mode } := by
  intro hstart d hd
  cases hd
  simp only [push, Bool.or_eq_true, beq_iff_eq, Bool.and_eq_true] at hstart
  rcases hstart with rfl | ⟨hblank, -⟩
  · decide
  · exact isWordPart_of_isBlank hblank

theorem atWord_pushBracket (s : Scanner) (c : Char) {d : Char} (mode : Mode)
    (hd : isWordPart d = false) : (s.pushBracket c d mode).AtWord := by
  intro _ e he
  cases he
  exact hd

/-- What has become of a scanner behind a text in which no statement ends. -/
structure IsBehind (s s' : Scanner) (cs : List Char) (mode : Mode) : Prop where
  delimiter : s'.delimiter = .semicolon
  mode : s'.mode = mode
  text : s'.text = s.text ++ cs
  atWord : s'.AtWord

theorem IsBehind.undirected {s s' : Scanner} {cs rest : List Char} {mode : Mode}
    (h : s.IsBehind s' cs mode) (hplain : Undirected s.text (cs ++ rest)) :
    Undirected s'.text rest := by
  rw [h.text]
  exact hplain.of_append

theorem Extends.undirected {s s' : Scanner} {w rest : List Char} (h : s.Extends s' w)
    (hplain : Undirected s.text (w ++ rest)) : Undirected s'.text rest := by
  rw [h.text]
  exact hplain.of_append

/-- A step that takes a part of a text in goes on with the rest of it. -/
theorem exists_extends_of_step {s s₁ : Scanner} {c : Char} {cs taken w rest : List Char}
    {mode : Mode} (htaken : s.Extends s₁ taken) (hstep : s.step c cs = ⟨none, s₁, w ++ rest⟩)
    (h : ∃ s', s₁.Extends s' w ∧ s'.mode = mode ∧ s'.AtWord ∧ s₁.run (w ++ rest) = s'.run rest) :
    ∃ s', s.Extends s' (taken ++ w) ∧ s'.mode = mode ∧ s'.AtWord ∧
      s.run (c :: cs) = s'.run rest := by
  obtain ⟨s', hs', hmode, hword, hrun⟩ := h
  refine ⟨s', htaken.trans hs', hmode, hword, ?_⟩
  rw [run_cons, hstep]
  exact hrun

/-- **A scanner takes in a text in which its delimiter does not count**, and goes on behind it in
the mode that the text leads to. -/
theorem exists_extends {mode : Mode} {cs : List Char} {s : Scanner} (rest : List Char)
    (hmode : s.mode = mode) (hs : s.AtWord) (hrest : ∀ c ∈ rest.head?, isSettled c = true)
    (hplain : Undirected s.text (cs ++ rest))
    (hcut : ∀ a b, cs = a ++ b → b ≠ [] → mode.after a = .normal →
      ¬ s.delimiter.chars <+: b ++ rest) :
    ∃ s', s.Extends s' cs ∧ s'.mode = mode.after cs ∧ s'.AtWord ∧
      s.run (cs ++ rest) = s'.run rest := by
  fun_induction Mode.after mode cs generalizing s with
  | case1 mode =>
    exact ⟨s, ⟨(List.append_nil _).symm, rfl, rfl, rfl⟩, hmode, hs, rfl⟩
  | case2 c w hopen ih =>
    obtain ⟨rfl, hw⟩ := hopen
    obtain ⟨w, rfl⟩ := List.head?_eq_some_iff.1 hw
    have hstep := step_open hs hplain hmode (hcut [] _ rfl (List.cons_ne_nil _ _) (after_nil _))
    have htaken : s.Extends (s.pushBracket '/' '*' .blockComment) ['/', '*'] :=
      extends_pushBracket s (by decide) (by decide) _
    refine exists_extends_of_step htaken hstep ?_
    refine ih rfl (atWord_pushBracket s _ _ (by decide)) (htaken.undirected hplain)
      fun a b hab hb ha => ?_
    rw [htaken.delimiter]
    refine hcut ('/' :: '*' :: a) b (by rw [show w = a ++ b from hab]; rfl) hb ?_
    rw [Mode.after, if_pos rfl, if_pos ⟨rfl, rfl⟩]
    exact ha
  | case3 c w hopen ih =>
    rw [List.cons_append] at hplain
    have hstep := step_opened hs hplain hmode
      (hcut [] _ rfl (List.cons_ne_nil _ _) (after_nil _))
      (by rwa [head?_append_iff_of_isSettled hrest rfl])
    have hline : openedBy c (w ++ rest) = openedBy c w := by
      simp only [openedBy, head?_append_iff_of_isSettled hrest
        (show isSettled '-' = false from rfl)]
    rw [hline] at hstep
    have htaken := extends_push s c (openedBy c w)
    refine exists_extends_of_step htaken hstep ?_
    refine ih rfl (atWord_push s c _) (htaken.undirected hplain) fun a b hab hb ha => ?_
    rw [htaken.delimiter]
    refine hcut (c :: a) b (by rw [hab]; rfl) hb ?_
    subst hab
    rw [Mode.after, if_pos rfl, if_neg (not_head?_of_append hopen)]
    cases a with
    | cons x a => exact ha
    | nil =>
      -- the character opens nothing in front of `b`, so it opens nothing alone
      rw [after_nil] at ha ⊢
      rw [openedBy] at ha ⊢
      rw [if_neg (fun hx => by cases hx.2)]
      split at ha
      · cases ha
      · exact ha
  | case4 mode c w hm hclose ih =>
    obtain ⟨hblock, rfl, hw⟩ := hclose
    obtain ⟨w, rfl⟩ := List.head?_eq_some_iff.1 hw
    have hstep := step_close hs hplain (hmode.trans hblock)
    have htaken : s.Extends (s.pushBracket '*' '/' .normal) ['*', '/'] :=
      extends_pushBracket s (by decide) (by decide) _
    refine exists_extends_of_step htaken hstep ?_
    refine ih rfl (atWord_pushBracket s _ _ (by decide)) (htaken.undirected hplain)
      fun a b hab hb ha => ?_
    rw [htaken.delimiter]
    refine hcut ('*' :: '/' :: a) b (by rw [show w = a ++ b from hab]; rfl) hb ?_
    rw [Mode.after, if_neg hm, if_pos ⟨hblock, rfl, rfl⟩]
    exact ha
  | case5 mode c w hm hclose ih =>
    subst hmode
    rw [List.cons_append] at hplain
    have hstep := step_inside hs hplain hm
      (by rwa [head?_append_iff_of_isSettled hrest rfl])
    have htaken := extends_push s c (if closer? s.mode = some c then .normal else s.mode)
    refine exists_extends_of_step htaken hstep ?_
    refine ih rfl (atWord_push s c _) (htaken.undirected hplain) fun a b hab hb ha => ?_
    rw [htaken.delimiter]
    refine hcut (c :: a) b (by rw [hab]; rfl) hb ?_
    subst hab
    rw [Mode.after, if_neg hm, if_neg fun hx =>
      not_head?_of_append (fun hy => hclose ⟨hx.1, hy⟩) hx.2]
    exact ha

/-- **A scanner takes in a text in which no statement ends**, and goes on behind it. -/
theorem exists_isBehind {mode mode' : Mode} {cs : List Char} (h : mode.behind? cs = some mode')
    {s : Scanner} (rest : List Char) (hdelim : s.delimiter = .semicolon) (hmode : s.mode = mode)
    (hs : s.AtWord) (hrest : ∀ c ∈ rest.head?, isSettled c = true)
    (hplain : Undirected s.text (cs ++ rest)) :
    ∃ s', s.IsBehind s' cs mode' ∧ s.statements (cs ++ rest) = s'.statements rest := by
  obtain ⟨s', hs', hmode', hword, hrun⟩ := exists_extends rest hmode hs hrest hplain
    fun a b hab hb ha hdelimiter => by
      obtain ⟨c, b, rfl⟩ := List.exists_cons_of_ne_nil hb
      rw [hdelim] at hdelimiter
      obtain ⟨more, hmore⟩ := hdelimiter
      obtain rfl : ';' = c := (List.cons.inj hmore).1
      rw [hab] at h
      exact after_ne_normal_of_behind? h ha
  refine ⟨s', ⟨hs'.delimiter.trans hdelim, ?_, hs'.text, hword⟩, ?_⟩
  · rw [hmode', after_of_behind? h]
  · rw [statements_eq_run, statements_eq_run, hrun]

/-- At a semicolon in normal mode a statement ends. -/
theorem statements_semicolon {s : Scanner} (rest : List Char) (hdelim : s.delimiter = .semicolon)
    (hmode : s.mode = .normal) (hs : s.AtWord)
    (hplain : Undirected s.text (';' :: rest)) :
    s.statements (';' :: rest) = s.statement?.toList ++
      Scanner.statements { s.restart with atLineStart := false } rest := by
  have hstep : s.step ';' rest =
      ⟨s.statement?, { s.restart with atLineStart := false }, rest⟩ := by
    rw [step_eq rest hs hplain, if_pos hmode, stepNormal, hdelim]
    simp [Delimiter.chars, Delimiter.semicolon]
  rw [statements_cons, hstep]

/-! ## How much the statements hold -/

theorem statement?_of_text_eq_nil {s : Scanner} (h : s.text = []) : s.statement? = none := by
  rw [statement?, h, hasContent, tokenize_nil]
  rfl

theorem solid_of_statement? {s : Scanner} {st : Statement} (h : st ∈ s.statement?) :
    Text.solid st.text.toList = Text.solid s.text := by
  unfold statement? at h
  split at h
  · cases h
    rw [String.toList_ofList, Text.solid_trim]
  · cases h

theorem solid_le_of_suffix {a b : List Char} (h : a <:+ b) : Text.solid a ≤ Text.solid b := by
  obtain ⟨w, rfl⟩ := h
  rw [Text.solid_append]
  omega

/-- A step moves characters behind the scanner, or drops some and perhaps all that is behind
it. -/
theorem text_step (s : Scanner) (c : Char) (cs : List Char) :
    (s.step c cs).scanner.text ++ (s.step c cs).rest = s.text ++ c :: cs ∨
      (((s.step c cs).scanner.text = [] ∨ (s.step c cs).scanner.text = s.text) ∧
        (s.step c cs).rest <:+ cs) := by
  unfold step
  split
  · right
    refine ⟨?_, List.dropWhile_suffix _⟩
    simp only [direct]
    split
    · exact Or.inl rfl
    · exact Or.inr rfl
  split
  · unfold stepNormal
    split
    · rename_i rest h
      have happ := Text.stripStart?_eq_some_iff.1 h
      exact Or.inr ⟨Or.inl rfl, s.delimiter.more, (List.cons.inj happ).2.symm⟩
    split
    · rename_i h
      obtain ⟨w, rfl⟩ := List.head?_eq_some_iff.1 h.2
      left
      simp [text, pushBracket]
    · left
      simp [text, push]
  · unfold stepInside
    split
    · rename_i h
      obtain ⟨w, rfl⟩ := List.head?_eq_some_iff.1 h.2.2
      left
      simp [text, pushBracket]
    split
    · left
      simp [text, push]
    · left
      simp [text, push]

theorem solid_step_le (s : Scanner) (c : Char) (cs : List Char) :
    Text.solid (s.step c cs).scanner.text + Text.solid (s.step c cs).rest ≤
      Text.solid s.text + Text.solid (c :: cs) := by
  rcases text_step s c cs with h | ⟨htext, hrest⟩
  · rw [← Text.solid_append, h, Text.solid_append]
  · have hsolid := solid_le_of_suffix (hrest.trans (List.suffix_cons c cs))
    rcases htext with htext | htext <;> rw [htext]
    · rw [Text.solid_nil]
      omega
    · omega

theorem emitted_step (s : Scanner) (c : Char) (cs : List Char) :
    (s.step c cs).emitted = none ∨ (s.step c cs).emitted = s.statement? := by
  unfold step stepNormal stepInside
  repeat' split
  all_goals simp

/-- **No statement holds more than the text it was cut from.** -/
theorem solid_le_of_mem_statements {s : Scanner} {cs : List Char} {st : Statement}
    (h : st ∈ s.statements cs) :
    Text.solid st.text.toList ≤ Text.solid s.text + Text.solid cs := by
  fun_induction statements s cs with
  | case1 s =>
    rw [solid_of_statement? (Option.mem_toList.1 h)]
    omega
  | case2 s c cs ih =>
    rcases List.mem_append.1 h with h | h
    · have hst : st ∈ s.statement? := by
        rcases emitted_step s c cs with he | he
        · rw [he] at h
          cases h
        · rw [he] at h
          exact Option.mem_toList.1 h
      rw [solid_of_statement? hst]
      omega
    · exact (ih h).trans (solid_step_le s c cs)

end Scanner

end Script
end SchemaScript
