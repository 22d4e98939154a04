import SchemaScript.Proofs.Script.TidyLines
import SchemaScript.Text.Doubling

/-!
# Tidying between quotes

Tidying goes by lines and does not know of quotes. Nothing that it looks for has a quote in it
(`isForeign_quote`), so that a quote cuts a line into two parts that are tidied by themselves
(`IsForeign.removeCollation_append_cons`), and the quotes of a text may as well be doubled
afterwards (`tidyLine_double`). Backslashes are foreign to it as well.

A text between quotes loses its collations, and its lines behind the first one are tidied like
any other, apart from the last, which the closing quote keeps from ending a batch (`tidyQuoted`).
If the last of several lines is a comment, then the closing quote is lost with it
(`exists_tidyChars_quoted`); otherwise it stays where it is (`tidyChars_quoted`). A text that
keeps its quote and is left as it is has nothing of what tidying looks for
(`isTidyQuoted_iff`).
-/

namespace SchemaScript

open Text (double)

namespace Script

/-! ## Collations in a line -/

/-- Whether the default collation stands in a text, with an indent in front of it. -/
def HasCollation (cs : List Char) : Prop :=
  ∃ a b, cs = a ++ b ∧ (behindCollation? b).isSome = true

/-- **A line stays as it is exactly if there is no collation in it.** -/
theorem removeCollation_eq_self_iff {cs : List Char} :
    removeCollation cs = cs ↔ ¬ HasCollation cs :=
  removes_collation.eq_self_iff

/-! ## Characters that tidying does not look for -/

/-- Whether a character is in nothing that tidying looks for. -/
structure IsForeign (q : Char) : Prop where
  folded : q.toLower = q
  notIndent : isIndent q = false
  notCollate : q ∉ Text.foldCase "COLLATE".toList
  notName : q ∉ Text.foldCase "pg_catalog.\"default\"".toList
  notBatch : q ∉ Text.foldCase "GO".toList
  notSemicolon : q ≠ ';'
  notHash : q ≠ '#'

theorem isForeign_quote : IsForeign '\'' := by
  constructor <;> decide

theorem isForeign_backslash : IsForeign '\\' := by
  constructor <;> decide

namespace IsForeign

variable {q : Char} (hq : IsForeign q)
include hq

theorem dropIndent?_append_cons (a b : List Char) :
    dropIndent? (a ++ q :: b) = (dropIndent? a).map (· ++ q :: b) := by
  have hhead : (a ++ q :: b).head?.any isIndent = a.head?.any isIndent := by
    cases a with
    | nil => exact hq.notIndent
    | cons c a => rfl
  rw [dropIndent?, dropIndent?, hhead, Text.dropWhile_append_cons hq.notIndent]
  split <;> rfl

theorem stripIgnoringCase?_append_cons {start : List Char} (h : q ∉ Text.foldCase start)
    (a b : List Char) :
    stripIgnoringCase? start (a ++ q :: b) =
      (stripIgnoringCase? start a).map (· ++ q :: b) := by
  have hcons : ∀ (c : Char) (cs : List Char) (s : Char) (ss : List Char),
      stripIgnoringCase? (s :: ss) (c :: cs) =
        if c.toLower = s.toLower then stripIgnoringCase? ss cs else none := by
    intro c cs s ss
    by_cases hc : c.toLower = s.toLower <;>
      simp [stripIgnoringCase?, Text.startsWithIgnoringCase, hc]
  induction start generalizing a with
  | nil =>
    have hnil : ∀ cs, stripIgnoringCase? [] cs = some cs := fun cs => by
      simp [stripIgnoringCase?, Text.startsWithIgnoringCase]
    rw [hnil, hnil, Option.map_some]
  | cons s ss ih =>
    rw [Text.foldCase_cons, List.mem_cons, not_or] at h
    cases a with
    | nil =>
      rw [List.nil_append, hcons, hq.folded, if_neg h.1]
      rfl
    | cons c a =>
      rw [List.cons_append, hcons, hcons]
      split
      · exact ih h.2 a
      · rfl

theorem behindCollation?_append_cons (a b : List Char) :
    behindCollation? (a ++ q :: b) = (behindCollation? a).map (· ++ q :: b) := by
  rw [behindCollation?, behindCollation?, hq.dropIndent?_append_cons]
  cases dropIndent? a with
  | none => rfl
  | some a =>
    rw [Option.map_some, Option.bind_some, Option.bind_some,
      hq.stripIgnoringCase?_append_cons hq.notCollate]
    cases stripIgnoringCase? "COLLATE".toList a with
    | none => rfl
    | some a =>
      rw [Option.map_some, Option.bind_some, Option.bind_some, hq.dropIndent?_append_cons]
      cases dropIndent? a with
      | none => rfl
      | some a => exact hq.stripIgnoringCase?_append_cons hq.notName _ _

/-- **No collation reaches across a foreign character.** -/
theorem removeCollation_append_cons (a b : List Char) :
    removeCollation (a ++ q :: b) = removeCollation a ++ q :: removeCollation b :=
  removes_collation.append_cons hq.behindCollation?_append_cons a b

theorem removeCollation_double (cs : List Char) :
    removeCollation (double q cs) = double q (removeCollation cs) :=
  removes_collation.double hq.behindCollation?_append_cons cs

/-- A line with a foreign character in it does not end a batch. -/
theorem isBatchEnd_append_cons (a b : List Char) : isBatchEnd (a ++ q :: b) = false := by
  rw [isBatchEnd, Text.dropWhile_append_cons hq.notIndent,
    hq.stripIgnoringCase?_append_cons hq.notBatch]
  cases stripIgnoringCase? "GO".toList (a.dropWhile isIndent) with
  | none => rfl
  | some rest =>
    simp only [Option.map_some, Text.dropWhile_append_cons hq.notIndent]
    cases rest.dropWhile isIndent with
    | nil =>
      rw [List.nil_append]
      split
      · rename_i hmore
        exact absurd (List.cons.inj hmore).1 hq.notSemicolon
      · rfl
    | cons c behind =>
      rw [List.cons_append]
      split
      · rename_i more hmore
        rw [← (List.cons.inj hmore).2, List.all_append, List.all_cons, hq.notIndent]
        simp
      · rfl

theorem isBatchEnd_double (cs : List Char) : isBatchEnd (double q cs) = isBatchEnd cs := by
  by_cases hmem : q ∈ cs
  · obtain ⟨a, b, rfl, ha⟩ := List.eq_append_cons_of_mem hmem
    rw [Text.double_append_cons ha, hq.isBatchEnd_append_cons, hq.isBatchEnd_append_cons]
  · rw [Text.double_eq_self hmem]

/-- Whether a line is a comment shows in front of its first foreign character. -/
theorem isHashComment_append_cons (a b : List Char) :
    isHashComment (a ++ q :: b) = isHashComment a := by
  rw [isHashComment, isHashComment, Text.dropWhile_append_cons hq.notIndent]
  cases a.dropWhile isIndent with
  | nil => exact beq_eq_false_iff_ne.2 fun hx => hq.notHash (Option.some.inj hx)
  | cons c a => rfl

theorem isHashComment_double (cs : List Char) :
    isHashComment (double q cs) = isHashComment cs := by
  by_cases hmem : q ∈ cs
  · obtain ⟨a, b, rfl, ha⟩ := List.eq_append_cons_of_mem hmem
    rw [Text.double_append_cons ha, hq.isHashComment_append_cons, hq.isHashComment_append_cons]
  · rw [Text.double_eq_self hmem]

end IsForeign

/-! ## Quotes in a line -/

/-- A line with a quote in it loses collations and is kept unless it is a comment. -/
theorem tidyLine_append_quote (a b : List Char) :
    tidyLine (a ++ '\'' :: b) =
      if isHashComment (removeCollation a) then []
      else removeCollation a ++ '\'' :: removeCollation b := by
  rw [tidyLine]
  simp only [isForeign_quote.removeCollation_append_cons, isForeign_quote.isBatchEnd_append_cons,
    isForeign_quote.isHashComment_append_cons, Bool.false_eq_true, if_false]

variable {cs l : List Char}

/-- **Tidying a line and doubling its quotes can be done in either order.** -/
theorem tidyLine_double (l : List Char) : tidyLine (double '\'' l) = double '\'' (tidyLine l) := by
  by_cases hq : '\'' ∈ l
  · obtain ⟨a, b, rfl, ha⟩ := List.eq_append_cons_of_mem hq
    have ha' : '\'' ∉ removeCollation a := fun h => ha (removes_collation.subset a h)
    rw [Text.double_append_cons ha, tidyLine_append_quote, tidyLine_append_quote]
    split
    · rfl
    · rw [removes_collation.kept (isForeign_quote.behindCollation?_append_cons [] _),
        isForeign_quote.removeCollation_double, Text.double_append_cons ha']
  · have hq' : '\'' ∉ tidyLine l := by
      simp only [tidyLine]
      split
      · decide
      split
      · exact List.not_mem_nil
      · exact fun h => hq (removes_collation.subset l h)
    rw [Text.double_eq_self hq, Text.double_eq_self hq']

/-- A line is tidy if there is nothing in it that tidying looks for. -/
theorem tidyLine_eq_self_iff :
    tidyLine l = l ↔ ¬ HasCollation l ∧ isBatchEnd l = false ∧ isHashComment l = false := by
  rw [← removeCollation_eq_self_iff]
  constructor
  · intro h
    unfold tidyLine at h
    dsimp only at h
    split at h
    · -- a semicolon ends no batch, but it is what is left of a line that does
      rename_i hbatch
      subst h
      revert hbatch
      decide +kernel
    split at h
    · rename_i hhash
      subst h
      revert hhash
      decide +kernel
    · rename_i hbatch hhash
      rw [h, Bool.not_eq_true] at hbatch hhash
      exact ⟨h, hbatch, hhash⟩
  · rintro ⟨hcollation, hbatch, hhash⟩
    rw [tidyLine]
    simp [hcollation, hbatch, hhash]

/-! ## Lines between quotes -/

/-- Lines with their quotes doubled, and with the closing quote and what stands behind it on the
last one. -/
def quotedLines (behind : List Char) : List (List Char) → List (List Char)
  | [] => []
  | [l] => [double '\'' l ++ '\'' :: behind]
  | l :: l' :: ls => double '\'' l :: quotedLines behind (l' :: ls)

/-- What tidying makes of lines behind a quote, which the first one goes on behind. -/
def tidyBehindQuote : List (List Char) → List (List Char)
  | [] => []
  | l :: ls => removeCollation l :: ls.map tidyLine

/-- What tidying makes of lines in front of a quote, which ends the last one. -/
def tidyUpToQuote : List (List Char) → List (List Char)
  | [] => []
  | [l] => [removeCollation l]
  | l :: l' :: ls => tidyLine l :: tidyUpToQuote (l' :: ls)

/-- What tidying makes of the lines between two quotes. -/
def tidyBetween : List (List Char) → List (List Char)
  | [] => []
  | l :: ls => removeCollation l :: tidyUpToQuote ls

/-- What tidying makes of a text between quotes. -/
def tidyQuoted (cs : List Char) : List Char :=
  unlines (tidyBetween (lines cs))

/-- Whether the quote behind lines is kept: the line that it ends is no comment, unless a quote
in front of it begins it. -/
def KeepsQuote (ls : List (List Char)) : Prop :=
  ∀ l ∈ ls.tail.getLast?, isHashComment (removeCollation l) = false

/-- Whether tidying finds nothing in a text between quotes. -/
structure IsTidyQuoted (cs : List Char) : Prop where
  noCollation : ∀ l ∈ lines cs, ¬ HasCollation l
  noBatchEnd : ∀ l ∈ (lines cs).tail.dropLast, isBatchEnd l = false
  noComment : ∀ l ∈ (lines cs).tail, isHashComment l = false

section QuotedLines

variable {ls : List (List Char)} {behind : List Char}

theorem quotedLines_ne_nil (hne : ls ≠ []) : quotedLines behind ls ≠ [] := by
  fun_cases quotedLines behind ls
  · exact absurd rfl hne
  · exact List.cons_ne_nil _ _
  · exact List.cons_ne_nil _ _

theorem unlines_quotedLines (hne : ls ≠ []) :
    unlines (quotedLines behind ls) = double '\'' (unlines ls) ++ '\'' :: behind := by
  fun_induction quotedLines behind ls with
  | case1 => exact absurd rfl hne
  | case2 l => rfl
  | case3 l l' ls ih =>
    rw [unlines_cons (quotedLines_ne_nil (List.cons_ne_nil _ _)), ih (List.cons_ne_nil _ _),
      unlines_cons (List.cons_ne_nil _ _), Text.double_append,
      Text.double_cons_of_ne (by decide), List.append_assoc, List.cons_append]

theorem unlines_map_double {q : Char} (hq : q ≠ '\n') (hne : ls ≠ []) :
    unlines (ls.map (double q)) = double q (unlines ls) := by
  fun_induction unlines ls with
  | case1 => rfl
  | case2 l => rfl
  | case3 l ls hls ih =>
    rw [List.map_cons, unlines_cons (by simpa using hls), ih hls, Text.double_append,
      Text.double_cons_of_ne hq.symm]

/-- A quoted text has the lines of the text. -/
theorem lines_double_append (hbehind : '\n' ∉ behind) (cs : List Char) :
    lines (double '\'' cs ++ '\'' :: behind) = quotedLines behind (lines cs) := by
  have hne := lines_ne_nil cs
  have hno : ∀ ls : List (List Char), (∀ l ∈ ls, '\n' ∉ l) →
      ∀ l ∈ quotedLines behind ls, '\n' ∉ l := by
    intro ls hls
    fun_induction quotedLines behind ls with
    | case1 => exact hls
    | case2 l =>
      intro x hx
      rw [List.mem_singleton.1 hx]
      have hl : '\n' ∉ double '\'' l := fun h =>
        hls l List.mem_cons_self (Text.double_subset _ _ h)
      simp [hl, hbehind]
    | case3 l l' ls ih =>
      obtain ⟨hl, hls⟩ := List.forall_mem_cons.1 hls
      exact List.forall_mem_cons.2 ⟨fun h => hl (Text.double_subset _ _ h), ih hls⟩
  have hlines : lines (unlines (quotedLines behind (lines cs))) = quotedLines behind (lines cs) :=
    lines_unlines (quotedLines_ne_nil hne) (hno _ fun l hl => newline_notMem_of_mem_lines hl)
  rwa [unlines_quotedLines hne, unlines_lines] at hlines

/-- Lines up to a quote are tidied with the quote behind them if it is kept. -/
theorem map_tidyLine_quotedLines (hbehind : removeCollation behind = behind)
    (h : ∀ l ∈ ls.getLast?, isHashComment (removeCollation l) = false) :
    (quotedLines behind ls).map tidyLine = quotedLines behind (tidyUpToQuote ls) := by
  fun_induction quotedLines behind ls with
  | case1 => rfl
  | case2 l =>
    rw [List.map_singleton, tidyLine_append_quote, isForeign_quote.removeCollation_double,
      isForeign_quote.isHashComment_double, h l rfl, hbehind]
    rfl
  | case3 l l' ls ih =>
    rw [List.getLast?_cons_cons] at h
    rw [List.map_cons, ih h, tidyLine_double, tidyUpToQuote]
    cases ls <;> rfl

/-- If the quote is not kept, then all that is left is doubled text. -/
theorem exists_map_tidyLine_quotedLines (behind : List Char)
    (h : ∃ l ∈ ls.getLast?, isHashComment (removeCollation l) = true) :
    ∃ ms : List (List Char),
      (quotedLines behind ls).map tidyLine = ms.map (double '\'') := by
  fun_induction quotedLines behind ls with
  | case1 => exact ⟨[], rfl⟩
  | case2 l =>
    obtain ⟨m, hm, hhash⟩ := h
    obtain rfl : l = m := Option.some.inj hm
    refine ⟨[[]], ?_⟩
    rw [List.map_singleton, tidyLine_append_quote, isForeign_quote.removeCollation_double,
      isForeign_quote.isHashComment_double, if_pos hhash]
    rfl
  | case3 l l' ls ih =>
    rw [List.getLast?_cons_cons] at h
    obtain ⟨ms, hms⟩ := ih h
    exact ⟨tidyLine l :: ms, by rw [List.map_cons, hms, tidyLine_double, List.map_cons]⟩

theorem tidyBehindQuote_quotedLines (hbehind : removeCollation behind = behind)
    (h : KeepsQuote ls) :
    tidyBehindQuote (quotedLines behind ls) = quotedLines behind (tidyBetween ls) := by
  cases ls with
  | nil => rfl
  | cons l ls =>
    cases ls with
    | nil =>
      rw [quotedLines, tidyBehindQuote, isForeign_quote.removeCollation_append_cons,
        isForeign_quote.removeCollation_double, hbehind]
      rfl
    | cons l' ls =>
      have hmore : ∀ l ∈ (l' :: ls).getLast?, isHashComment (removeCollation l) = false := h
      rw [quotedLines, tidyBehindQuote, map_tidyLine_quotedLines hbehind hmore, tidyBetween,
        isForeign_quote.removeCollation_double]
      cases ls <;> rfl

theorem exists_tidyBehindQuote_quotedLines (behind : List Char) (hne : ls ≠ [])
    (h : ¬ KeepsQuote ls) :
    ∃ ms : List (List Char), ms ≠ [] ∧
      tidyBehindQuote (quotedLines behind ls) = ms.map (double '\'') := by
  have hhash : ∃ l ∈ ls.tail.getLast?, isHashComment (removeCollation l) = true := by
    simpa [KeepsQuote] using h
  obtain ⟨l, ls, rfl⟩ := List.exists_cons_of_ne_nil hne
  cases ls with
  | nil =>
    obtain ⟨m, hm, -⟩ := hhash
    cases hm
  | cons l' ls =>
    have hmore : ∃ m ∈ (l' :: ls).getLast?, isHashComment (removeCollation m) = true := hhash
    obtain ⟨ms, hms⟩ := exists_map_tidyLine_quotedLines behind hmore
    refine ⟨removeCollation l :: ms, List.cons_ne_nil _ _, ?_⟩
    rw [quotedLines, tidyBehindQuote, hms, isForeign_quote.removeCollation_double, List.map_cons]

end QuotedLines

/-! ## A quoted text in a script -/

/-- Whether a text is a part of a line that tidying leaves as it is. -/
structure IsPlainLine (w : List Char) : Prop where
  noMark : ∀ c ∈ w.head?, c.toNat ≠ 0xFEFF
  noReturn : '\r' ∉ w
  noNewline : '\n' ∉ w
  noCollation : removeCollation w = w
  noComment : isHashComment w = false

theorem singleNewlines_of_notMem (h : '\r' ∉ cs) : singleNewlines cs = cs := by
  fun_induction singleNewlines cs with
  | case1 => rfl
  | case2 c => rfl
  | case3 c d cs hreturn ih => simp [hreturn.1] at h
  | case4 c d cs hreturn ih => rw [ih fun hx => h (List.mem_cons_of_mem c hx)]

theorem dropByteOrderMark_append_quote {a : List Char} (h : ∀ c ∈ a.head?, c.toNat ≠ 0xFEFF)
    (b : List Char) : dropByteOrderMark (a ++ '\'' :: b) = a ++ '\'' :: b := by
  cases a with
  | nil => rfl
  | cons c a => exact if_neg (h c rfl)

section Script

variable {before behind rest : List Char}

/-- A script is tidied behind the first quote in it. -/
theorem tidyChars_append_quote (hbefore : IsPlainLine before) (hreturn : '\r' ∉ rest) :
    tidyChars (before ++ '\'' :: rest) =
      before ++ '\'' :: unlines (tidyBehindQuote (lines rest)) := by
  obtain ⟨l, ls, hl⟩ := exists_lines_eq_cons rest
  have hno : '\r' ∉ before ++ '\'' :: rest := by
    simp [hbefore.noReturn, hreturn]
  have hne : '\'' ≠ '\n' := by decide
  have hlines : lines (before ++ '\'' :: rest) = (before ++ '\'' :: l) :: ls := by
    rw [lines_append_of_notMem hbefore.noNewline, lines_cons_of_ne hne hl]
    rfl
  have hfirst : tidyLine (before ++ '\'' :: l) = before ++ '\'' :: removeCollation l := by
    rw [tidyLine_append_quote, hbefore.noCollation, hbefore.noComment]
    rfl
  rw [tidyChars, dropByteOrderMark_append_quote hbefore.noMark, singleNewlines_of_notMem hno,
    hlines, hl, List.map_cons, hfirst, tidyBehindQuote]
  cases ls.map tidyLine with
  | nil => rfl
  | cons y ys => simp [unlines]

/-- **A text between quotes is tidied** if its closing quote is kept. -/
theorem tidyChars_quoted (hbefore : IsPlainLine before) (hbehind : IsPlainLine behind)
    (hreturn : '\r' ∉ cs) (h : KeepsQuote (lines cs)) :
    tidyChars (before ++ '\'' :: (double '\'' cs ++ '\'' :: behind)) =
      before ++ '\'' :: (double '\'' (tidyQuoted cs) ++ '\'' :: behind) := by
  have hno : '\r' ∉ double '\'' cs ++ '\'' :: behind := by
    have hdouble : '\r' ∉ double '\'' cs := fun hx => hreturn (Text.double_subset _ _ hx)
    simp [hdouble, hbehind.noReturn]
  have hne : tidyBetween (lines cs) ≠ [] := by
    obtain ⟨l, ls, hl⟩ := exists_lines_eq_cons cs
    rw [hl]
    exact List.cons_ne_nil _ _
  rw [tidyChars_append_quote hbefore hno, lines_double_append hbehind.noNewline,
    tidyBehindQuote_quotedLines hbehind.noCollation h, unlines_quotedLines hne, tidyQuoted]

/-- A text that does not keep its closing quote is left without one. -/
theorem exists_tidyChars_quoted (hbefore : IsPlainLine before) (hbehind : IsPlainLine behind)
    (hreturn : '\r' ∉ cs) (h : ¬ KeepsQuote (lines cs)) :
    ∃ x, tidyChars (before ++ '\'' :: (double '\'' cs ++ '\'' :: behind)) =
      before ++ '\'' :: double '\'' x := by
  have hno : '\r' ∉ double '\'' cs ++ '\'' :: behind := by
    have hdouble : '\r' ∉ double '\'' cs := fun hx => hreturn (Text.double_subset _ _ hx)
    simp [hdouble, hbehind.noReturn]
  obtain ⟨ms, hms, hlines⟩ := exists_tidyBehindQuote_quotedLines behind (lines_ne_nil cs) h
  refine ⟨unlines ms, ?_⟩
  rw [tidyChars_append_quote hbefore hno, lines_double_append hbehind.noNewline, hlines,
    unlines_map_double (by decide) hms]

end Script

/-! ## What stays as it is -/

theorem tidyUpToQuote_eq_self_iff {ls : List (List Char)} :
    (∀ l ∈ ls.getLast?, isHashComment (removeCollation l) = false) ∧ tidyUpToQuote ls = ls ↔
      (∀ l ∈ ls, ¬ HasCollation l) ∧ (∀ l ∈ ls.dropLast, isBatchEnd l = false) ∧
        ∀ l ∈ ls, isHashComment l = false := by
  fun_induction tidyUpToQuote ls with
  | case1 => simp
  | case2 l =>
    have hlast : ∀ p : List Char → Prop, (∀ m ∈ [l].getLast?, p m) ↔ p l := by simp
    have hmem : ∀ p : List Char → Prop, (∀ m ∈ [l], p m) ↔ p l := by simp
    rw [hlast, hmem, hmem, ← removeCollation_eq_self_iff, List.cons.injEq]
    constructor
    · rintro ⟨hhash, hl, -⟩
      exact ⟨hl, by simp, hl ▸ hhash⟩
    · rintro ⟨hl, -, hhash⟩
      exact ⟨hl.symm ▸ hhash, hl, rfl⟩
  | case3 l l' ls ih =>
    rw [List.getLast?_cons_cons, List.cons.injEq, tidyLine_eq_self_iff, and_left_comm, ih,
      List.dropLast_cons_cons]
    constructor
    · rintro ⟨⟨hc, hb, hh⟩, hcs, hbs, hhs⟩
      exact ⟨List.forall_mem_cons.2 ⟨hc, hcs⟩, List.forall_mem_cons.2 ⟨hb, hbs⟩,
        List.forall_mem_cons.2 ⟨hh, hhs⟩⟩
    · rintro ⟨hc, hb, hh⟩
      obtain ⟨⟨hc, hcs⟩, hb, hbs⟩ := And.intro (List.forall_mem_cons.1 hc)
        (List.forall_mem_cons.1 hb)
      obtain ⟨hh, hhs⟩ := List.forall_mem_cons.1 hh
      exact ⟨⟨hc, hb, hh⟩, hcs, hbs, hhs⟩

theorem lines_tidyQuoted (cs : List Char) : lines (tidyQuoted cs) = tidyBetween (lines cs) := by
  obtain ⟨l, ls, hl⟩ := exists_lines_eq_cons cs
  have hno : ∀ {l : List Char}, '\n' ∉ l → '\n' ∉ removeCollation l := fun h hx =>
    h (removes_collation.subset _ hx)
  have hmore : ∀ ls : List (List Char), (∀ l ∈ ls, '\n' ∉ l) →
      ∀ l ∈ tidyUpToQuote ls, '\n' ∉ l := by
    intro ls hls
    fun_induction tidyUpToQuote ls with
    | case1 => exact hls
    | case2 l => exact List.forall_mem_singleton.2 (hno (hls l List.mem_cons_self))
    | case3 l l' ls ih =>
      obtain ⟨hl, hls⟩ := List.forall_mem_cons.1 hls
      exact List.forall_mem_cons.2 ⟨newline_notMem_tidyLine hl, ih hls⟩
  have hlines : ∀ l ∈ lines cs, '\n' ∉ l := fun l hl => newline_notMem_of_mem_lines hl
  rw [hl] at hlines
  obtain ⟨hfirst, hrest⟩ := List.forall_mem_cons.1 hlines
  rw [tidyQuoted, hl]
  exact lines_unlines (List.cons_ne_nil _ _)
    (List.forall_mem_cons.2 ⟨hno hfirst, hmore ls hrest⟩)

/-- **A text between quotes stays as it is, and keeps its closing quote, exactly if tidying finds
nothing in it.** -/
theorem isTidyQuoted_iff :
    IsTidyQuoted cs ↔ KeepsQuote (lines cs) ∧ tidyQuoted cs = cs := by
  have hself : tidyQuoted cs = cs ↔ tidyBetween (lines cs) = lines cs := by
    rw [← lines_tidyQuoted]
    refine ⟨congrArg lines, fun h => ?_⟩
    rw [← unlines_lines (tidyQuoted cs), h, unlines_lines]
  obtain ⟨l, ls, hl⟩ := exists_lines_eq_cons cs
  rw [hself, KeepsQuote, hl, List.tail_cons, tidyBetween, List.cons.injEq, and_left_comm,
    tidyUpToQuote_eq_self_iff, removeCollation_eq_self_iff]
  constructor
  · rintro ⟨hcollation, hbatch, hcomment⟩
    rw [hl] at hcollation hbatch hcomment
    exact ⟨hcollation l List.mem_cons_self, fun m hm => hcollation m (List.mem_cons_of_mem l hm),
      hbatch, hcomment⟩
  · rintro ⟨hfirst, hcollation, hbatch, hcomment⟩
    refine ⟨?_, ?_, ?_⟩ <;> rw [hl]
    · exact List.forall_mem_cons.2 ⟨hfirst, hcollation⟩
    · exact hbatch
    · exact hcomment

end Script
end SchemaScript
