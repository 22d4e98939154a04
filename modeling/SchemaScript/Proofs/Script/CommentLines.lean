import SchemaScript.Proofs.Script.Composition
import SchemaScript.Script.Contents

/-!
# Scripts of comments

A script in which each line begins with two hyphens holds nothing (`Contents.ofScript_of_comments`):
no table, no dropped name and nothing to report. What else stands in the lines makes no difference,
neither a collation nor a directive. Tidying leaves the hyphens at the beginning of a line, since
it removes only what has an indent in front of it (`Script.prefix_tidiedLine`). The scanner is in
the mode of a comment behind the hyphens and leaves it at the end of the line, so it never stands
at a delimiter and never expects a directive (`Script.Scanner.exists_run_comments`); and what it
has read is filler in the end (`Script.IsComments.isFiller`).

Whether each line of a text begins with a given text that has no newline is decided by its
beginning and by what follows each newline, that is, by the lines below the first
(`Script.eachLineBegins_iff`). For these it makes no difference if quotes are doubled or something
stands in front of the text or behind it, unless that could be part of the beginning.
-/

namespace SchemaScript
namespace Script

open Token (IsFiller)

/-! ## How lines begin -/

/-- Each line of the text begins with the given text. -/
def EachLineBegins (start cs : List Char) : Prop :=
  ∀ l ∈ lines cs, start <+: l

/-- Each line of the text below the first begins with the given text. -/
def LowerLinesBegin (start cs : List Char) : Prop :=
  ∀ l ∈ (lines cs).tail, start <+: l

instance (start cs : List Char) : Decidable (EachLineBegins start cs) :=
  inferInstanceAs (Decidable (∀ l ∈ lines cs, start <+: l))

instance (start cs : List Char) : Decidable (LowerLinesBegin start cs) :=
  inferInstanceAs (Decidable (∀ l ∈ (lines cs).tail, start <+: l))

variable {start cs : List Char}

theorem eachLineBegins_append_newline (a b : List Char) :
    EachLineBegins start (a ++ '\n' :: b) ↔ EachLineBegins start a ∧ EachLineBegins start b := by
  rw [EachLineBegins, lines_append_newline, List.forall_mem_append, ← EachLineBegins,
    ← EachLineBegins]

theorem lowerLinesBegin_newline_cons :
    LowerLinesBegin start ('\n' :: cs) ↔ EachLineBegins start cs := by
  rw [LowerLinesBegin, lines_newline_cons, List.tail_cons, ← EachLineBegins]

theorem lowerLinesBegin_cons_of_ne {c : Char} (hc : c ≠ '\n') :
    LowerLinesBegin start (c :: cs) ↔ LowerLinesBegin start cs := by
  obtain ⟨l, ls, hl⟩ := exists_lines_eq_cons cs
  rw [LowerLinesBegin, LowerLinesBegin, lines_cons_of_ne hc hl, hl, List.tail_cons, List.tail_cons]

/-- The first line begins as the text does. -/
theorem eachLineBegins_iff (hstart : '\n' ∉ start) :
    EachLineBegins start cs ↔ start <+: cs ∧ LowerLinesBegin start cs := by
  obtain ⟨l, ls, hl⟩ := exists_lines_eq_cons cs
  have hfirst : start <+: cs ↔ start <+: l := by
    rw [← unlines_lines cs, hl]
    cases ls with
    | nil => exact Iff.rfl
    | cons l' ls =>
      rw [unlines_cons (List.cons_ne_nil _ _)]
      exact Text.prefix_append_cons_iff hstart l _
  rw [EachLineBegins, LowerLinesBegin, hl, List.forall_mem_cons, List.tail_cons, hfirst]

theorem lowerLinesBegin_append_of_notMem {a : List Char} (ha : '\n' ∉ a) (cs : List Char) :
    LowerLinesBegin start (a ++ cs) ↔ LowerLinesBegin start cs := by
  induction a with
  | nil => exact Iff.rfl
  | cons c a ih =>
    rw [List.mem_cons, not_or] at ha
    rw [List.cons_append, lowerLinesBegin_cons_of_ne (Ne.symm ha.1), ih ha.2]

theorem lowerLinesBegin_concat (hstart : '\n' ∉ start) {c : Char} (hc : c ∉ start)
    (hnewline : c ≠ '\n') (cs : List Char) :
    LowerLinesBegin start (cs ++ [c]) ↔ LowerLinesBegin start cs := by
  induction cs with
  | nil => rw [List.nil_append, lowerLinesBegin_cons_of_ne hnewline]
  | cons d cs ih =>
    by_cases hd : d = '\n'
    · rw [hd, List.cons_append, lowerLinesBegin_newline_cons, lowerLinesBegin_newline_cons,
        eachLineBegins_iff hstart, eachLineBegins_iff hstart, ih, Text.prefix_append_cons_iff hc]
    · rw [List.cons_append, lowerLinesBegin_cons_of_ne hd, lowerLinesBegin_cons_of_ne hd, ih]

theorem prefix_double_iff {q : Char} (hq : q ∉ start) (cs : List Char) :
    start <+: Text.double q cs ↔ start <+: cs := by
  induction cs generalizing start with
  | nil => exact Iff.rfl
  | cons c cs ih =>
    cases start with
    | nil => simp
    | cons s start =>
      rw [List.mem_cons, not_or] at hq
      by_cases hc : c = q
      · simp [hc, Ne.symm hq.1]
      · rw [Text.double_cons_of_ne hc, List.cons_prefix_cons, List.cons_prefix_cons, ih hq.2]

theorem lowerLinesBegin_double (hstart : '\n' ∉ start) {q : Char} (hq : q ∉ start)
    (hnewline : q ≠ '\n') (cs : List Char) :
    LowerLinesBegin start (Text.double q cs) ↔ LowerLinesBegin start cs := by
  induction cs with
  | nil => exact Iff.rfl
  | cons c cs ih =>
    by_cases hc : c = q
    · rw [hc, Text.double_quote, lowerLinesBegin_cons_of_ne hnewline,
        lowerLinesBegin_cons_of_ne hnewline, lowerLinesBegin_cons_of_ne hnewline, ih]
    rw [Text.double_cons_of_ne hc]
    by_cases hd : c = '\n'
    · rw [hd, lowerLinesBegin_newline_cons, lowerLinesBegin_newline_cons,
        eachLineBegins_iff hstart, eachLineBegins_iff hstart, ih, prefix_double_iff hq]
    · rw [lowerLinesBegin_cons_of_ne hd, lowerLinesBegin_cons_of_ne hd, ih]

/-! ## Lines of comments -/

/-- A text of line comments, the last of which has no newline behind it. -/
inductive IsComments : List Char → Prop where
  | last {body : List Char} (hbody : '\n' ∉ body) : IsComments ('-' :: '-' :: body)
  | more {body cs : List Char} (hbody : '\n' ∉ body) (hcs : IsComments cs) :
    IsComments ('-' :: '-' :: (body ++ '\n' :: cs))

theorem isComments_of_eachLineBegins (h : EachLineBegins ['-', '-'] cs) : IsComments cs := by
  have hno : ∀ l ∈ lines cs, '\n' ∉ l := fun l hl => newline_notMem_of_mem_lines hl
  have hne := lines_ne_nil cs
  rw [EachLineBegins] at h
  rw [← unlines_lines cs]
  generalize lines cs = ls at h hno hne
  fun_induction unlines ls with
  | case1 => exact absurd rfl hne
  | case2 l =>
    obtain ⟨body, rfl⟩ := h l List.mem_cons_self
    have hbody : '\n' ∉ body := fun hmem => hno _ List.mem_cons_self (by simp [hmem])
    exact .last hbody
  | case3 l ls hls ih =>
    rw [List.forall_mem_cons] at h hno
    obtain ⟨⟨body, rfl⟩, h⟩ := h
    have hbody : '\n' ∉ body := fun hmem => hno.1 (by simp [hmem])
    exact .more hbody (ih h hno.2 fun hnil => hls hnil)

/-- Tidying leaves the hyphens of a comment where they are. -/
theorem prefix_tidiedLine {line : List Char} (h : ['-', '-'] <+: line) (first last : Bool) :
    ['-', '-'] <+: tidiedLine first last line := by
  obtain ⟨body, rfl⟩ := h
  have hmark : (if first then dropByteOrderMark ('-' :: '-' :: body) else '-' :: '-' :: body) =
      '-' :: '-' :: body := ite_self _
  have htidy : ∀ rest, ['-', '-'] <+: tidyLine ('-' :: '-' :: rest) := by
    intro rest
    have hplain : removeCollation ('-' :: '-' :: rest) = '-' :: '-' :: removeCollation rest := by
      rw [removes_collation.kept rfl, removes_collation.kept rfl]
    rw [tidyLine]
    simp only [hplain]
    exact ⟨_, rfl⟩
  have hreturn : withoutReturn ('-' :: '-' :: body) = '-' :: '-' :: withoutReturn body := by
    rw [withoutReturn_cons (Or.inr (by decide)), withoutReturn_cons (Or.inr (by decide))]
  simp only [tidiedLine, List.cons_append, List.nil_append]
  rw [hmark]
  cases last with
  | true => exact htidy body
  | false =>
    rw [if_neg Bool.false_ne_true, hreturn]
    exact htidy _

theorem eachLineBegins_tidyChars (h : EachLineBegins ['-', '-'] cs) :
    EachLineBegins ['-', '-'] (tidyChars cs) := by
  intro l hl
  obtain ⟨k, hk⟩ := List.mem_iff_getElem?.1 hl
  rw [getElem?_lines_tidyChars] at hk
  obtain ⟨line, hline, rfl⟩ := Option.map_eq_some_iff.1 hk
  exact prefix_tidiedLine (h line (List.mem_of_getElem? hline)) _ _

/-- Lines of comments are filler, the end of the text ending the last of them. -/
theorem IsComments.isFiller (h : IsComments cs) : IsFiller (cs ++ ['\n']) := by
  induction h with
  | last hbody => exact .lineComment hbody .nil
  | @more body cs hbody _ ih =>
    have happ : '-' :: '-' :: (body ++ '\n' :: cs) ++ ['\n'] =
        '-' :: '-' :: (body ++ '\n' :: (cs ++ ['\n'])) := by simp
    rw [happ]
    exact .lineComment hbody ih

/-! ## The scanner in comments -/

namespace Scanner

/-- The rest of a line is taken into the comment that stands on it. -/
theorem exists_run_commentBody {s : Scanner} {body : List Char} (hmode : s.mode = .lineComment)
    (hbody : '\n' ∉ body) :
    ∃ s', s.run body = ([], s') ∧ s.Extends s' body ∧ s'.mode = .lineComment := by
  induction body generalizing s with
  | nil => exact ⟨s, run_nil s, ⟨(List.append_nil _).symm, rfl, rfl, rfl⟩, hmode⟩
  | cons c body ih =>
    rw [List.mem_cons, not_or] at hbody
    have hstep : s.step c body = ⟨none, { s.push c with mode := .lineComment }, body⟩ := by
      rw [step, expectsDirective, hmode, ← hmode]
      simp [stepInside, hmode, closer?, hbody.1, push]
    obtain ⟨s', hrun, hs', hmode'⟩ := ih (s := { s.push c with mode := .lineComment }) rfl hbody.2
    refine ⟨s', ?_, (extends_push s c .lineComment).trans hs', hmode'⟩
    rw [run_cons, hstep, hrun]
    rfl

/-- A comment is opened and taken in. -/
theorem exists_run_comment {s : Scanner} {body : List Char} (hmode : s.mode = .normal)
    (hdelim : s.delimiter = .semicolon) (hbody : '\n' ∉ body) :
    ∃ s', s.run ('-' :: '-' :: body) = ([], s') ∧ s.Extends s' ('-' :: '-' :: body) ∧
      s'.mode = .lineComment := by
  have hdirective : isDirective ('-' :: '-' :: body) = false := rfl
  have hstrip : Text.stripStart? s.delimiter.chars ('-' :: '-' :: body) = none := by
    rw [hdelim]
    rfl
  have hstep : s.step '-' ('-' :: body) =
      ⟨none, { s.push '-' with mode := .lineComment }, '-' :: body⟩ := by
    rw [step, hdirective, Bool.false_and, if_neg Bool.false_ne_true, if_pos hmode, stepNormal,
      hstrip]
    rfl
  have hhyphen : '\n' ∉ '-' :: body := by
    rw [List.mem_cons, not_or]
    exact ⟨by decide, hbody⟩
  obtain ⟨s', hrun, hs', hmode'⟩ :=
    exists_run_commentBody (s := { s.push '-' with mode := .lineComment }) rfl hhyphen
  refine ⟨s', ?_, (extends_push s '-' .lineComment).trans hs', hmode'⟩
  rw [run_cons, hstep, hrun]
  rfl

/-- **No statement ends in lines of comments**, and all of them are pending in the end. -/
theorem exists_run_comments {s : Scanner} (hmode : s.mode = .normal)
    (hdelim : s.delimiter = .semicolon) (h : IsComments cs) :
    ∃ s', s.run cs = ([], s') ∧ s'.text = s.text ++ cs := by
  induction h generalizing s with
  | last hbody =>
    obtain ⟨s', hrun, hs', -⟩ := exists_run_comment hmode hdelim hbody
    exact ⟨s', hrun, hs'.text⟩
  | @more body cs hbody _ ih =>
    obtain ⟨s₁, hrun, hs₁, hmode₁⟩ := exists_run_comment hmode hdelim hbody
    have hnewline : s₁.newline.mode = .normal := by
      rw [newline, hmode₁]
      rfl
    obtain ⟨s', hrun', htext⟩ := ih hnewline (hs₁.delimiter.trans hdelim)
    refine ⟨s', ?_, ?_⟩
    · rw [← List.cons_append, ← List.cons_append, run_append_newline (by rw [hdelim]; decide), hrun,
        hrun']
      rfl
    · have hline : s₁.newline.text = s₁.text ++ ['\n'] := (extends_push s₁ '\n' _).text
      rw [htext, hline, hs₁.text]
      simp

end Scanner

/-- There are no statements in lines of comments. -/
theorem statements_of_comments {script : String}
    (h : IsComments script.toList) : statements script = [] := by
  obtain ⟨s', hrun, htext⟩ := Scanner.exists_run_comments (s := {}) rfl rfl h
  have hempty : hasContent s'.text = false := by
    rw [htext, hasContent_eq_false_iff_isFiller]
    exact h.isFiller
  rw [statements, Scanner.statements_eq_run, hrun, Scanner.statement?, hempty]
  rfl

end Script

/-- **A script of comments holds nothing**, and there is nothing to report about it. -/
theorem Contents.ofScript_of_comments {script : String}
    (h : Script.EachLineBegins ['-', '-'] script.toList) :
    Contents.ofScript script = { tables := [], dropped := [], notices := [] } := by
  have htidy : Script.IsComments (Script.tidy script).toList := by
    rw [Script.tidy, String.toList_ofList]
    exact Script.isComments_of_eachLineBegins (Script.eachLineBegins_tidyChars h)
  rw [ofScript, Script.statements_of_comments htidy]
  rfl

end SchemaScript
