import SchemaScript.Proofs.Script.Content
import SchemaScript.Proofs.Script.StatementLines

/-!
# Scripts behind each other

What a step does is decided on the line on which it is taken, so a script can be cut behind any
newline: the scanner reads the first part and goes on with the second where it then stands
(`Scanner.run_append_newline`).

Where it stands at rest (`Scanner.IsAtRest`), it reads on like a new scanner. It may have read
blanks since the last delimiter, and it is on another line, but blanks in front of a text neither
add to its content nor to its trimmed form, and the line of a statement is counted from its first
character. The two scanners therefore stay side by side (`Scanner.IsShifted`), step by step
(`Scanner.IsShifted.step`), and find the same statements, so many lines apart.
-/

namespace SchemaScript

/-- The statement so many lines further down. -/
def Statement.shift (lines : Nat) (st : Statement) : Statement :=
  { st with line := st.line + lines }

namespace Script
namespace Scanner

open Token (isFiller_of_allBlank)

/-! ## Cutting a script behind a newline -/

/-- The scanner behind the end of a line, which closes a comment. -/
def newline (s : Scanner) : Scanner :=
  { s.push '\n' with mode := if s.mode = .lineComment then .normal else s.mode }

/-- A newline is neither a directive nor a delimiter. -/
theorem step_newline {s : Scanner} (hd : '\n' ∉ s.delimiter.chars) (cs : List Char) :
    s.step '\n' cs = ⟨none, s.newline, cs⟩ := by
  have hstrip : Text.stripStart? s.delimiter.chars ('\n' :: cs) = none := by
    rw [← List.nil_append ('\n' :: cs), Text.stripStart?_append_cons hd]
    rfl
  have hkept : ({ s.push '\n' with mode := s.mode } : Scanner) = s.push '\n' := rfl
  rw [step, isDirective_newline_cons, Bool.false_and, if_neg Bool.false_ne_true, newline]
  cases hmode : s.mode with
  | normal => simp [stepNormal, hstrip, openedBy]
  | _ => simp [stepInside, hmode, closer?]; try rw [← hkept, hmode]

/-- **A step is decided by the line on which it is taken.** -/
theorem step_append_newline {s : Scanner} (hd : '\n' ∉ s.delimiter.chars) (c : Char)
    (a b : List Char) :
    s.step c (a ++ '\n' :: b) =
      ⟨(s.step c a).emitted, (s.step c a).scanner, (s.step c a).rest ++ '\n' :: b⟩ := by
  have hhead : ∀ {e : Char}, e ≠ '\n' → ((a ++ '\n' :: b).head? = some e ↔ a.head? = some e) :=
    fun he => Mode.head?_append_iff (by simpa using Ne.symm he) a
  have hopened : openedBy c (a ++ '\n' :: b) = openedBy c a := by
    simp only [openedBy, hhead (show '-' ≠ '\n' by decide)]
  have hdirective : isDirective (c :: (a ++ '\n' :: b)) = isDirective (c :: a) :=
    isDirective_append_newline (c :: a) b
  have hstrip : Text.stripStart? s.delimiter.chars (c :: (a ++ '\n' :: b)) =
      (Text.stripStart? s.delimiter.chars (c :: a)).map (· ++ '\n' :: b) :=
    Text.stripStart?_append_cons hd (c :: a) b
  simp only [step, hdirective]
  split
  · rw [Text.takeWhile_append_cons rfl, Text.dropWhile_append_cons rfl]
  split
  · simp only [stepNormal, hstrip, hopened, hhead (show '*' ≠ '\n' by decide)]
    cases Text.stripStart? s.delimiter.chars (c :: a) with
    | some rest => rfl
    | none =>
      simp only [Option.map_none]
      split
      · rename_i hopen
        rw [Mode.tail_append_of_head? hopen.2]
      · rfl
  · simp only [stepInside, hhead (show '/' ≠ '\n' by decide)]
    split
    · rename_i hclose
      rw [Mode.tail_append_of_head? hclose.2.2]
    · split <;> rfl

theorem newline_notMem_delimiter_step {s : Scanner} (hd : '\n' ∉ s.delimiter.chars) (c : Char)
    (cs : List Char) : '\n' ∉ (s.step c cs).scanner.delimiter.chars := by
  obtain ⟨w, -, hm⟩ := moves_step s c cs
  generalize (s.step c cs).scanner = s', (s.step c cs).emitted = emitted at hm
  cases hm with
  | directed hd' => exact hd'
  | passed => exact hd
  | delimited => exact hd
  | single he => exact he.delimiter ▸ hd
  | bracket _ _ he => exact he.delimiter ▸ hd

/-- **A script can be cut behind a newline.** -/
theorem run_append_newline {s : Scanner} (hd : '\n' ∉ s.delimiter.chars) (a b : List Char) :
    s.run (a ++ '\n' :: b) =
      ((s.run a).1 ++ ((s.run a).2.newline.run b).1, ((s.run a).2.newline.run b).2) := by
  fun_induction run s a with
  | case1 s => rw [List.nil_append, run_cons, step_newline hd]; rfl
  | case2 s c a ih =>
    rw [List.cons_append, run_cons, step_append_newline hd,
      ih (newline_notMem_delimiter_step hd c a), Prod.map_fst, Prod.map_snd, List.append_assoc]
    rfl

/-- Behind the end of a line the scanner goes on from where it stands. -/
theorem run_append_of_run {s s' : Scanner} {w : List Char} {found : List Statement}
    (hd : '\n' ∉ s.delimiter.chars) (hw : w.getLast? = some '\n') (h : s.run w = (found, s'))
    (cs : List Char) : s.run (w ++ cs) = (found ++ (s'.run cs).1, (s'.run cs).2) := by
  obtain ⟨a, rfl⟩ := List.getLast?_eq_some_iff.1 hw
  rw [run_append_newline hd, run_nil, List.append_nil, Prod.mk.injEq] at h
  obtain ⟨rfl, rfl⟩ := h
  rw [List.append_assoc]
  exact run_append_newline hd a cs

/-- What is tracked of one step is tracked of many. -/
theorem Tracks.run {s : Scanner} {read start : List Char} (h : s.Tracks read start)
    (cs : List Char) : ∃ start', (s.run cs).2.Tracks (read ++ cs) start' := by
  fun_induction Scanner.run s cs generalizing read start with
  | case1 s => exact ⟨start, by rwa [List.append_nil]⟩
  | case2 s c cs ih =>
    obtain ⟨w, hw, hm⟩ := moves_step s c cs
    have hbehind := ih (h.moves hm)
    rwa [List.append_assoc, hw] at hbehind

/-! ## Scanners side by side -/

/-- Whether a scanner does what another one does, so many lines further down, having read no more
than some blanks in front. -/
structure IsShifted (lines : Nat) (s s' : Scanner) : Prop where
  delimiter : s'.delimiter = s.delimiter
  mode : s'.mode = s.mode
  atLineStart : s'.atLineStart = s.atLineStart
  line : s'.line = s.line + lines
  begun : ∃ blanks, Text.allBlank blanks = true ∧ s'.text = blanks ++ s.text ∧
    s'.firstLine + countNewlines blanks = s.firstLine + lines

variable {lines : Nat} {s s' t t' : Scanner}

theorem IsShifted.hasContent (h : IsShifted lines s s') :
    Script.hasContent s'.text = Script.hasContent s.text := by
  obtain ⟨blanks, hblanks, htext, -⟩ := h.begun
  rw [htext, hasContent_append_of_isFiller (isFiller_of_allBlank hblanks)]

theorem IsShifted.expectsDirective (h : IsShifted lines s s') :
    s'.expectsDirective = s.expectsDirective := by
  rw [Scanner.expectsDirective, Scanner.expectsDirective, h.mode, h.atLineStart, h.hasContent]

/-- The statement that is pending is the same, but for its line. -/
theorem IsShifted.statement? (h : IsShifted lines s s') :
    s'.statement? = s.statement?.map (·.shift lines) := by
  obtain ⟨blanks, hblanks, htext, hfirst⟩ := h.begun
  have hall : ∀ c ∈ blanks, Text.isBlank c = true := List.all_eq_true.1 hblanks
  rw [Scanner.statement?, Scanner.statement?, h.hasContent]
  split
  · simp only [htext, Text.trim, Text.trimStart, List.dropWhile_append_of_pos hall,
      List.takeWhile_append_of_pos hall, countNewlines_append, Option.map_some, Statement.shift,
      Option.some.injEq, Statement.mk.injEq, true_and]
    omega
  · rfl

/-- Scanners that take in the same stay side by side. -/
theorem IsShifted.extend {w : List Char} (h : IsShifted lines s s') (he : s.Extends t w)
    (he' : s'.Extends t' w) (hmode : t'.mode = t.mode) (hstart : t'.atLineStart = t.atLineStart) :
    IsShifted lines t t' := by
  obtain ⟨blanks, hblanks, htext, hfirst⟩ := h.begun
  refine ⟨?_, hmode, hstart, ?_, blanks, hblanks, ?_, ?_⟩
  · rw [he'.delimiter, he.delimiter, h.delimiter]
  · rw [he'.line, he.line, h.line]
    omega
  · rw [he'.text, he.text, htext, List.append_assoc]
  · rw [he'.firstLine, he.firstLine, hfirst]

theorem IsShifted.push (h : IsShifted lines s s') (c : Char) (mode : Mode) :
    IsShifted lines { s.push c with mode := mode } { s'.push c with mode := mode } :=
  h.extend (extends_push s c mode) (extends_push s' c mode) rfl
    (by simp only [Scanner.push, h.atLineStart])

theorem IsShifted.pushBracket (h : IsShifted lines s s') {c d : Char} (hc : c ≠ '\n')
    (hd : d ≠ '\n') (mode : Mode) :
    IsShifted lines (s.pushBracket c d mode) (s'.pushBracket c d mode) :=
  h.extend (extends_pushBracket s hc hd mode) (extends_pushBracket s' hc hd mode) rfl
    (by simp only [Scanner.pushBracket, h.atLineStart])

/-- **A step keeps scanners side by side.** -/
theorem IsShifted.step (h : IsShifted lines s s') (c : Char) (cs : List Char) :
    (s'.step c cs).emitted = (s.step c cs).emitted.map (·.shift lines) ∧
      IsShifted lines (s.step c cs).scanner (s'.step c cs).scanner ∧
      (s'.step c cs).rest = (s.step c cs).rest := by
  simp only [Scanner.step, h.expectsDirective, h.mode]
  split
  · refine ⟨rfl, ?_, rfl⟩
    simp only [direct]
    split
    · exact ⟨rfl, h.mode, h.atLineStart, h.line, [], rfl, rfl, h.line⟩
    · exact h
  split
  · simp only [stepNormal, h.delimiter]
    split
    · exact ⟨h.statement?, ⟨h.delimiter, h.mode, rfl, h.line, [], rfl, rfl, h.line⟩, rfl⟩
    split
    · rename_i hopen
      exact ⟨rfl, h.pushBracket (by rw [hopen.1]; decide) (by decide) _, rfl⟩
    · exact ⟨rfl, h.push c _, rfl⟩
  · simp only [stepInside, h.mode]
    split
    · rename_i hclose
      exact ⟨rfl, h.pushBracket (by rw [hclose.2.1]; decide) (by decide) _, rfl⟩
    split
    · exact ⟨rfl, h.push c _, rfl⟩
    · have hpush := h.push c s.mode
      rw [show ({ s'.push c with mode := s.mode } : Scanner) = s'.push c by rw [← h.mode]; rfl]
        at hpush
      exact ⟨rfl, hpush, rfl⟩

/-- **Scanners side by side find the same statements.** -/
theorem IsShifted.statements (h : IsShifted lines s s') (cs : List Char) :
    s'.statements cs = (s.statements cs).map (·.shift lines) := by
  fun_induction Scanner.statements s cs generalizing s' with
  | case1 s =>
    rw [statements_nil, h.statement?]
    cases s.statement? <;> rfl
  | case2 s c cs ih =>
    obtain ⟨hemitted, hscanner, hrest⟩ := h.step c cs
    rw [statements_cons, hemitted, hrest, ih hscanner, List.map_append]
    cases (s.step c cs).emitted <;> rfl

/-! ## Scanners at rest -/

/-- Whether a scanner stands outside quotes and comments, where a semicolon ends statements, and
has read no more than blanks since the last delimiter. -/
structure IsAtRest (s : Scanner) : Prop where
  delimiter : s.delimiter = .semicolon
  mode : s.mode = .normal
  text : Text.allBlank s.text = true

/-- Blanks are no statement. -/
theorem IsAtRest.statement? (h : s.IsAtRest) : s.statement? = none := by
  rw [Scanner.statement?, hasContent_of_allBlank h.text, if_neg Bool.false_ne_true]

/-- **At rest at the beginning of a line a scanner is like a new one** on another line. -/
theorem IsAtRest.isShifted {read start : List Char} (h : s.IsAtRest) (hstart : s.atLineStart = true)
    (htracks : s.Tracks read start) : IsShifted (countNewlines read) {} s := by
  refine ⟨h.delimiter, h.mode, hstart, htracks.line, s.text, h.text, (List.append_nil _).symm, ?_⟩
  rw [htracks.firstLine, htracks.line]

end Scanner

open Scanner

/-- What stands behind a part of a script at whose end a scanner is at rest is cut by itself. -/
theorem statements_append_of_run {w : List Char} {found : List Statement} {s : Scanner}
    (hw : w.getLast? = some '\n') (hrun : ({} : Scanner).run w = (found, s)) (hs : s.IsAtRest)
    (cs : List Char) :
    ({} : Scanner).statements (w ++ cs) =
      found ++ (({} : Scanner).statements cs).map (·.shift (countNewlines w)) := by
  have hd : '\n' ∉ ({} : Scanner).delimiter.chars := by decide
  have htracks : ({} : Scanner).Tracks [] [] := ⟨hd, rfl, rfl, fun hblank => by cases hblank⟩
  obtain ⟨start, hread⟩ := htracks.run w
  rw [List.nil_append, hrun] at hread
  have hstart : s.atLineStart = true := by
    obtain ⟨a, rfl⟩ := List.getLast?_eq_some_iff.1 hw
    rw [run_append_newline hd, run_nil] at hrun
    rw [← (Prod.mk.inj hrun).2]
    rfl
  rw [statements_eq_run, run_append_of_run hd hw hrun, List.append_assoc, ← statements_eq_run,
    (hs.isShifted hstart hread).statements]

/-- **Scripts behind each other are cut one by one.** Where the first script ends in a newline and
leaves the scanner outside quotes and comments, with the semicolon for a delimiter and nothing but
blanks read since the last one, the statements of the second script are those that it has alone,
on lines further down. -/
theorem statements_append {a : String} (b : String) (hend : a.toList.getLast? = some '\n')
    (h : (({} : Scanner).run a.toList).2.IsAtRest) :
    statements (a ++ b) =
      statements a ++ (statements b).map (·.shift (countNewlines a.toList)) := by
  rw [statements, statements, statements, String.toList_append, statements_eq_run _ a.toList,
    h.statement?, Option.toList_none, List.append_nil]
  exact statements_append_of_run hend rfl h b.toList

/-- A script that changes the delimiter and changes it back, and ends in an empty line behind its
last semicolon. -/
def restingScript : String :=
  "-- note\nDELIMITER $$\nSELECT ';' $$\nDELIMITER ;\nSELECT \"'\";\n\t\n"

/-- A script with a directive of its own begins on the seventh line. -/
theorem statements_append_restingScript : restingScript.toList.getLast? = some '\n' ∧
    (({} : Scanner).run restingScript.toList).2.IsAtRest ∧
    statements (restingScript ++ " /* ; */\nDELIMITER //\nA;B // C") =
      [⟨"SELECT ';'", 3⟩, ⟨"SELECT \"'\"", 5⟩, ⟨"A;B", 9⟩, ⟨"C", 9⟩] := by
  have hend : restingScript.toList.getLast? = some '\n' := by decide +kernel
  have hrest : (({} : Scanner).run restingScript.toList).2.IsAtRest :=
    ⟨by decide +kernel, by decide +kernel, by decide +kernel⟩
  refine ⟨hend, hrest, ?_⟩
  rw [statements_append _ hend hrest]
  decide +kernel

end Script
end SchemaScript
