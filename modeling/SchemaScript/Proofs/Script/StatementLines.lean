import SchemaScript.Proofs.Script.Accounts
import SchemaScript.Proofs.Script.Content
import SchemaScript.Proofs.Script.Run
import SchemaScript.Proofs.Script.TidyLines
import SchemaScript.Proofs.Text.Blanks

/-!
# The line of a statement

A scanner counts lines in two ways: the line of the next character, and the line on which the
pending text begins. Neither says where a statement begins, which is known only when its first
character that is not blank is read. `Scanner.located` therefore repeats the scan and notes, with
each statement, what had been read in front of that character.

One step follows a directive, passes over a directive without a delimiter, ends a statement at
the delimiter or takes in characters (`Scanner.moves_step`). What every step keeps is that both
counts agree with the newlines read (`Scanner.Tracks`), and so the line of every statement is one
more than the newlines in front of it (`Scanner.begins_of_mem_located`).

Tidying keeps the number of newlines in front of every line, so the line that is reported for a
skipped statement is its line in the script as it was given (`Contents.line_of_skippedStatement`).
-/

namespace SchemaScript

namespace Script

/-! ## What a step does -/

namespace Scanner

variable {s s' : Scanner} {c : Char} {cs w read start : List Char}

/-- What a step does with the text in front of a scanner: what it takes of the text, the
statement that ends there, and the scanner behind it. -/
inductive Moves (s : Scanner) (c : Char) (cs : List Char) :
    List Char → Option Statement → Scanner → Prop where
  /-- A directive line gives a delimiter. -/
  | directed {d : Delimiter} (hd : '\n' ∉ d.chars) :
    Moves s c cs ((c :: cs).takeWhile (· != '\n')) none { s.restart with delimiter := d }
  /-- A directive line without a delimiter is passed over. -/
  | passed (hline : isDirective (c :: cs) = true)
    (hd : newDelimiter? ((c :: cs).takeWhile (· != '\n')) = none) :
    Moves s c cs ((c :: cs).takeWhile (· != '\n')) none s
  /-- The delimiter ends a statement. -/
  | delimited : Moves s c cs s.delimiter.chars s.statement? { s.restart with atLineStart := false }
  /-- A character is taken in. -/
  | single {s' : Scanner} (h : s.Extends s' [c]) : Moves s c cs [c] none s'
  /-- The bracket of a comment is taken in. -/
  | bracket {s' : Scanner} {d : Char} (hc : Text.isBlank c = false) (hd : d ≠ '\n')
    (h : s.Extends s' [c, d]) : Moves s c cs [c, d] none s'

theorem isDirective_newline_cons (cs : List Char) : isDirective ('\n' :: cs) = false := rfl

/-- A delimiter is a word, which has no newline in it. -/
theorem newline_notMem_of_newDelimiter? {line : List Char} {d : Delimiter}
    (h : newDelimiter? line = some d) : '\n' ∉ d.chars := by
  unfold newDelimiter? at h
  split at h
  · rename_i first c cs more hwords
    cases h
    intro hmem
    have hword : c :: cs ∈ Text.words line := by
      rw [hwords]
      exact List.mem_cons_of_mem _ List.mem_cons_self
    have hblank := Text.isBlank_of_mem_words hword hmem
    cases hblank
  · cases h

/-- **Every step is one of the moves.** -/
theorem moves_step (s : Scanner) (c : Char) (cs : List Char) :
    ∃ w, w ++ (s.step c cs).rest = c :: cs ∧
      s.Moves c cs w (s.step c cs).emitted (s.step c cs).scanner := by
  unfold step
  split
  · rename_i hdirective
    rw [Bool.and_eq_true] at hdirective
    have hc : c ≠ '\n' := by
      rintro rfl
      rw [isDirective_newline_cons] at hdirective
      cases hdirective.1
    have hline : (c :: cs).takeWhile (· != '\n') = c :: cs.takeWhile (· != '\n') := by
      rw [List.takeWhile_cons_of_pos (by simpa using hc)]
    refine ⟨c :: cs.takeWhile (· != '\n'), ?_, ?_⟩
    · rw [List.cons_append, List.takeWhile_append_dropWhile]
    · rw [← hline]
      simp only [direct]
      split
      · rename_i d hd
        exact .directed (newline_notMem_of_newDelimiter? hd)
      · rename_i hd
        exact .passed hdirective.1 hd
  split
  · unfold stepNormal
    split
    · rename_i rest hrest
      exact ⟨s.delimiter.chars, (Text.stripStart?_eq_some_iff.1 hrest).symm, .delimited⟩
    split
    · rename_i hopen
      obtain ⟨rfl, hstar⟩ := hopen
      obtain ⟨more, rfl⟩ := List.head?_eq_some_iff.1 hstar
      exact ⟨['/', '*'], rfl,
        .bracket (by decide) (by decide) (extends_pushBracket s (by decide) (by decide) _)⟩
    · exact ⟨[c], rfl, .single (extends_push s c _)⟩
  · unfold stepInside
    split
    · rename_i hclose
      obtain ⟨-, rfl, hslash⟩ := hclose
      obtain ⟨more, rfl⟩ := List.head?_eq_some_iff.1 hslash
      exact ⟨['*', '/'], rfl,
        .bracket (by decide) (by decide) (extends_pushBracket s (by decide) (by decide) _)⟩
    split
    · exact ⟨[c], rfl, .single (extends_push s c _)⟩
    · exact ⟨[c], rfl, .single (extends_push s c s.mode)⟩

/-! ## Where statements begin -/

/-- Reading a text off the beginning of another one: characters are taken over, and lines with a
directive that gives no delimiter are left out. -/
inductive ReadOff : List Char → List Char → Prop where
  | first (c : Char) : ReadOff [c] [c]
  | next {source text : List Char} (h : ReadOff source text) (c : Char) :
    ReadOff (source ++ [c]) (text ++ [c])
  | directive {source text : List Char} (h : ReadOff source text) {cs : List Char}
    (hline : isDirective cs = true) (hd : newDelimiter? (cs.takeWhile (· != '\n')) = none) :
    ReadOff (source ++ cs.takeWhile (· != '\n')) text

/-- What is read off begins with the same character. -/
theorem ReadOff.head? {source text : List Char} (h : ReadOff source text) :
    ∃ c, source.head? = some c ∧ text.head? = some c := by
  induction h with
  | first c => exact ⟨c, rfl, rfl⟩
  | next h c ih =>
    obtain ⟨d, hsource, htext⟩ := ih
    exact ⟨d, by simp [hsource], by simp [htext]⟩
  | directive h hline hd ih =>
    obtain ⟨d, hsource, htext⟩ := ih
    exact ⟨d, by simp [hsource], htext⟩

/-- The statements that a scanner finds in a text, each with what has been read in front of its
first character that is not blank. So far `read` has been read, and `start` in front of the first
such character of the pending text. -/
def located (s : Scanner) (read start cs : List Char) : List (Statement × List Char) :=
  match cs with
  | [] => s.statement?.toList.map fun st => (st, start)
  | c :: cs =>
    let start := if Text.allBlank s.text then read else start
    (s.step c cs).emitted.toList.map (fun st => (st, start)) ++
      located (s.step c cs).scanner
        (read ++ (c :: cs).take ((c :: cs).length - (s.step c cs).rest.length)) start
        (s.step c cs).rest
termination_by cs.length
decreasing_by exact Nat.lt_succ_of_le (step_rest_suffix s c cs).length_le

/-- Noting where statements begin changes none of them. -/
theorem map_fst_located (s : Scanner) (read start cs : List Char) :
    (s.located read start cs).map Prod.fst = s.statements cs := by
  fun_induction located s read start cs with
  | case1 s read start =>
    rw [statements_nil]
    cases s.statement? <;> rfl
  | case2 s read start c cs start' ih =>
    rw [statements_cons, List.map_append, ih]
    cases (s.step c cs).emitted <;> rfl

/-- Whether, of a text that begins on a line, the first character that is not blank was read
behind `start`, if there is one: the text from there on is what was read since. -/
def Begun (firstLine : Nat) (text read start : List Char) : Prop :=
  Text.allBlank text = false →
    ∃ source, read = start ++ source ∧ ReadOff source (Text.trimStart text) ∧
      firstLine + countNewlines (text.takeWhile Text.isBlank) = 1 + countNewlines start

/-- One more character either begins the text or goes on with it. -/
theorem Begun.snoc {firstLine : Nat} {text read start : List Char}
    (h : Begun firstLine text read start)
    (hline : firstLine + countNewlines text = 1 + countNewlines read) (c : Char) :
    Begun firstLine (text ++ [c]) (read ++ [c]) (if Text.allBlank text then read else start) := by
  intro hbegun
  cases hblank : Text.allBlank text with
  | true =>
    have hall : ∀ d ∈ text, Text.isBlank d = true := List.all_eq_true.1 hblank
    have hc : Text.isBlank c = false := by
      rw [Text.allBlank, List.all_append, ← Text.allBlank, hblank, Bool.true_and] at hbegun
      simpa using hbegun
    have hstop : Text.Stops Text.isBlank [c] := Text.stops_cons.2 hc
    refine ⟨[c], rfl, ?_, ?_⟩
    · rw [Text.trimStart, Text.dropWhile_append_of_stops hall hstop]
      exact .first c
    · rw [Text.takeWhile_append_of_stops hall hstop]
      exact hline
  | false =>
    obtain ⟨source, hread, hsource, hfirst⟩ := h hblank
    have hsome : ¬ ∀ d ∈ text, Text.isBlank d = true := by
      intro hall
      rw [Text.allBlank, List.all_eq_true.2 hall] at hblank
      cases hblank
    have hdrop : (text.dropWhile Text.isBlank).isEmpty = false := by
      rw [List.isEmpty_eq_false_iff]
      exact fun hnil => hsome (List.dropWhile_eq_nil_iff.1 hnil)
    refine ⟨source ++ [c], by rw [hread, List.append_assoc]; rfl, ?_, ?_⟩
    · rw [Text.trimStart, List.dropWhile_append, hdrop]
      exact hsource.next c
    · rw [Text.takeWhile_append_of_not_allBlank hblank]
      exact hfirst

/-- What a scanner knows of the lines it has read: the line of the next character, the line on
which the pending text begins, and where its first character that is not blank stands. -/
structure Tracks (s : Scanner) (read start : List Char) : Prop where
  delimiter : '\n' ∉ s.delimiter.chars
  line : s.line = 1 + countNewlines read
  firstLine : s.firstLine + countNewlines s.text = s.line
  begun : Begun s.firstLine s.text read start

/-- A scanner that starts again knows its lines, if what it left out has no newline. -/
theorem Tracks.restart (h : s.Tracks read start) (s' : Scanner) (hw : '\n' ∉ w)
    (hs' : s'.pending = [])
    (hfirst : s'.firstLine = s.line) (hline : s'.line = s.line) (hd : '\n' ∉ s'.delimiter.chars)
    (start' : List Char) : s'.Tracks (read ++ w) start' := by
  have htext : s'.text = [] := by rw [text, hs', List.reverse_nil]
  refine ⟨hd, ?_, ?_, ?_⟩
  · rw [hline, h.line, countNewlines_append, countNewlines_of_notMem hw, Nat.add_zero]
  · rw [htext, hfirst, hline]
    rfl
  · rw [htext]
    intro hblank
    cases hblank

/-- A scanner that takes in a character knows its lines. -/
theorem Tracks.extend {start' : List Char} (h : s.Tracks read start) (he : s.Extends s' w)
    (hbegun : Begun s.firstLine (s.text ++ w) (read ++ w) start') :
    s'.Tracks (read ++ w) start' := by
  refine ⟨he.delimiter ▸ h.delimiter, ?_, ?_, ?_⟩
  · rw [he.line, h.line, countNewlines_append, Nat.add_assoc]
  · rw [he.firstLine, he.text, he.line, ← h.firstLine, countNewlines_append, Nat.add_assoc]
  · rw [he.firstLine, he.text]
    exact hbegun

/-- **Every move keeps track of lines.** The pending text begins with the first character that is
not blank, so its place is open as long as there is none. -/
theorem Tracks.moves {emitted : Option Statement} (h : s.Tracks read start)
    (hm : s.Moves c cs w emitted s') :
    s'.Tracks (read ++ w) (if Text.allBlank s.text then read else start) := by
  have hline : s.firstLine + countNewlines s.text = 1 + countNewlines read :=
    h.firstLine.trans h.line
  have hdirective : '\n' ∉ (c :: cs).takeWhile (· != '\n') := fun hmem => by
    simpa using List.mem_takeWhile_imp hmem
  cases hm with
  | @directed d hd =>
    exact h.restart { s.restart with delimiter := d } hdirective rfl rfl rfl hd _
  | passed hpassed hd =>
    refine ⟨h.delimiter, ?_, h.firstLine, fun hbegun => ?_⟩
    · rw [h.line, countNewlines_append, countNewlines_of_notMem hdirective, Nat.add_zero]
    · obtain ⟨source, hread, hsource, hfirst⟩ := h.begun hbegun
      rw [hbegun, if_neg Bool.false_ne_true]
      exact ⟨_, by rw [hread, List.append_assoc], hsource.directive hpassed hd, hfirst⟩
  | delimited =>
    exact h.restart { s.restart with atLineStart := false } h.delimiter rfl rfl rfl
      h.delimiter _
  | single he => exact h.extend he (h.begun.snoc hline c)
  | @bracket _ d hc hd he =>
    have hfirst := h.begun.snoc hline c
    have hsolid : Text.allBlank (s.text ++ [c]) = false := by
      simp [Text.allBlank, hc]
    have hboth := hfirst.snoc (by simp only [countNewlines_append]; omega) d
    rw [hsolid, if_neg Bool.false_ne_true, List.append_assoc, List.append_assoc] at hboth
    exact h.extend he hboth

/-- Where a statement stands in a script: what is in front of it, the text that it was read off,
and the line on which that begins. -/
structure Begins (script : List Char) (st : Statement) (start : List Char) : Prop where
  line : st.line = 1 + countNewlines start
  head : ∃ c, st.text.toList.head? = some c ∧ Text.isBlank c = false
  source : ∃ source blanks rest, script = start ++ (source ++ rest) ∧
    ReadOff source (st.text.toList ++ blanks) ∧ Text.allBlank blanks = true

/-- Behind what is in front of a statement stands its first character. -/
theorem Begins.exists_head? {script : List Char} {st : Statement} (h : Begins script st start) :
    ∃ rest, script = start ++ rest ∧ rest.head? = st.text.toList.head? := by
  obtain ⟨c, hc, -⟩ := h.head
  obtain ⟨source, blanks, rest, hscript, hsource, -⟩ := h.source
  obtain ⟨d, hd, htext⟩ := hsource.head?
  refine ⟨source ++ rest, hscript, ?_⟩
  rw [List.head?_append, hc, Option.some_or] at htext
  rw [List.head?_append, hd, hc, Option.some_or, htext]

/-- A statement that ends where a scanner stands begins where the scanner knows it to. -/
theorem Tracks.begins {st : Statement} (h : s.Tracks read start) (hst : st ∈ s.statement?)
    (rest : List Char) : Text.allBlank s.text = false ∧ Begins (read ++ rest) st start := by
  unfold statement? at hst
  split at hst
  · rename_i hcontent
    cases hst
    have hsolid := allBlank_of_hasContent hcontent
    obtain ⟨source, hread, hsource, hfirst⟩ := h.begun hsolid
    obtain ⟨blanks, hblanks, hall⟩ := Text.exists_trimEnd_append (Text.trimStart s.text)
    have hhead : ∃ c, (Text.trim s.text).head? = some c ∧ Text.isBlank c = false := by
      obtain ⟨c, -, hc⟩ := hsource.head?
      obtain ⟨cs, hcs⟩ := List.head?_eq_some_iff.1 hc
      have hstop : Text.Stops Text.isBlank (Text.trimStart s.text) := Text.stops_dropWhile _
      rw [hcs] at hstop hblanks
      have hsolid := Text.stops_cons.1 hstop
      refine ⟨c, ?_, hsolid⟩
      rw [Text.trim, hcs]
      cases htrim : Text.trimEnd (c :: cs) with
      | nil =>
        rw [htrim, List.nil_append] at hblanks
        rw [← hblanks, Text.allBlank, List.all_cons, hsolid] at hall
        cases hall
      | cons d ds =>
        rw [htrim] at hblanks
        cases hblanks
        rfl
    refine ⟨hsolid, hfirst, by rwa [String.toList_ofList], source, blanks, rest,
      by rw [hread, List.append_assoc], ?_, hall⟩
    rw [String.toList_ofList, Text.trim, ← hblanks]
    exact hsource
  · cases hst

/-- **Every statement is found with the place where it begins.** -/
theorem begins_of_mem_located {p : Statement × List Char} (h : s.Tracks read start)
    (hp : p ∈ s.located read start cs) : Begins (read ++ cs) p.1 p.2 := by
  fun_induction located s read start cs with
  | case1 s read start =>
    obtain ⟨st, hst, rfl⟩ := List.mem_map.1 hp
    exact (h.begins (Option.mem_toList.1 hst) []).2
  | case2 s read start c cs start' ih =>
    obtain ⟨w, hw, hm⟩ := moves_step s c cs
    have htaken : (c :: cs).take ((c :: cs).length - (s.step c cs).rest.length) = w := by
      rw [← hw, List.length_append, Nat.add_sub_cancel, List.take_left']
      rfl
    rw [htaken] at hp ih
    rcases List.mem_append.1 hp with hp | hp
    · obtain ⟨st, hst, rfl⟩ := List.mem_map.1 hp
      have hemitted : st ∈ s.statement? := by
        rcases emitted_step s c cs with he | he
        · rw [he] at hst
          cases hst
        · rw [he] at hst
          exact Option.mem_toList.1 hst
      obtain ⟨hsolid, hbegins⟩ := h.begins hemitted (c :: cs)
      have hstart : start' = start := if_neg (by rw [hsolid]; exact Bool.false_ne_true)
      rw [hstart]
      exact hbegins
    · have hbegins := ih (h.moves hm) hp
      rwa [List.append_assoc, hw] at hbegins

end Scanner

open Scanner

/-- The statements of a script, each with what stands in front of it. -/
def locatedStatements (script : String) : List (Statement × List Char) :=
  ({} : Scanner).located [] [] script.toList

theorem map_fst_locatedStatements (script : String) :
    (locatedStatements script).map Prod.fst = statements script :=
  map_fst_located _ _ _ _

theorem begins_of_mem_locatedStatements {script : String} {p : Statement × List Char}
    (hp : p ∈ locatedStatements script) : Begins script.toList p.1 p.2 :=
  begins_of_mem_located ⟨by decide, rfl, rfl, fun hblank => by cases hblank⟩ hp

/-! ## Skipped statements -/

/-- A statement that should create a table is the one of its number. -/
theorem getElem?_of_mem_creations {number : Nat} {statements : List Statement} {c : Creation}
    (hc : c ∈ creations number statements) :
    ∃ i, c.number = number + i ∧ statements[i]? = some c.statement ∧
      StatementKind.ofText c.statement.text = .createTable := by
  induction statements generalizing number with
  | nil => cases hc
  | cons s ss ih =>
    have hlater (hc : c ∈ creations (number + 1) ss) : ∃ i, c.number = number + i ∧
        (s :: ss)[i]? = some c.statement ∧
        StatementKind.ofText c.statement.text = .createTable := by
      obtain ⟨i, hnumber, hi, hkind⟩ := ih hc
      exact ⟨i + 1, by omega, hi, hkind⟩
    rw [creations] at hc
    split at hc
    · rename_i hkind
      rcases List.mem_cons.1 hc with rfl | hc
      · exact ⟨0, rfl, rfl, hkind⟩
      · exact hlater hc
    · exact hlater hc

theorem of_skippedStatement_mem_notices {c : Creation} {number line : Nat} {cause : Malformation}
    (h : Notice.skippedStatement number line cause ∈ c.notices) :
    number = c.number ∧ line = c.statement.line ∧
      Table.ofStatement c.statement.text = .error cause := by
  unfold Creation.notices Creation.outcome at h
  split at h
  · obtain ⟨item, -, hitem⟩ := List.mem_map.1 h
    cases hitem
  · rename_i cause' hcause
    cases List.mem_singleton.1 h
    exact ⟨rfl, rfl, hcause⟩

end Script

namespace Contents

open Script Scanner

/-- A statement that is reported as skipped is one of the statements of the tidied script. -/
theorem getElem?_of_skippedStatement {script : String} {number line : Nat} {cause : Malformation}
    (h : Notice.skippedStatement number line cause ∈ (ofScript script).notices) :
    ∃ i st start, number = i + 1 ∧ (locatedStatements (tidy script))[i]? = some (st, start) ∧
      StatementKind.ofText st.text = .createTable ∧ Table.ofStatement st.text = .error cause ∧
      st.line = line := by
  obtain ⟨c, hc, hnotice⟩ := List.mem_flatMap.1 h
  obtain ⟨hnumber, hline, hcause⟩ := of_skippedStatement_mem_notices hnotice
  obtain ⟨i, hi, hstatement, hkind⟩ := getElem?_of_mem_creations hc
  rw [← map_fst_locatedStatements, List.getElem?_map] at hstatement
  obtain ⟨⟨st, start⟩, hlocated, rfl⟩ := Option.map_eq_some_iff.1 hstatement
  exact ⟨i, _, start, by omega, hlocated, hkind, hcause, hline.symm⟩

/-- A statement that begins in a tidied script begins on a line of the script: as many newlines
stand in front of the one as of the other, and tidying makes the one of the other. -/
theorem exists_isLine_of_begins {script : String} {st : Statement} {start : List Char}
    (h : Begins (tidy script).toList st start) :
    ∃ before original behind, IsLine script.toList before original behind ∧
      st.line = 1 + countNewlines before ∧
      ∃ before' indent tail behind', IsLine (tidy script).toList before' (indent ++ tail) behind' ∧
        tidiedLine before.isEmpty behind.isEmpty original = indent ++ tail ∧
        start = before' ++ indent ∧ tail.head? = st.text.toList.head? := by
  obtain ⟨rest, hscript, hhead⟩ := h.exists_head?
  obtain ⟨before', indent, tail, behind', hstart, hrest, hline', hcount'⟩ :=
    exists_isLine_of_append start rest
  rw [← hscript] at hline'
  have htidy : (tidy script).toList = tidyChars script.toList := String.toList_ofList
  have htidied := hline'.getElem?_lines
  rw [htidy, getElem?_lines_tidyChars] at htidied
  obtain ⟨original, horiginal, hmade⟩ := Option.map_eq_some_iff.1 htidied
  obtain ⟨before, behind, hline, hcount⟩ := exists_isLine_of_getElem? horiginal
  refine ⟨before, original, behind, hline, ?_, before', indent, tail, behind', hline', ?_, hstart,
    ?_⟩
  · rw [h.line, hcount, hcount']
  · rw [hline.isEmpty_before, hline.isEmpty_behind, hcount, hmade]
  · -- the first character is no newline, so it stands on the line
    rw [← hhead, hrest]
    cases tail with
    | cons c tail => rfl
    | nil =>
      obtain ⟨c, hc, hsolid⟩ := h.head
      rcases hline'.ends with rfl | ⟨b, rfl⟩
      · rfl
      · rw [← hhead, hrest] at hc
        cases hc
        cases hsolid

/-- **Notices point at the right line.** Tidying keeps the newlines of a script and makes each
line of the line of the same number. The scanner gives each statement the line on which it
begins. So a notice of a skipped statement tells the line of the script as it was given on which
the first character of the statement stands. -/
theorem line_of_skippedStatement (script : String) :
    (countNewlines (tidy script).toList = countNewlines script.toList ∧
      ∀ k, (lines (tidy script).toList)[k]? = (lines script.toList)[k]?.map
        (tidiedLine (k == 0) (k + 1 == (lines script.toList).length))) ∧
    (∀ text : String, (locatedStatements text).map Prod.fst = statements text ∧
      ∀ p ∈ locatedStatements text, Begins text.toList p.1 p.2) ∧
    ∀ number line cause, .skippedStatement number line cause ∈ (ofScript script).notices →
      ∃ i st start, number = i + 1 ∧ (locatedStatements (tidy script))[i]? = some (st, start) ∧
        StatementKind.ofText st.text = .createTable ∧ Table.ofStatement st.text = .error cause ∧
        st.line = line ∧
        ∃ before original behind, IsLine script.toList before original behind ∧
          line = 1 + countNewlines before ∧
          ∃ before' indent tail behind',
            IsLine (tidy script).toList before' (indent ++ tail) behind' ∧
            tidiedLine before.isEmpty behind.isEmpty original = indent ++ tail ∧
            start = before' ++ indent ∧ tail.head? = st.text.toList.head? := by
  have htidy : (tidy script).toList = tidyChars script.toList := String.toList_ofList
  refine ⟨⟨?_, fun k => ?_⟩, fun text => ⟨map_fst_locatedStatements text,
    fun p hp => begins_of_mem_locatedStatements hp⟩, fun number line cause h => ?_⟩
  · rw [htidy, countNewlines_tidyChars]
  · rw [htidy, getElem?_lines_tidyChars]
  · obtain ⟨i, st, start, hnumber, hlocated, hkind, hcause, hline⟩ := getElem?_of_skippedStatement h
    have hbegins := begins_of_mem_locatedStatements (List.mem_of_getElem? hlocated)
    refine ⟨i, st, start, hnumber, hlocated, hkind, hcause, hline, ?_⟩
    rw [← hline]
    exact exists_isLine_of_begins hbegins

/-- A script with a byte order mark, carriage returns, a line that tidying empties, a directive,
and a comment in front of a statement without a name. -/
def unnamedScript : String :=
  "\uFEFF# x\r\nDELIMITER //\r\n SELECT ';' // -- y\r\nCREATE TABLE\r\n//"

/-- The statement begins with its comment, on the third line. -/
theorem line_of_skippedStatement_unnamedScript :
    Notice.skippedStatement 2 3 .noName ∈ (ofScript unnamedScript).notices ∧
      ∃ before behind, IsLine unnamedScript.toList before " SELECT ';' // -- y\r".toList behind ∧
        3 = 1 + countNewlines before := by
  have hnotice : Notice.skippedStatement 2 3 .noName ∈ (ofScript unnamedScript).notices := by
    decide +kernel
  obtain ⟨i, st, start, -, -, -, -, -, before, original, behind, hline, hcount, -⟩ :=
    (line_of_skippedStatement unnamedScript).2.2 2 3 .noName hnotice
  have hthird : (lines unnamedScript.toList)[2]? = some " SELECT ';' // -- y\r".toList := by
    decide +kernel
  have horiginal := hline.getElem?_lines
  rw [show countNewlines before = 2 by omega, hthird] at horiginal
  cases horiginal
  exact ⟨hnotice, before, behind, hline, hcount⟩

end Contents
end SchemaScript
