import SchemaScript.Proofs.Text.Removal
import SchemaScript.Script.Split
import SchemaScript.Script.Tidy

/-!
# The lines of a tidied script

Tidying works on one line at a time, and no line is lost, split or moved: a tidied script has as
many lines as the script has, and each of them depends on the line of the same number alone, and
on whether that is the first or the last one (`getElem?_lines_tidyChars`). The first line may
begin with a byte order mark; the last one ends without a newline, so that a carriage return at
its end is not a part of a line end.

A line of a text is also described by what stands in front of it and behind it (`IsLine`). The
number of newlines in front is the index of the line (`IsLine.getElem?_lines`), and every place
in a text lies in one of its lines (`exists_isLine_of_append`).
-/

namespace SchemaScript
namespace Script

/-! ## Lines -/

@[simp] theorem lines_nil : lines [] = [[]] := rfl

@[simp] theorem lines_newline_cons (cs : List Char) : lines ('\n' :: cs) = [] :: lines cs := by
  simp [lines]

theorem exists_lines_eq_cons (cs : List Char) : ∃ l ls, lines cs = l :: ls := by
  cases cs with
  | nil => exact ⟨_, _, rfl⟩
  | cons c cs =>
    rw [lines]
    split
    · exact ⟨_, _, rfl⟩
    · split <;> exact ⟨_, _, rfl⟩

theorem lines_ne_nil (cs : List Char) : lines cs ≠ [] := by
  obtain ⟨l, ls, hl⟩ := exists_lines_eq_cons cs
  rw [hl]
  exact List.cons_ne_nil _ _

theorem lines_cons_of_ne {c : Char} {cs l : List Char} {ls : List (List Char)} (hc : c ≠ '\n')
    (h : lines cs = l :: ls) : lines (c :: cs) = (c :: l) :: ls := by
  rw [lines, if_neg hc, h]

theorem lines_eq_splitOn (cs : List Char) : lines cs = cs.splitOn '\n' := by
  induction cs with
  | nil => exact (List.splitOn_nil _).symm
  | cons c cs ih =>
    rw [List.splitOn, List.splitOnP_cons_eq_if_modifyHead, ← List.splitOn, ← ih]
    by_cases hc : c = '\n'
    · rw [hc, lines_newline_cons, if_pos (beq_self_eq_true _)]
    · obtain ⟨l, ls, hl⟩ := exists_lines_eq_cons cs
      rw [lines_cons_of_ne hc hl, if_neg (by simpa using hc), hl, List.modifyHead_cons]

/-- A newline ends the lines in front of it. -/
theorem lines_append_newline (a b : List Char) : lines (a ++ '\n' :: b) = lines a ++ lines b := by
  induction a with
  | nil => rw [List.nil_append, lines_newline_cons]; rfl
  | cons c a ih =>
    by_cases hc : c = '\n'
    · rw [hc, List.cons_append, lines_newline_cons, lines_newline_cons, ih, List.cons_append]
    · obtain ⟨l, ls, hl⟩ := exists_lines_eq_cons a
      rw [List.cons_append, lines_cons_of_ne hc hl,
        lines_cons_of_ne hc (ih.trans (by rw [hl, List.cons_append])), List.cons_append]

theorem lines_of_notMem {l : List Char} (h : '\n' ∉ l) : lines l = [l] := by
  induction l with
  | nil => rfl
  | cons c l ih =>
    rw [List.mem_cons, not_or] at h
    exact lines_cons_of_ne (Ne.symm h.1) (ih h.2)

theorem length_lines (cs : List Char) : (lines cs).length = countNewlines cs + 1 := by
  induction cs with
  | nil => rfl
  | cons c cs ih =>
    by_cases hc : c = '\n'
    · simp [hc, ih, countNewlines]
    · obtain ⟨l, ls, hl⟩ := exists_lines_eq_cons cs
      rw [hl] at ih
      rw [lines_cons_of_ne hc hl, countNewlines, List.count_cons_of_ne hc]
      exact ih

theorem newline_notMem_of_mem_lines {cs l : List Char} (h : l ∈ lines cs) : '\n' ∉ l := by
  induction cs generalizing l with
  | nil => simp_all
  | cons c cs ih =>
    by_cases hc : c = '\n'
    · rw [hc, lines_newline_cons] at h
      rcases List.mem_cons.1 h with rfl | h
      · exact List.not_mem_nil
      · exact ih h
    · obtain ⟨l', ls, hl⟩ := exists_lines_eq_cons cs
      rw [lines_cons_of_ne hc hl] at h
      rw [hl] at ih
      rcases List.mem_cons.1 h with rfl | h
      · rw [List.mem_cons, not_or]
        exact ⟨Ne.symm hc, ih List.mem_cons_self⟩
      · exact ih (List.mem_cons_of_mem _ h)

theorem subset_of_mem_lines {cs l : List Char} (h : l ∈ lines cs) : l ⊆ cs := by
  induction cs generalizing l with
  | nil =>
    rw [List.mem_singleton.1 h]
    exact List.nil_subset _
  | cons c cs ih =>
    by_cases hc : c = '\n'
    · rw [hc, lines_newline_cons] at h
      rcases List.mem_cons.1 h with rfl | h
      · exact List.nil_subset _
      · exact List.subset_cons_of_subset _ (ih h)
    · obtain ⟨l', ls, hl⟩ := exists_lines_eq_cons cs
      rw [lines_cons_of_ne hc hl] at h
      rw [hl] at ih
      rcases List.mem_cons.1 h with rfl | h
      · exact List.cons_subset_cons _ (ih List.mem_cons_self)
      · exact List.subset_cons_of_subset _ (ih (List.mem_cons_of_mem _ h))

/-- Lines without newlines are the lines of their text. -/
theorem lines_unlines {ls : List (List Char)} (hne : ls ≠ []) (h : ∀ l ∈ ls, '\n' ∉ l) :
    lines (unlines ls) = ls := by
  fun_induction unlines ls with
  | case1 => exact absurd rfl hne
  | case2 l => exact lines_of_notMem (h l List.mem_cons_self)
  | case3 l ls hls ih =>
    obtain ⟨hl, hls'⟩ := List.forall_mem_cons.1 h
    rw [lines_append_newline, lines_of_notMem hl, ih (fun he => hls he) hls',
      List.singleton_append]

theorem unlines_cons {ls : List (List Char)} (hne : ls ≠ []) (l : List Char) :
    unlines (l :: ls) = l ++ '\n' :: unlines ls := by
  cases ls with
  | nil => exact absurd rfl hne
  | cons l' ls => rfl

/-- The lines of a text make it up. -/
theorem unlines_lines (cs : List Char) : unlines (lines cs) = cs := by
  induction cs with
  | nil => rfl
  | cons c cs ih =>
    obtain ⟨l, ls, hl⟩ := exists_lines_eq_cons cs
    rw [hl] at ih
    by_cases hc : c = '\n'
    · rw [hc, lines_newline_cons, hl, unlines_cons (List.cons_ne_nil _ _), ih, List.nil_append]
    · rw [lines_cons_of_ne hc hl]
      cases ls with
      | nil => exact congrArg (c :: ·) ih
      | cons l' ls =>
        rw [unlines_cons (List.cons_ne_nil _ _)] at ih ⊢
        exact congrArg (c :: ·) ih

/-- What stands in front of a text on its first line. -/
theorem lines_append_of_notMem {a : List Char} (ha : '\n' ∉ a) (cs : List Char) :
    lines (a ++ cs) = (lines cs).modifyHead (a ++ ·) := by
  obtain ⟨l, ls, hl⟩ := exists_lines_eq_cons cs
  rw [hl, List.modifyHead_cons]
  induction a with
  | nil => exact hl
  | cons c a ih =>
    rw [List.mem_cons, not_or] at ha
    exact lines_cons_of_ne (Ne.symm ha.1) (ih ha.2)

/-! ## A line in its text -/

/-- Whether a text consists of a line, of what stands in front of it and of what stands behind
it. -/
structure IsLine (cs before line behind : List Char) : Prop where
  eq_append : cs = before ++ (line ++ behind)
  newline_notMem : '\n' ∉ line
  begins : before = [] ∨ ∃ a, before = a ++ ['\n']
  ends : behind = [] ∨ ∃ b, behind = '\n' :: b

namespace IsLine

variable {cs before line behind : List Char}

theorem isEmpty_before (h : IsLine cs before line behind) :
    before.isEmpty = (countNewlines before == 0) := by
  rcases h.begins with rfl | ⟨a, rfl⟩
  · rfl
  · simp [countNewlines]

theorem isEmpty_behind (h : IsLine cs before line behind) :
    behind.isEmpty = (countNewlines before + 1 == (lines cs).length) := by
  have hcount : countNewlines cs = countNewlines before + countNewlines behind := by
    rw [h.eq_append, countNewlines, List.count_append, List.count_append,
      List.count_eq_zero.2 h.newline_notMem, Nat.zero_add]
    rfl
  rw [length_lines, hcount]
  rcases h.ends with rfl | ⟨b, rfl⟩
  · simp [countNewlines]
  · simp [countNewlines]

/-- The newlines in front of a line are its index. -/
theorem getElem?_lines (h : IsLine cs before line behind) :
    (lines cs)[countNewlines before]? = some line := by
  have hfirst : (lines (line ++ behind))[0]? = some line := by
    rcases h.ends with rfl | ⟨b, rfl⟩
    · rw [List.append_nil, lines_of_notMem h.newline_notMem]
      rfl
    · rw [lines_append_newline, lines_of_notMem h.newline_notMem]
      rfl
  rw [h.eq_append]
  rcases h.begins with rfl | ⟨a, rfl⟩
  · exact hfirst
  · have hindex : countNewlines (a ++ ['\n']) = (lines a).length := by
      rw [length_lines]
      simp [countNewlines]
    rw [List.append_assoc, List.singleton_append, lines_append_newline, hindex,
      List.getElem?_append_right (Nat.le_refl _), Nat.sub_self]
    exact hfirst

end IsLine

/-- Every line has its place in the text. -/
theorem exists_isLine_of_getElem? {cs line : List Char} {k : Nat}
    (h : (lines cs)[k]? = some line) :
    ∃ before behind, IsLine cs before line behind ∧ countNewlines before = k := by
  induction cs generalizing line k with
  | nil =>
    cases k with
    | zero => cases h; exact ⟨[], [], ⟨rfl, by simp, Or.inl rfl, Or.inl rfl⟩, rfl⟩
    | succ k => cases h
  | cons c cs ih =>
    by_cases hc : c = '\n'
    · subst hc
      rw [lines_newline_cons] at h
      cases k with
      | zero =>
        cases h
        exact ⟨[], '\n' :: cs, ⟨rfl, by simp, Or.inl rfl, Or.inr ⟨cs, rfl⟩⟩, rfl⟩
      | succ k =>
        obtain ⟨before, behind, hline, hcount⟩ := ih h
        refine ⟨'\n' :: before, behind, ⟨?_, hline.newline_notMem, Or.inr ?_, hline.ends⟩, ?_⟩
        · rw [hline.eq_append, List.cons_append]
        · rcases hline.begins with rfl | ⟨a, rfl⟩
          · exact ⟨[], rfl⟩
          · exact ⟨'\n' :: a, rfl⟩
        · simpa [countNewlines] using hcount
    · obtain ⟨l, ls, hl⟩ := exists_lines_eq_cons cs
      rw [lines_cons_of_ne hc hl] at h
      cases k with
      | zero =>
        cases h
        obtain ⟨before, behind, hline, hcount⟩ := ih (k := 0) (by rw [hl]; rfl)
        have hbefore : before = [] := by
          have hempty := hline.isEmpty_before
          rw [hcount] at hempty
          exact List.isEmpty_iff.1 hempty
        subst hbefore
        refine ⟨[], behind, ⟨?_, ?_, Or.inl rfl, hline.ends⟩, rfl⟩
        · rw [hline.eq_append]
          rfl
        · rw [List.mem_cons, not_or]
          exact ⟨Ne.symm hc, hline.newline_notMem⟩
      | succ k =>
        obtain ⟨before, behind, hline, hcount⟩ := ih (k := k + 1) (by rw [hl]; exact h)
        refine ⟨c :: before, behind, ⟨?_, hline.newline_notMem, Or.inr ?_, hline.ends⟩, ?_⟩
        · rw [hline.eq_append, List.cons_append]
        · rcases hline.begins with rfl | ⟨a, rfl⟩
          · cases hcount
          · exact ⟨c :: a, rfl⟩
        · rw [countNewlines, List.count_cons_of_ne hc]
          exact hcount

theorem exists_getElem?_lines {cs : List Char} {k : Nat} (h : k ≤ countNewlines cs) :
    ∃ line, (lines cs)[k]? = some line := by
  have hlt : k < (lines cs).length := by
    rw [length_lines]
    omega
  exact ⟨_, List.getElem?_eq_getElem hlt⟩

/-- The place between two parts of a text lies in one of its lines, which is made up of the last
line of the one part and the first line of the other. -/
theorem exists_isLine_of_append (start rest : List Char) :
    ∃ before indent tail behind, start = before ++ indent ∧ rest = tail ++ behind ∧
      IsLine (start ++ rest) before (indent ++ tail) behind ∧
      countNewlines before = countNewlines start := by
  obtain ⟨indent, hindent⟩ := exists_getElem?_lines (Nat.le_refl (countNewlines start))
  obtain ⟨before, empty, hlast, hcount⟩ := exists_isLine_of_getElem? hindent
  obtain rfl : empty = [] := by
    have hempty := hlast.isEmpty_behind
    rw [hcount, length_lines, beq_self_eq_true] at hempty
    exact List.isEmpty_iff.1 hempty
  obtain ⟨tail, htail⟩ := exists_getElem?_lines (Nat.zero_le (countNewlines rest))
  obtain ⟨empty, behind, hfirst, hzero⟩ := exists_isLine_of_getElem? htail
  obtain rfl : empty = [] := by
    have hempty := hfirst.isEmpty_before
    rw [hzero] at hempty
    exact List.isEmpty_iff.1 hempty
  have hstart : start = before ++ indent := by simpa using hlast.eq_append
  have hrest : rest = tail ++ behind := hfirst.eq_append
  refine ⟨before, indent, tail, behind, hstart, hrest, ⟨?_, ?_, hlast.begins, hfirst.ends⟩, hcount⟩
  · rw [hrest, hstart]
    simp only [List.append_assoc]
  · rw [List.mem_append, not_or]
    exact ⟨hlast.newline_notMem, hfirst.newline_notMem⟩

/-! ## Line ends -/

/-- A line without the carriage return that its line end has in front of the newline. -/
def withoutReturn (line : List Char) : List Char :=
  if line.getLast? = some '\r' then line.dropLast else line

/-- Lines without the carriage returns of their line ends. Nothing ends the last line. -/
def withoutReturns : List (List Char) → List (List Char)
  | [] => []
  | [l] => [l]
  | l :: l' :: ls => withoutReturn l :: withoutReturns (l' :: ls)

theorem withoutReturn_cons {c : Char} {l : List Char} (h : l ≠ [] ∨ c ≠ '\r') :
    withoutReturn (c :: l) = c :: withoutReturn l := by
  cases l with
  | nil =>
    have hc : c ≠ '\r' := h.resolve_left (fun hne => hne rfl)
    simp [withoutReturn, hc]
  | cons d l =>
    rw [withoutReturn, withoutReturn, List.getLast?_cons_cons, List.dropLast_cons_cons]
    split <;> rfl

theorem length_withoutReturns (ls : List (List Char)) :
    (withoutReturns ls).length = ls.length := by
  fun_induction withoutReturns ls with
  | case1 => rfl
  | case2 => rfl
  | case3 l l' ls ih => simpa using ih

theorem getElem?_withoutReturns (ls : List (List Char)) (k : Nat) :
    (withoutReturns ls)[k]? =
      ls[k]?.map fun l => if k + 1 = ls.length then l else withoutReturn l := by
  fun_induction withoutReturns ls generalizing k with
  | case1 => simp
  | case2 l => cases k <;> simp
  | case3 l l' ls ih =>
    cases k with
    | zero => simp
    | succ k => simp [ih]

/-- Single newlines change nothing about lines but the carriage returns at their ends. -/
theorem lines_singleNewlines (cs : List Char) :
    lines (singleNewlines cs) = withoutReturns (lines cs) := by
  fun_induction singleNewlines cs with
  | case1 => rfl
  | case2 c =>
    by_cases hc : c = '\n'
    · rw [hc]; rfl
    · rw [lines_cons_of_ne hc lines_nil]; rfl
  | case3 c d cs hreturn ih =>
    obtain ⟨rfl, rfl⟩ := hreturn
    obtain ⟨l, ls, hl⟩ := exists_lines_eq_cons cs
    rw [lines_cons_of_ne (by decide) (lines_newline_cons cs), lines_newline_cons, ih, hl]
    rfl
  | case4 c d cs hreturn ih =>
    obtain ⟨l, ls, hl⟩ := exists_lines_eq_cons (d :: cs)
    by_cases hc : c = '\n'
    · rw [hc, lines_newline_cons, lines_newline_cons, ih, hl]
      rfl
    · rw [lines_cons_of_ne hc hl]
      rw [hl] at ih
      cases ls with
      | nil => exact lines_cons_of_ne hc ih
      | cons l' ls =>
        have hline : l ≠ [] ∨ c ≠ '\r' := by
          by_cases hd : d = '\n'
          · exact Or.inr fun hr => hreturn ⟨hr, hd⟩
          · obtain ⟨m, ms, hm⟩ := exists_lines_eq_cons cs
            rw [lines_cons_of_ne hd hm] at hl
            cases hl
            exact Or.inl (List.cons_ne_nil _ _)
        rw [withoutReturns, withoutReturn_cons hline]
        exact lines_cons_of_ne hc ih

theorem lines_dropByteOrderMark (cs : List Char) :
    lines (dropByteOrderMark cs) = (lines cs).modifyHead dropByteOrderMark := by
  cases cs with
  | nil => rfl
  | cons c cs =>
    by_cases hc : c = '\n'
    · subst hc
      rw [lines_newline_cons]
      exact lines_newline_cons cs
    · obtain ⟨l, ls, hl⟩ := exists_lines_eq_cons cs
      rw [lines_cons_of_ne hc hl, List.modifyHead_cons, dropByteOrderMark, dropByteOrderMark]
      split
      · exact hl
      · exact lines_cons_of_ne hc hl

/-! ## Tidied lines -/

theorem dropIndent?_suffix {cs rest : List Char} (h : dropIndent? cs = some rest) :
    rest <:+ cs := by
  unfold dropIndent? at h
  split at h
  · cases h
    exact List.dropWhile_suffix _
  · cases h

theorem stripIgnoringCase?_suffix {start cs rest : List Char}
    (h : stripIgnoringCase? start cs = some rest) : rest <:+ cs := by
  unfold stripIgnoringCase? at h
  split at h
  · cases h
    exact List.drop_suffix _ _
  · cases h

theorem behindCollation?_suffix {cs rest : List Char} (h : behindCollation? cs = some rest) :
    rest <:+ cs := by
  simp only [behindCollation?, Option.bind_eq_some_iff] at h
  obtain ⟨a, ha, b, hb, c, hc, hrest⟩ := h
  exact ((stripIgnoringCase?_suffix hrest).trans (dropIndent?_suffix hc)).trans
    ((stripIgnoringCase?_suffix hb).trans (dropIndent?_suffix ha))

/-- Collations are found and removed one after the other. -/
theorem removes_collation : Text.Removes behindCollation? removeCollation where
  suffix := behindCollation?_suffix
  shorter := behindCollation?_length
  nil := by rw [removeCollation]
  found := by
    intro c cs rest h
    rw [removeCollation]
    split
    · rename_i hx
      rw [h] at hx
      cases hx
      rfl
    · rename_i hx
      rw [h] at hx
      cases hx
  kept := by
    intro c cs h
    rw [removeCollation]
    split
    · rename_i hx
      rw [h] at hx
      cases hx
    · rfl

/-- A tidied line is one line. -/
theorem newline_notMem_tidyLine {line : List Char} (h : '\n' ∉ line) : '\n' ∉ tidyLine line := by
  simp only [tidyLine]
  split
  · decide
  split
  · exact List.not_mem_nil
  · exact fun hmem => h (removes_collation.subset line hmem)

/-- What tidying makes of a line: only the first one may begin with a byte order mark, and only
the last one has no line end. -/
def tidiedLine (first last : Bool) (line : List Char) : List Char :=
  let plain := if first then dropByteOrderMark line else line
  tidyLine (if last then plain else withoutReturn plain)

/-- The lines of a tidied script. -/
theorem lines_tidyChars (cs : List Char) :
    lines (tidyChars cs) =
      (withoutReturns ((lines cs).modifyHead dropByteOrderMark)).map tidyLine := by
  rw [tidyChars, lines_unlines, lines_singleNewlines, lines_dropByteOrderMark]
  · obtain ⟨l, ls, hl⟩ := exists_lines_eq_cons (singleNewlines (dropByteOrderMark cs))
    rw [hl]
    exact List.cons_ne_nil _ _
  · intro l hl
    obtain ⟨line, hline, rfl⟩ := List.mem_map.1 hl
    exact newline_notMem_tidyLine (newline_notMem_of_mem_lines hline)

/-- **Each line of a tidied script depends on the line of the same number alone.** -/
theorem getElem?_lines_tidyChars (cs : List Char) (k : Nat) :
    (lines (tidyChars cs))[k]? =
      (lines cs)[k]?.map (tidiedLine (k == 0) (k + 1 == (lines cs).length)) := by
  rw [lines_tidyChars, List.getElem?_map, getElem?_withoutReturns, List.length_modifyHead,
    List.getElem?_modifyHead]
  cases k with
  | zero => cases (lines cs)[0]? <;> simp [tidiedLine]
  | succ k => cases (lines cs)[k + 1]? <;> simp [tidiedLine]

/-- **Tidying keeps the number of newlines.** -/
theorem countNewlines_tidyChars (cs : List Char) :
    countNewlines (tidyChars cs) = countNewlines cs := by
  have hlength : (lines (tidyChars cs)).length = (lines cs).length := by
    rw [lines_tidyChars, List.length_map, length_withoutReturns, List.length_modifyHead]
  rw [length_lines, length_lines] at hlength
  omega

end Script
end SchemaScript
