import Mathlib.Data.List.TakeWhile
import SchemaScript.Proofs.Text.Case
import SchemaScript.Proofs.Text.Runs
import SchemaScript.Text.Blank

/-!
# Blank characters

There are few of them, and what has to be known of all blank characters is checked along the
list. What trimming leaves of a text is measured by the characters that are not blank, since it
takes none of these (`solid_trim`).
-/

namespace SchemaScript
namespace Text

/-- The blank characters, as a list. -/
def blanks : List Char :=
  [9, 10, 11, 12, 13, 0x20, 0x85, 0xA0, 0x1680, 0x2000, 0x2001, 0x2002, 0x2003, 0x2004, 0x2005,
    0x2006, 0x2007, 0x2008, 0x2009, 0x200A, 0x2028, 0x2029, 0x202F, 0x205F, 0x3000].map Char.ofNat

theorem mem_blanks_of_isBlank {c : Char} (h : isBlank c = true) : c ∈ blanks := by
  simp only [isBlank, Bool.or_eq_true, Bool.and_eq_true, decide_eq_true_eq, beq_iff_eq] at h
  rw [← Char.ofNat_toNat c]
  generalize c.toNat = n at h
  refine List.mem_map_of_mem ?_
  simp only [List.mem_cons, List.not_mem_nil, or_false]
  omega

/-! ## Trimming -/

/-- How many characters of a text are not blank. -/
def solid (cs : List Char) : Nat :=
  cs.countP fun c => !isBlank c

@[simp] theorem solid_nil : solid [] = 0 := rfl

@[simp] theorem solid_append (a b : List Char) : solid (a ++ b) = solid a + solid b := by
  simp [solid]

theorem solid_cons_of_isBlank {c : Char} (h : isBlank c = true) (cs : List Char) :
    solid (c :: cs) = solid cs := by
  simp [solid, h]

theorem solid_cons_of_not {c : Char} (h : isBlank c = false) (cs : List Char) :
    solid (c :: cs) = solid cs + 1 := by
  simp [solid, h]

@[simp] theorem solid_reverse (cs : List Char) : solid cs.reverse = solid cs := by
  simp [solid]

theorem solid_eq_zero_iff {cs : List Char} : solid cs = 0 ↔ ∀ c ∈ cs, isBlank c = true := by
  simp [solid, List.countP_eq_zero]

theorem solid_trimStart (cs : List Char) : solid (trimStart cs) = solid cs := by
  induction cs with
  | nil => rfl
  | cons c cs ih =>
    by_cases hc : isBlank c = true
    · rw [trimStart, List.dropWhile_cons_of_pos hc, solid_cons_of_isBlank hc, ← ih]
      rfl
    · rw [trimStart, List.dropWhile_cons_of_neg hc]

/-- Trimming takes only blanks. -/
@[simp] theorem solid_trim (cs : List Char) : solid (trim cs) = solid cs := by
  have hend : solid (trimEnd (trimStart cs)) = solid (trimStart cs) := by
    rw [trimEnd, solid_reverse]
    have h := solid_trimStart (trimStart cs).reverse
    rw [solid_reverse] at h
    exact h
  rw [trim, hend, solid_trimStart]

/-- Trimming leaves nothing exactly of blank texts. -/
theorem trim_eq_nil_iff {cs : List Char} : trim cs = [] ↔ allBlank cs = true := by
  rw [allBlank, List.all_eq_true]
  constructor
  · intro h
    exact solid_eq_zero_iff.1 (by rw [← solid_trim, h]; rfl)
  · intro h
    have hstart : trimStart cs = [] := List.dropWhile_eq_nil_iff.2 h
    rw [trim, hstart]
    rfl

/-- Behind blanks a text is left that begins and ends in no blank. -/
theorem trim_append_of_ends {a w : List Char} (ha : ∀ c ∈ a, isBlank c = true)
    (hfirst : Stops isBlank w) (hlast : ∀ c ∈ w.getLast?, isBlank c = false) :
    trim (a ++ w) = w := by
  have hreverse : Stops isBlank w.reverse := fun c hc => hlast c (by rwa [List.head?_reverse] at hc)
  rw [trim, trimStart, dropWhile_append_of_stops ha hfirst, trimEnd,
    dropWhile_eq_self_of_stops hreverse, List.reverse_reverse]

/-- A text without blanks is left as it is. -/
theorem trim_eq_self {cs : List Char} (h : ∀ c ∈ cs, isBlank c = false) : trim cs = cs :=
  trim_append_of_ends (a := []) (by simp) (fun c hc => h c (List.mem_of_mem_head? hc))
    fun c hc => h c (List.mem_of_getLast? hc)

/-- What is trimmed off the end of a text is blank. -/
theorem exists_trimEnd_append (cs : List Char) :
    ∃ blanks, cs = trimEnd cs ++ blanks ∧ allBlank blanks = true := by
  refine ⟨(cs.reverse.takeWhile isBlank).reverse, ?_, ?_⟩
  · rw [trimEnd, ← List.reverse_append, List.takeWhile_append_dropWhile, List.reverse_reverse]
  · rw [allBlank, List.all_reverse, List.all_eq_true]
    exact fun _ => List.mem_takeWhile_imp

/-- What is trimmed off a text is blank. -/
theorem exists_append_trim (cs : List Char) :
    ∃ a b, cs = a ++ (trim cs ++ b) ∧ allBlank a = true ∧ allBlank b = true := by
  obtain ⟨b, hb, hblank⟩ := exists_trimEnd_append (trimStart cs)
  refine ⟨cs.takeWhile isBlank, b, ?_, ?_, hblank⟩
  · rw [trim, ← hb, trimStart, List.takeWhile_append_dropWhile]
  · rw [allBlank, List.all_eq_true]
    exact fun _ => List.mem_takeWhile_imp

/-- What trimming leaves begins and ends in no blank, so trimming it again changes nothing. -/
@[simp] theorem trim_trim (cs : List Char) : trim (trim cs) = trim cs := by
  have hend : trimEnd (trimEnd (trimStart cs)) = trimEnd (trimStart cs) := by
    rw [trimEnd, trimEnd, List.reverse_reverse,
      dropWhile_eq_self_of_stops (stops_dropWhile (trimStart cs).reverse)]
  obtain ⟨blanks, hblanks, -⟩ := exists_trimEnd_append (trimStart cs)
  have hfirst : Stops isBlank (trim cs) := by
    have hstart : Stops isBlank (trimStart cs) := stops_dropWhile cs
    rw [hblanks] at hstart
    intro c hc
    refine hstart c ?_
    rw [List.head?_append, ← trim, Option.mem_def.1 hc]
    rfl
  rw [trim, trimStart, dropWhile_eq_self_of_stops hfirst, trim, hend]

/-- A blank at the end is trimmed off. -/
theorem trim_append_blank {c : Char} (h : isBlank c = true) (cs : List Char) :
    trim (cs ++ [c]) = trim cs := by
  by_cases hcs : ∀ d ∈ cs, isBlank d = true
  · have hdrop : trimStart cs = [] := List.dropWhile_eq_nil_iff.2 hcs
    have hdrop' : trimStart (cs ++ [c]) = [] := by
      refine List.dropWhile_eq_nil_iff.2 fun d hd => ?_
      rcases List.mem_append.1 hd with hd | hd
      · exact hcs d hd
      · rw [List.mem_singleton.1 hd]
        exact h
    rw [trim, trim, hdrop, hdrop']
  · have hne : trimStart cs ≠ [] := fun hx => hcs (List.dropWhile_eq_nil_iff.1 hx)
    have happ : trimStart (cs ++ [c]) = trimStart cs ++ [c] := by
      rw [trimStart, List.dropWhile_append, if_neg]
      · rfl
      · rw [List.isEmpty_iff]
        exact hne
    rw [trim, trim, happ, trimEnd, trimEnd, List.reverse_append, List.reverse_singleton,
      List.singleton_append, List.dropWhile_cons_of_pos h]

/-- A text that neither begins nor ends in a blank is kept in front of another one. -/
theorem trim_append_of_solid {a : List Char} (hne : a ≠ []) (hfirst : Stops isBlank a)
    (hlast : ∀ c ∈ a.getLast?, isBlank c = false) (cs : List Char) :
    trim (a ++ cs) = a ++ trimEnd cs := by
  have hstart : Stops isBlank (a ++ cs) := by
    obtain ⟨c, a, rfl⟩ := List.exists_cons_of_ne_nil hne
    exact hfirst
  have hend : a.reverse.dropWhile isBlank = a.reverse :=
    dropWhile_eq_self_of_stops fun c hc => hlast c (by rwa [List.head?_reverse] at hc)
  rw [trim, trimStart, dropWhile_eq_self_of_stops hstart, trimEnd, List.reverse_append,
    List.dropWhile_append]
  split
  · rename_i hnil
    rw [hend, List.reverse_reverse, trimEnd, List.isEmpty_iff.1 hnil, List.reverse_nil,
      List.append_nil]
  · rw [List.reverse_append, List.reverse_reverse, trimEnd]

/-- The blanks that a text begins with end in it, unless it is blank. -/
theorem takeWhile_append_of_not_allBlank {a : List Char} (h : allBlank a = false)
    (b : List Char) : (a ++ b).takeWhile isBlank = a.takeWhile isBlank := by
  rw [List.takeWhile_append, if_neg]
  intro hlength
  have hself := (List.takeWhile_prefix isBlank).eq_of_length hlength
  rw [allBlank, List.all_eq_true.2 (List.takeWhile_eq_self_iff.1 hself)] at h
  cases h

/-! ## Words -/

theorem isBlank_of_mem_words {cs w : List Char} (hw : w ∈ words cs) {c : Char} (hc : c ∈ w) :
    isBlank c = false := by
  have hsplit : ∀ w ∈ cs.splitOnP isBlank, ∀ c ∈ w, isBlank c = false := by
    clear hw hc
    induction cs with
    | nil => simp
    | cons d cs ih =>
      rw [List.splitOnP_cons_eq_if_modifyHead]
      split
      · simpa using ih
      · rename_i hd
        obtain ⟨v, vs, hv⟩ := List.exists_cons_of_ne_nil (List.splitOnP_ne_nil isBlank cs)
        rw [hv] at ih ⊢
        obtain ⟨hfirst, hmore⟩ := List.forall_mem_cons.1 ih
        refine List.forall_mem_cons.2 ⟨List.forall_mem_cons.2 ⟨?_, hfirst⟩, hmore⟩
        simpa using hd
  exact hsplit w (List.mem_filter.1 hw).1 c hc

/-- A blank stands between words. -/
theorem words_append_cons {c : Char} (h : isBlank c = true) (a b : List Char) :
    words (a ++ c :: b) = words a ++ words b := by
  rw [words, List.splitOnP_append_cons a b h, List.filter_append]
  rfl

theorem words_of_solid {w : List Char} (hne : w ≠ []) (hw : ∀ c ∈ w, isBlank c = false) :
    words w = [w] := by
  rw [words, List.splitOnP_eq_singleton hw, List.filter_cons_of_pos]
  · rfl
  · simpa using hne

/-- Blanks in front of a text belong to none of its words. -/
theorem words_append_of_allBlank {a : List Char} (h : allBlank a = true) (b : List Char) :
    words (a ++ b) = words b := by
  induction a with
  | nil => rfl
  | cons c a ih =>
    obtain ⟨hc, ha⟩ := Bool.and_eq_true_iff.1 h
    exact (words_append_cons hc [] (a ++ b)).trans (ih ha)

/-- A character that is no blank begins a word. -/
theorem exists_words_cons {c : Char} (h : isBlank c = false) (cs : List Char) :
    ∃ w ws, words (c :: cs) = (c :: w) :: ws := by
  obtain ⟨v, vs, hv⟩ := List.exists_cons_of_ne_nil (List.splitOnP_ne_nil isBlank cs)
  refine ⟨v, vs.filter fun w => !w.isEmpty, ?_⟩
  rw [words, List.splitOnP_cons_eq_if_modifyHead, h, if_neg Bool.false_ne_true, hv,
    List.modifyHead_cons, List.filter_cons_of_pos rfl]

/-- Upper case is the case of letters alone, and letters are not blank. -/
theorem isBlank_toUpper (c : Char) : isBlank c.toUpper = isBlank c := by
  have hall : ∀ d ∈ lowerLetters, isBlank d.toUpper = isBlank d := by decide
  rcases toUpper_eq_or_mem c with hupper | hlower
  · rw [hupper]
  · exact hall c hlower

end Text
end SchemaScript
