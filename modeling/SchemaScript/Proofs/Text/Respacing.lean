import SchemaScript.Proofs.Text.Blanks

/-!
# Words and the blanks between them

Cut into its words, a text forgets its blanks: how many of them stand between two words and which
ones, and those around the whole text. So texts that are `Respaced` have the same words
(`Respaced.words_eq`), trimming a text leaves its words (`words_trim`), and words with single
spaces between them are the words of the text they make (`words_intercalate`).

The words change with the letters of the text and not otherwise, as long as no blank comes or goes
(`words_map`); upper case is of this kind.
-/

namespace SchemaScript
namespace Text

variable {cs s t : List Char}

/-- Two texts that differ in runs of blanks alone: in place of a run of blanks in the first there
is another one in the second. No run is empty, so that words stay apart. -/
inductive Respaced : List Char → List Char → Prop where
  | same (cs : List Char) : Respaced cs cs
  | run {blanks blanks' s t : List Char} (cs : List Char) (nonempty : blanks ≠ [])
      (nonempty' : blanks' ≠ []) (blank : allBlank blanks = true)
      (blank' : allBlank blanks' = true) (rest : Respaced s t) :
      Respaced (cs ++ (blanks ++ s)) (cs ++ (blanks' ++ t))

/-! ## Blanks between words -/

@[simp] theorem words_nil : words [] = [] := rfl

/-- A run of blanks stands between words. -/
theorem words_append_blanks {blanks : List Char} (hne : blanks ≠ [])
    (h : allBlank blanks = true) (a b : List Char) :
    words (a ++ (blanks ++ b)) = words a ++ words b := by
  obtain ⟨c, blanks, rfl⟩ := List.exists_cons_of_ne_nil hne
  obtain ⟨hc, hblanks⟩ := Bool.and_eq_true_iff.1 h
  rw [List.cons_append, words_append_cons hc, words_append_of_allBlank hblanks]

/-- Blanks behind a text belong to none of its words. -/
theorem words_append_of_allBlank_right {b : List Char} (h : allBlank b = true) (a : List Char) :
    words (a ++ b) = words a := by
  by_cases hb : b = []
  · rw [hb, List.append_nil]
  · have hend := words_append_blanks hb h a []
    rwa [List.append_nil, words_nil, List.append_nil] at hend

/-- Trimming leaves the words of a text. -/
theorem words_trim (cs : List Char) : words (trim cs) = words cs := by
  obtain ⟨a, b, hcs, ha, hb⟩ := exists_append_trim cs
  calc words (trim cs) = words (trim cs ++ b) := (words_append_of_allBlank_right hb _).symm
    _ = words (a ++ (trim cs ++ b)) := (words_append_of_allBlank ha _).symm
    _ = words cs := by rw [← hcs]

/-- **Texts that differ in runs of blanks alone have the same words.** -/
theorem Respaced.words_eq (h : Respaced s t) : words s = words t := by
  induction h with
  | same => rfl
  | run cs nonempty nonempty' blank blank' _ ih =>
    rw [words_append_blanks nonempty blank, words_append_blanks nonempty' blank', ih]

/-! ## Words with spaces between them -/

/-- A word of a text is its own only word. -/
theorem words_of_mem_words {w : List Char} (h : w ∈ words cs) : words w = [w] := by
  have hne : w ≠ [] := by simpa using (List.mem_filter.1 h).2
  exact words_of_solid hne fun c hc => isBlank_of_mem_words h hc

/-- Words are found again in the text that they make with single spaces between them. -/
theorem words_intercalate {ws : List (List Char)} (h : ∀ w ∈ ws, words w = [w]) :
    words ([' '].intercalate ws) = ws := by
  induction ws with
  | nil => rfl
  | cons w ws ih =>
    obtain ⟨hw, hws⟩ := List.forall_mem_cons.1 h
    cases ws with
    | nil => rw [List.intercalate_singleton, hw]
    | cons v vs =>
      have hspace : isBlank ' ' = true := rfl
      rw [List.intercalate_cons_cons, List.append_assoc, List.singleton_append,
        words_append_cons hspace, hw, ih hws, List.singleton_append]

/-! ## Words in upper case -/

/-- A change of letters that leaves the blanks alone changes the words as it changes the text. -/
theorem words_map {f : Char → Char} (hf : ∀ c, isBlank (f c) = isBlank c) (cs : List Char) :
    words (cs.map f) = (words cs).map (·.map f) := by
  have hsplit : (cs.map f).splitOnP isBlank = (cs.splitOnP isBlank).map (·.map f) := by
    induction cs with
    | nil => rfl
    | cons c cs ih =>
      obtain ⟨v, vs, hv⟩ := List.exists_cons_of_ne_nil (List.splitOnP_ne_nil isBlank cs)
      rw [List.map_cons, List.splitOnP_cons_eq_if_modifyHead, List.splitOnP_cons_eq_if_modifyHead,
        hf, ih, hv]
      split
      · rfl
      · rfl
  rw [words, words, hsplit, List.filter_map]
  simp only [Function.comp_def, List.isEmpty_map]

/-- The words of a text in upper case are in upper case. -/
theorem map_toUpper_of_mem_words {w : List Char} (h : w ∈ words (cs.map Char.toUpper)) :
    w.map Char.toUpper = w := by
  rw [words_map isBlank_toUpper] at h
  obtain ⟨v, -, rfl⟩ := List.mem_map.1 h
  rw [List.map_map]
  exact List.map_congr_left fun c _ => toUpper_toUpper c

end Text
end SchemaScript
