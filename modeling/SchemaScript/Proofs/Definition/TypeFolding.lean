import Mathlib.Data.List.Nodup
import SchemaScript.DataType
import SchemaScript.Proofs.Text.Respacing

/-!
# Folded type names and the families of types

Folding looks at the words of a spelling in upper case and at nothing else, so neither the case of
letters nor the blanks between the words and around them matter (`words_of_sameIgnoringCase`,
`words_of_respaced`, `words_trimmed`).

What it gives is either the name of a type that columns are read with, or the words themselves with
single spaces between them, if they have no other name (`fold_mem_readable_or`,
`fold_eq_intercalate`). Either way the result is a *folded* name, one that folding leaves as it is,
and there are no others of this kind (`fold_eq_self_iff`): no result of folding is folded any
further.

The families of types are lists of folded names. No name stands twice in them, as long as small
integers of length one do not count as truth values, so a type belongs to one family at most
(`count_families_le_one`).
-/

namespace SchemaScript
namespace DataType

variable {n name other : String}

/-! ## The words of a spelling -/

/-- The words of a spelling are those of its upper case. -/
theorem words_eq_map (name : String) :
    words name = (Text.words (Text.upper name).toList).map String.ofList := by
  rw [Text.toList_upper, Text.words_map Text.isBlank_toUpper, List.map_map]
  refine List.map_congr_left fun w _ => ?_
  rw [Function.comp_apply, Text.upper, String.toList_ofList]

theorem map_toList_words (name : String) :
    (words name).map String.toList = Text.words (Text.upper name).toList := by
  rw [words_eq_map, List.map_map]
  simp [Function.comp_def]

/-- The words of a spelling are in upper case. -/
theorem upper_of_mem_words {w : String} (h : w ∈ words name) : Text.upper w = w := by
  have hmem : w.toList ∈ Text.words (name.toList.map Char.toUpper) := by
    rw [← Text.toList_upper, ← map_toList_words]
    exact List.mem_map_of_mem h
  rw [← String.toList_inj, Text.toList_upper]
  exact Text.map_toUpper_of_mem_words hmem

/-- The words of a spelling are found again if they are put together with single spaces. -/
theorem words_intercalate_words (name : String) :
    words (" ".intercalate (words name)) = words name := by
  have hspace : " ".toList = [' '] := rfl
  have hwords : ∀ w ∈ (words name).map String.toList, Text.words w = [w] := by
    rw [map_toList_words]
    exact fun w hw => Text.words_of_mem_words hw
  have hsplit : Text.words (" ".intercalate (words name)).toList =
      (words name).map String.toList := by
    rw [String.toList_intercalate, hspace, Text.words_intercalate hwords]
  calc words (" ".intercalate (words name))
      = ((words name).map String.toList).map fun w => Text.upper (String.ofList w) :=
        congrArg _ hsplit
    _ = (words name).map Text.upper := by simp [Function.comp_def]
    _ = (words name).map fun w => w := List.map_congr_left fun w hw => upper_of_mem_words hw
    _ = words name := List.map_id' _

/-- The case of letters does not matter. -/
theorem words_of_sameIgnoringCase (h : Text.sameIgnoringCase other name = true) :
    words other = words name := by
  rw [words_eq_map, words_eq_map, Text.upper_eq_of_sameIgnoringCase h]

/-- Which blanks stand between the words does not matter. -/
theorem words_of_respaced (h : Text.Respaced other.toList name.toList) :
    words other = words name := by
  rw [words, words, h.words_eq]

/-- Blanks around the words do not matter. -/
theorem words_trimmed (name : String) : words (Text.trimmed name) = words name := by
  rw [words, words, Text.toList_trimmed, Text.words_trim]

/-! ## The types that columns are read with -/

/-- The types that columns can be read with. -/
def readable : List String :=
  vocabulary.map fun word => (canonical word).1

/-- The same types, each once. -/
def readableNames : List String :=
  ["TINYINT", "SMALLINT", "MEDIUMINT", "INT", "BIGINT", "CHAR", "NCHAR", "VARCHAR", "NVARCHAR",
    "TEXT", "TINYTEXT", "MEDIUMTEXT", "LONGTEXT", "NTEXT", "CLOB", "DATE", "TIME", "DATETIME",
    "DATETIME2", "TIMESTAMP", "TIMESTAMPTZ", "YEAR", "REAL", "FLOAT", "DOUBLE", "DECIMAL",
    "NUMERIC", "MONEY", "BOOLEAN", "BIT", "ENUM", "SET", "BLOB", "LONGBLOB", "BINARY",
    "VARBINARY", "BYTEA", "JSON", "JSONB", "UUID", "UNIQUEIDENTIFIER", "XML"]

theorem mem_readable_iff : n ∈ readable ↔ n ∈ readableNames := by
  have hnames : readable.eraseDups = readableNames := by decide +kernel
  rw [← hnames, List.mem_eraseDups]

/-- The types that columns are read with are single words in upper case. -/
theorem words_of_mem_readable (h : n ∈ readable) : words n = [n] := by
  have hall : ∀ n ∈ readableNames, words n = [n] := by decide +kernel
  exact hall n (mem_readable_iff.1 h)

theorem upper_of_mem_readable (n : String) (h : n ∈ readable) : Text.upper n = n := by
  have hmem : n ∈ words n := by
    rw [words_of_mem_readable h]
    exact List.mem_singleton_self n
  exact upper_of_mem_words hmem

/-! ## Folded names -/

/-- Words that neither the phrases nor the synonyms give another name. The serial types are among
the synonyms, yet they keep their names. -/
structure HasNoOtherName (ws : List String) : Prop where
  noPhrase : ∀ entry ∈ phrases, ws ≠ entry.1
  noSynonym : ∀ entry ∈ synonyms, ws = [entry.1] → entry.2.2 = true

/-- A folded name: words in upper case with single spaces between them, and no spelling of another
name. -/
structure IsFolded (name : String) : Prop where
  spelling : " ".intercalate (words name) = name
  noOther : HasNoOtherName (words name)

/-- Words without another name are put together as they are. -/
theorem HasNoOtherName.foldWords_eq {ws : List String} (h : HasNoOtherName ws)
    (hupper : ∀ w ∈ ws, Text.upper w = w) : foldWords ws = " ".intercalate ws := by
  have hnone : phrases.lookup ws = none :=
    List.lookup_eq_none_iff.2 fun entry hentry => bne_iff_ne.2 (h.noPhrase entry hentry)
  unfold foldWords
  rw [hnone]
  match ws with
  | [] => rfl
  | _ :: _ :: _ => rfl
  | [w] =>
    rw [String.intercalate_singleton]
    simp only [canonical, hupper w (List.mem_singleton_self w)]
    cases hfound : synonyms.lookup w with
    | none => rfl
    | some found =>
      -- the only words that are listed and yet stay are those of the serial types
      obtain ⟨before, behind, hentries, -⟩ := List.lookup_eq_some_iff.1 hfound
      have hmem : (w, found) ∈ synonyms := by simp [hentries]
      have hcounting : found.2 = true := h.noSynonym _ hmem rfl
      obtain ⟨target, counting⟩ := found
      subst hcounting
      rfl

theorem fold_eq_intercalate (h : HasNoOtherName (words name)) :
    fold name = " ".intercalate (words name) :=
  h.foldWords_eq fun _ hw => upper_of_mem_words hw

/-- Folding leaves a folded name as it is. -/
theorem IsFolded.fold_eq (h : IsFolded name) : fold name = name :=
  (fold_eq_intercalate h.noOther).trans h.spelling

/-- The types that columns are read with have folded names. -/
theorem isFolded_of_mem_readable (h : n ∈ readable) : IsFolded n := by
  have hphrases : ∀ entry ∈ phrases, entry.1.length ≠ 1 := by decide
  have hsynonyms : ∀ entry ∈ synonyms, entry.1 ∉ readableNames := by decide
  have hwords := words_of_mem_readable h
  refine ⟨?_, fun entry hentry heq => ?_, fun entry hentry heq => ?_⟩
  · rw [hwords, String.intercalate_singleton]
  · rw [hwords] at heq
    exact absurd (heq ▸ rfl) (hphrases entry hentry)
  · rw [hwords, List.singleton_inj] at heq
    exact absurd (mem_readable_iff.1 (heq ▸ h)) (hsynonyms entry hentry)

/-- The types that columns are read with are the canonical names of themselves. -/
theorem fold_of_mem_readable (n : String) (h : n ∈ readable) : fold n = n :=
  (isFolded_of_mem_readable h).fold_eq

/-- A spelling is folded to the name of a type that columns are read with, or its words have no
other name. -/
theorem fold_mem_readable_or (name : String) :
    fold name ∈ readable ∨ HasNoOtherName (words name) := by
  have hphrases : ∀ entry ∈ phrases, foldWords entry.1 ∈ readableNames := by decide
  have hsynonyms : ∀ entry ∈ synonyms, entry.2.2 = false →
      foldWords [entry.1] ∈ readableNames := by decide
  by_cases hphrase : ∃ entry ∈ phrases, words name = entry.1
  · obtain ⟨entry, hentry, hwords⟩ := hphrase
    rw [fold, hwords]
    exact Or.inl (mem_readable_iff.2 (hphrases entry hentry))
  by_cases hsynonym : ∃ entry ∈ synonyms, words name = [entry.1] ∧ entry.2.2 = false
  · obtain ⟨entry, hentry, hwords, hcounting⟩ := hsynonym
    rw [fold, hwords]
    exact Or.inl (mem_readable_iff.2 (hsynonyms entry hentry hcounting))
  · refine Or.inr ⟨fun entry hentry heq => hphrase ⟨entry, hentry, heq⟩, fun entry hentry heq => ?_⟩
    by_contra hcounting
    exact hsynonym ⟨entry, hentry, heq, Bool.not_eq_true _ ▸ hcounting⟩

/-- **What folding gives is folded.** -/
theorem isFolded_fold (name : String) : IsFolded (fold name) := by
  rcases fold_mem_readable_or name with hreadable | hother
  · exact isFolded_of_mem_readable hreadable
  · have hfold := fold_eq_intercalate hother
    have hwords : words (fold name) = words name := by rw [hfold, words_intercalate_words]
    constructor
    · rw [hwords, hfold]
    · rwa [hwords]

/-- **Folding leaves the folded names as they are, and no others.** -/
theorem fold_eq_self_iff : fold name = name ↔ IsFolded name :=
  ⟨fun h => h ▸ isFolded_fold name, IsFolded.fold_eq⟩

/-- Words that spell no other name stay, in upper case and with single spaces between them. -/
example : fold " interval\tday  to Second" = "INTERVAL DAY TO SECOND" := by decide +kernel

/-! ## Families of types -/

/-- The folded names of the types that hold truth values if they have the given length. -/
def booleanNames (length : Option UInt32) : List String :=
  if length = none then ["BOOLEAN", "BIT"]
  else if length = some 1 then ["BOOLEAN", "TINYINT", "BIT"]
  else ["BOOLEAN"]

/-- The families of types, each with the folded names of its types. -/
def families (length : Option UInt32) : List (List String) :=
  [booleanNames length, integerNames, fractionalNames, textNames]

theorem isBoolean_eq_contains (name : String) (length : Option UInt32) :
    isBoolean name length = (booleanNames length).contains (fold name) := by
  rw [Bool.eq_iff_iff, booleanNames]
  by_cases hnone : length = none
  · simp [isBoolean, hnone]
  by_cases hone : length = some 1
  · simp [isBoolean, hone, or_assoc]
  · simp [isBoolean, hnone, hone]

/-- Which of the families a type belongs to. -/
theorem families_map_contains (name : String) (length : Option UInt32) :
    (families length).map (·.contains (fold name)) =
      [isBoolean name length, isInteger name, isFractional name, isText name] := by
  rw [isBoolean_eq_contains]
  rfl

/-- No name stands twice in the families, as long as small integers do not count as truth
values. -/
theorem nodup_families {length : Option UInt32} (h : length ≠ some 1) :
    (families length).flatten.Nodup := by
  by_cases hnone : length = none
  · rw [hnone]
    decide
  · have hboolean : booleanNames length = ["BOOLEAN"] := by
      rw [booleanNames, if_neg hnone, if_neg h]
    rw [families, hboolean]
    decide

/-- A name is in no more of the lists than it stands in all of them together. -/
theorem count_contains_le_count_flatten (n : String) (lists : List (List String)) :
    (lists.map (·.contains n)).count true ≤ lists.flatten.count n := by
  induction lists with
  | nil => exact le_rfl
  | cons names lists ih =>
    rw [List.map_cons, List.flatten_cons, List.count_append, List.count_cons, Nat.add_comm]
    refine Nat.add_le_add ?_ ih
    split
    · rename_i hmem
      exact List.count_pos_iff.2 (List.contains_iff_mem.1 (beq_iff_eq.1 hmem))
    · exact Nat.zero_le _

/-- **A type belongs to one family at most**, small integers of length one aside: these are whole
numbers and truth values. -/
theorem count_families_le_one (name : String) {length : Option UInt32} (h : length ≠ some 1) :
    [isBoolean name length, isInteger name, isFractional name, isText name].count true ≤ 1 := by
  rw [← families_map_contains]
  calc ((families length).map (·.contains (fold name))).count true
      ≤ (families length).flatten.count (fold name) := count_contains_le_count_flatten _ _
    _ ≤ 1 := List.nodup_iff_count_le_one.1 (nodup_families h) _

/-- **Folding a type name twice is folding it once, and the families of types are disjoint.** The
folded names are the ones that folding leaves alone. Neither the case of letters nor the blanks
between the words and around them matter. A type belongs to one at most of the families of whole
numbers, of numbers with a fraction and of character data, and to none of them if it holds truth
values without having a length. -/
theorem fold_idempotent_families_disjoint (name : String) :
    fold (fold name) = fold name ∧
    (fold name = name ↔ IsFolded name) ∧
    (∀ other, Text.sameIgnoringCase other name = true → fold other = fold name) ∧
    (∀ other, Text.Respaced other.toList name.toList → fold other = fold name) ∧
    fold (Text.trimmed name) = fold name ∧
    [isInteger name, isFractional name, isText name].count true ≤ 1 ∧
    (isBoolean name none = true →
      isInteger name = false ∧ isFractional name = false ∧ isText name = false) := by
  have hfamilies := count_families_le_one name (Option.some_ne_none 1).symm
  refine ⟨(isFolded_fold name).fold_eq, fold_eq_self_iff, fun other h => ?_, fun other h => ?_, ?_,
    ?_, fun hboolean => ?_⟩
  · rw [fold, fold, words_of_sameIgnoringCase h]
  · rw [fold, fold, words_of_respaced h]
  · rw [fold, fold, words_trimmed]
  · exact List.count_le_count_cons.trans hfamilies
  · rw [hboolean, List.count_cons_self] at hfamilies
    have hnone : true ∉ [isInteger name, isFractional name, isText name] :=
      List.count_eq_zero.1 (by omega)
    simpa using hnone

/-- Other spellings of a type of two words, and another word for truth values. -/
theorem fold_idempotent_families_disjoint_spellings :
    (Text.sameIgnoringCase "Double Precision" "double precision" = true ∧
      fold "Double Precision" = fold "double precision") ∧
    (Text.Respaced "double\t\u3000precision".toList "double precision".toList ∧
      fold "double\t\u3000precision" = fold "double precision") ∧
    (isBoolean " bool" none = true ∧
      isInteger " bool" = false ∧ isFractional " bool" = false ∧ isText " bool" = false) := by
  have hcase : Text.sameIgnoringCase "Double Precision" "double precision" = true := by decide
  have hspaces : Text.Respaced "double\t\u3000precision".toList "double precision".toList := by
    have htabbed : "double\t\u3000precision".toList =
        "double".toList ++ (['\t', '\u3000'] ++ "precision".toList) := by decide
    have hspaced : "double precision".toList =
        "double".toList ++ ([' '] ++ "precision".toList) := by decide
    rw [htabbed, hspaced]
    exact .run _ (by decide) (by decide) (by decide) (by decide) (.same _)
  have hboolean : isBoolean " bool" none = true := by decide
  obtain ⟨-, -, hfold, hrespaced, -⟩ := fold_idempotent_families_disjoint "double precision"
  obtain ⟨-, -, -, -, -, -, hfamilies⟩ := fold_idempotent_families_disjoint " bool"
  exact ⟨⟨hcase, hfold _ hcase⟩, ⟨hspaces, hrespaced _ hspaces⟩, hboolean, hfamilies hboolean⟩

end DataType
end SchemaScript
