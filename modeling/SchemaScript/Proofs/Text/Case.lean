import SchemaScript.Text.FullUpper

/-!
# Upper and lower case

Texts that differ in the case of letters alone have the same upper case, and no other character
changes in lower case or in upper case.
-/

namespace SchemaScript
namespace Text

theorem toUpper_toLower (c : Char) : c.toLower.toUpper = c.toUpper := by
  have hall : ∀ d ∈ (List.range' 65 26).map Char.ofNat, d.toLower.toUpper = d.toUpper := by
    decide
  by_cases hc : c.val ≥ 'A'.val ∧ c.val ≤ 'Z'.val
  · have hupper : 65 ≤ c.toNat ∧ c.toNat ≤ 90 := by
      simpa [UInt32.le_iff_toNat_le] using hc
    refine hall c ?_
    rw [← Char.ofNat_toNat c]
    refine List.mem_map_of_mem (List.mem_range'_1.2 ?_)
    omega
  · have hlower : c.toLower = c := dif_neg hc
    rw [hlower]

/-- The letters in lower case, as a list. -/
def lowerLetters : List Char :=
  (List.range' 97 26).map Char.ofNat

/-- No character changes in upper case but a letter in lower case. -/
theorem toUpper_eq_or_mem (c : Char) : c.toUpper = c ∨ c ∈ lowerLetters := by
  by_cases hc : c.val ≥ 'a'.val ∧ c.val ≤ 'z'.val
  · have hlower : 97 ≤ c.toNat ∧ c.toNat ≤ 122 := by
      simpa [UInt32.le_iff_toNat_le] using hc
    refine Or.inr ?_
    rw [← Char.ofNat_toNat c]
    refine List.mem_map_of_mem (List.mem_range'_1.2 ?_)
    omega
  · exact Or.inl (dif_neg hc)

theorem toUpper_toUpper (c : Char) : c.toUpper.toUpper = c.toUpper := by
  have hall : ∀ d ∈ lowerLetters, d.toUpper.toUpper = d.toUpper := by decide
  rcases toUpper_eq_or_mem c with hupper | hlower
  · rw [hupper, hupper]
  · exact hall c hlower

/-- Lower case is that of an upper-case letter, or the character itself. -/
theorem toLower_eq_or (c : Char) :
    c.toLower = c ∨ (65 ≤ c.toNat ∧ c.toNat ≤ 90 ∧ c.toLower.toNat = c.toNat + 32) := by
  by_cases hc : c.val ≥ 'A'.val ∧ c.val ≤ 'Z'.val
  · have hupper : 65 ≤ c.toNat ∧ c.toNat ≤ 90 := by
      simpa [UInt32.le_iff_toNat_le] using hc
    have hsum : (c.val + ('a'.val - 'A'.val)).toNat = c.toNat + 32 := by
      rw [UInt32.toNat_add]
      exact Nat.mod_eq_of_lt (show c.toNat + 32 < 2 ^ 32 by omega)
    have hlower : c.toLower.toNat = c.toNat + 32 := by
      unfold Char.toLower
      rw [dif_pos hc, ← hsum]
      rfl
    exact Or.inr ⟨hupper.1, hupper.2, hlower⟩
  · exact Or.inl (dif_neg hc)

/-- Lower case is the case of letters alone. -/
theorem eq_of_toLower_eq {c d : Char} (h : c.toLower = d) (hd : d.toNat < 97) : c = d := by
  subst h
  rcases toLower_eq_or c with heq | ⟨hupper, -, hlower⟩
  · exact heq.symm
  · omega

theorem upper_eq_of_sameIgnoringCase {a b : String} (h : sameIgnoringCase a b = true) :
    upper a = upper b := by
  have hfold : foldCase a.toList = foldCase b.toList := by
    simpa [sameIgnoringCase] using h
  have hupper : ∀ s : String, upper s = String.ofList ((foldCase s.toList).map Char.toUpper) := by
    intro s
    simp only [upper, foldCase, List.map_map, Function.comp_def, toUpper_toLower]
  rw [hupper a, hupper b, hfold]

/-- A text that differs from one in ASCII by the case of letters alone is one in ASCII. -/
theorem toNat_lt_of_sameIgnoringCase {a b : String} (h : sameIgnoringCase a b = true)
    (hb : ∀ c ∈ b.toList, c.toNat < 0x80) : ∀ c ∈ a.toList, c.toNat < 0x80 := by
  have hlower : ∀ c : Char, c.toNat < 0x80 ↔ c.toLower.toNat < 0x80 := by
    intro c
    rcases toLower_eq_or c with heq | hupper
    · rw [heq]
    · omega
  have hfold : foldCase a.toList = foldCase b.toList := by
    simpa [sameIgnoringCase] using h
  intro c hc
  have hmem : c.toLower ∈ foldCase b.toList := hfold ▸ List.mem_map_of_mem hc
  obtain ⟨d, hd, heq⟩ := List.mem_map.1 hmem
  rw [hlower, ← heq, ← hlower]
  exact hb d hd

theorem fullUpper_eq_upper {a b : String} (h : sameIgnoringCase a b = true)
    (hb : ∀ c ∈ b.toList, c.toNat < 0x80) : fullUpper a = upper b := by
  rw [fullUpper_of_ascii (toNat_lt_of_sameIgnoringCase h hb), upper_eq_of_sameIgnoringCase h]

end Text
end SchemaScript
