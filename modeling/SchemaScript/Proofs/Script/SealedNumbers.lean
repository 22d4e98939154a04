import SchemaScript.Proofs.Number.Spelled
import SchemaScript.Proofs.Script.Sealed

/-!
# Numbers are sealed

Numbers are written in digits and periods, a sign in front, and perhaps an exponent with a sign of
its own. No two hyphens meet in them and none stands at the end, so they are sealed: all texts that
are read as decimals (`Number.isSealed_of_decimal?`), and numbers are printed as such.
-/

namespace SchemaScript
namespace Number

open Script

variable {cs : List Char}

theorem isNumeral_of_natural? {n : Nat} (h : natural? cs = some n) : cs ≠ [] ∧ IsNumeral cs := by
  unfold natural? at h
  split at h
  · rename_i hcs
    exact ⟨hcs.1, fun c hc => Or.inl (List.all_eq_true.1 hcs.2 c hc)⟩
  · cases h

theorem isSealed_of_integer? {i : Int} (h : integer? cs = some i) : IsSealed cs := by
  unfold integer? at h
  split at h
  · obtain ⟨n, hn, -⟩ := Option.map_eq_some_iff.1 h
    exact IsSealed.cons rfl (IsSealed.of_isNumeral (isNumeral_of_natural? hn).2)
  · obtain ⟨n, hn, -⟩ := Option.map_eq_some_iff.1 h
    obtain ⟨hne, hds⟩ := isNumeral_of_natural? hn
    simpa using IsSealed.minus hne hds IsSealed.nil
  · obtain ⟨n, hn, -⟩ := Option.map_eq_some_iff.1 h
    exact IsSealed.of_isNumeral (isNumeral_of_natural? hn).2

theorem isSealed_of_exponent? {e : Int} (h : exponent? cs = some e) : IsSealed cs := by
  unfold exponent? at h
  split at h
  · exact IsSealed.nil
  · rename_i c rest
    split at h
    · rename_i hc
      have hinert : Mode.isInert c = true := by
        rcases hc with rfl | rfl <;> rfl
      exact IsSealed.cons hinert (isSealed_of_integer? h)
    · cases h

/-- **A text that is read as a decimal is sealed.** -/
theorem isSealed_of_decimal? (h : (decimal? cs).isSome = true) : IsSealed cs := by
  obtain ⟨sign, w, tail, rfl, hsign, hne, hw, htail⟩ := exists_of_decimal? h
  obtain ⟨e, he⟩ := Option.isSome_iff_exists.1 htail
  have hbehind : IsSealed (w ++ tail) :=
    (IsSealed.of_isNumeral hw).append (isSealed_of_exponent? he)
  simp only [List.mem_cons, List.not_mem_nil, or_false] at hsign
  rcases hsign with rfl | rfl | rfl
  · exact hbehind
  · exact IsSealed.minus (w := w) hne hw (isSealed_of_exponent? he)
  · exact IsSealed.cons rfl hbehind

theorem isSealed_plainText (x : Binary64) : IsSealed (plainText x) :=
  isSealed_of_decimal? (isSome_decimal?_plainText x)

end Number
end SchemaScript
