import SchemaScript.Proofs.Text.Runs

/-!
# Removing what is found in a text

Casts and collations are removed in the same way. From left to right, what a search finds is passed
over, and a character at which it finds nothing is kept (`Removes`). A text stays as it is exactly
if nothing is found anywhere in it (`Removes.eq_self_iff`).

If no find reaches across a character, as none reaches across a quote, then the character cuts the
text into two parts with finds of their own (`Removes.append_cons`), and it may as well be doubled
before the removal (`Removes.double`).
-/

namespace SchemaScript
namespace Text

/-- Whether a function removes from a text what another one finds at the beginning of a text, and
finds again and again. -/
structure Removes (behind? : List Char → Option (List Char)) (remove : List Char → List Char) :
    Prop where
  suffix : ∀ {cs rest}, behind? cs = some rest → rest <:+ cs
  shorter : ∀ {cs rest}, behind? cs = some rest → rest.length < cs.length
  nil : remove [] = []
  found : ∀ {c cs rest}, behind? (c :: cs) = some rest → remove (c :: cs) = remove rest
  kept : ∀ {c cs}, behind? (c :: cs) = none → remove (c :: cs) = c :: remove cs

namespace Removes

variable {behind? : List Char → Option (List Char)} {remove : List Char → List Char}

/-- Nothing is found in the empty text. -/
theorem search_nil (h : Removes behind? remove) : behind? [] = none :=
  Option.eq_none_iff_forall_not_mem.2 fun _ hrest => Nat.not_lt_zero _ (h.shorter hrest)

/-- What is removed behind a find, and behind a character that is kept, is removed from the
text. -/
theorem induct (h : Removes behind? remove) {p : List Char → Prop} (nil : p [])
    (found : ∀ c cs rest, behind? (c :: cs) = some rest → p rest → p (c :: cs))
    (kept : ∀ c cs, behind? (c :: cs) = none → p cs → p (c :: cs)) (cs : List Char) : p cs := by
  match cs with
  | [] => exact nil
  | c :: cs =>
    cases hfind : behind? (c :: cs) with
    | none => exact kept c cs hfind (induct h nil found kept cs)
    | some rest =>
      have hshorter := h.shorter hfind
      exact found c cs rest hfind (induct h nil found kept rest)
termination_by cs.length
decreasing_by
  · exact Nat.lt_succ_self _
  · exact hshorter

theorem subset (h : Removes behind? remove) (cs : List Char) : remove cs ⊆ cs := by
  induction cs using h.induct with
  | nil => rw [h.nil]; exact List.Subset.refl _
  | found c cs rest hfind ih =>
    rw [h.found hfind]
    exact fun x hx => (h.suffix hfind).mem (ih hx)
  | kept c cs hfind ih =>
    rw [h.kept hfind]
    exact List.cons_subset_cons c ih

theorem length_le (h : Removes behind? remove) (cs : List Char) :
    (remove cs).length ≤ cs.length := by
  induction cs using h.induct with
  | nil => rw [h.nil]
  | found c cs rest hfind ih =>
    rw [h.found hfind]
    exact Nat.le_trans ih (Nat.le_of_lt (h.shorter hfind))
  | kept c cs hfind ih =>
    rw [h.kept hfind]
    exact Nat.succ_le_succ ih

/-- **A text stays as it is exactly if nothing is found in it.** -/
theorem eq_self_iff (h : Removes behind? remove) {cs : List Char} :
    remove cs = cs ↔ ¬ ∃ a b, cs = a ++ b ∧ (behind? b).isSome = true := by
  induction cs using h.induct with
  | nil =>
    refine ⟨fun _ => ?_, fun _ => h.nil⟩
    rintro ⟨a, b, hab, hb⟩
    rw [(List.append_eq_nil_iff.1 hab.symm).2, h.search_nil] at hb
    cases hb
  | found c cs rest hfind ih =>
    rw [h.found hfind]
    constructor
    · -- what is left is shorter
      intro hx
      have hle := h.length_le rest
      rw [hx] at hle
      exact absurd (h.shorter hfind) (Nat.not_lt.2 hle)
    · exact fun hx => absurd ⟨[], c :: cs, rfl, by rw [hfind]; rfl⟩ hx
  | kept c cs hfind ih =>
    rw [h.kept hfind, List.cons_inj_right, ih]
    refine not_congr ⟨?_, ?_⟩
    · rintro ⟨a, b, rfl, hb⟩
      exact ⟨c :: a, b, rfl, hb⟩
    · rintro ⟨a, b, hab, hb⟩
      cases a with
      | nil =>
        rw [List.nil_append] at hab
        rw [← hab, hfind] at hb
        cases hb
      | cons d a => exact ⟨a, b, (List.cons.inj hab).2, hb⟩

section Across

variable {q : Char}

/-- No find reaches across the character. -/
theorem append_cons (h : Removes behind? remove)
    (hq : ∀ a b, behind? (a ++ q :: b) = (behind? a).map (· ++ q :: b)) (a b : List Char) :
    remove (a ++ q :: b) = remove a ++ q :: remove b := by
  induction a using h.induct with
  | nil =>
    have hfind := hq [] b
    rw [h.search_nil] at hfind
    rw [List.nil_append, h.kept hfind, h.nil, List.nil_append]
  | found c a rest hfind ih =>
    have hfind' := hq (c :: a) b
    rw [hfind, List.cons_append] at hfind'
    rw [List.cons_append, h.found hfind', ih, h.found hfind]
  | kept c a hfind ih =>
    have hfind' := hq (c :: a) b
    rw [hfind, List.cons_append] at hfind'
    rw [List.cons_append, h.kept hfind', ih, h.kept hfind, List.cons_append]

/-- The character is doubled before the removal or behind it. -/
theorem double (h : Removes behind? remove)
    (hq : ∀ a b, behind? (a ++ q :: b) = (behind? a).map (· ++ q :: b)) (cs : List Char) :
    remove (double q cs) = Text.double q (remove cs) := by
  by_cases hmem : q ∈ cs
  · obtain ⟨a, b, hcs, ha⟩ := List.eq_append_cons_of_mem hmem
    have ha' : q ∉ remove a := fun hx => ha (h.subset a hx)
    have hshorter : b.length < cs.length := by
      rw [hcs, List.length_append, List.length_cons]
      omega
    have hback := h.append_cons hq [] (Text.double q b)
    rw [List.nil_append, h.nil, List.nil_append] at hback
    rw [hcs, double_append_cons ha, h.append_cons hq, hback, double h hq b, h.append_cons hq,
      double_append_cons ha']
  · rw [double_eq_self hmem, double_eq_self fun hx => hmem (h.subset cs hx)]
termination_by cs.length
decreasing_by exact hshorter

end Across

end Removes

end Text
end SchemaScript
