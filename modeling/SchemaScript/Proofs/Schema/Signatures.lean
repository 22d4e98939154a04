import Mathlib.Data.List.Permutation
import SchemaScript.Render.Index

/-!
# What a signature tells of its columns

The signature of a list of columns is their names in order, with commas between them. Sorting
makes one list of all that have the same names, however often each of them occurs
(`Index.ordered_eq_iff`), so lists that are the same up to order have the same signature.

The other way round, the names have to be found again in the joined text. It is cut at all of its
commas, those within names included, so the text tells the names apart only as far as their
`Index.pieces` do (`Index.splitOn_signature`). Names without commas are pieces themselves, and
identified up to order; the list without names and the list of one empty name alone are not told
apart. The single name `a,b` and the two names `a` and `b` have the same signature, and an index
over the two is left out behind one over the other (`Index.signature_commaName`).
-/

namespace SchemaScript
namespace Index

variable {a b columns : List String}

/-! ## Names in order -/

/-- The names in order. -/
def ordered (columns : List String) : List String :=
  columns.mergeSort fun m n => decide (m ≤ n)

theorem signature_eq (columns : List String) :
    signature columns = ",".intercalate (ordered columns) :=
  rfl

theorem ordered_perm (columns : List String) : (ordered columns).Perm columns :=
  List.mergeSort_perm columns _

theorem pairwise_ordered (columns : List String) : (ordered columns).Pairwise (· ≤ ·) := by
  have hsorted : (ordered columns).Pairwise fun m n => decide (m ≤ n) = true := by
    refine List.pairwise_mergeSort (fun l m n hlm hmn => ?_) (fun m n => ?_) columns
    · rw [decide_eq_true_iff] at hlm hmn ⊢
      exact String.le_trans hlm hmn
    · rw [Bool.or_eq_true, decide_eq_true_iff, decide_eq_true_iff]
      exact String.le_total m n
  exact hsorted.imp of_decide_eq_true

/-- **Putting names in order forgets their order and nothing else.** -/
theorem ordered_eq_iff : ordered a = ordered b ↔ a.Perm b := by
  constructor
  · intro h
    exact (ordered_perm a).symm.trans (h ▸ ordered_perm b)
  · intro h
    have hperm : (ordered a).Perm (ordered b) :=
      (ordered_perm a).trans (h.trans (ordered_perm b).symm)
    exact hperm.eq_of_pairwise (fun _ _ _ _ => String.le_antisymm) (pairwise_ordered a)
      (pairwise_ordered b)

/-! ## Names and pieces -/

/-- What is left of names that are cut at their commas. Where there are no names there is one
empty piece, as in an empty text. -/
def pieces (names : List String) : List (List Char) :=
  if names = [] then [[]] else names.flatMap fun n => n.toList.splitOn ','

theorem splitOn_intercalate_eq_flatMap {names : List (List Char)} (h : names ≠ []) :
    ([','].intercalate names).splitOn ',' = names.flatMap (List.splitOn ',') := by
  induction names with
  | nil => exact absurd rfl h
  | cons n names ih =>
    cases names with
    | nil => rw [List.intercalate_singleton, List.flatMap_singleton]
    | cons m names =>
      have hcut := List.splitOnP_append_cons (p := (· == ',')) n ([','].intercalate (m :: names))
        (beq_self_eq_true ',')
      rw [List.intercalate_cons_cons, List.append_assoc, List.singleton_append,
        List.flatMap_cons, ← ih (List.cons_ne_nil m names)]
      exact hcut

/-- **A signature is cut into the pieces of its names.** -/
theorem splitOn_signature (columns : List String) :
    (signature columns).toList.splitOn ',' = pieces (ordered columns) := by
  rw [signature_eq, String.toList_intercalate, pieces]
  split
  · rename_i hnil
    rw [hnil]
    rfl
  · rename_i hne
    have hcomma : ",".toList = [','] := rfl
    rw [hcomma, splitOn_intercalate_eq_flatMap (by simpa using hne), List.flatMap_map]

theorem pieces_of_notMem (hne : columns ≠ []) (h : ∀ n ∈ columns, ',' ∉ n.toList) :
    pieces columns = columns.map String.toList := by
  rw [pieces, if_neg hne]
  induction columns with
  | nil => rfl
  | cons n ns ih =>
    obtain ⟨hn, hns⟩ := List.forall_mem_cons.1 h
    rw [List.flatMap_cons, List.splitOn_eq_singleton hn, List.map_cons, List.singleton_append]
    cases ns with
    | nil => rfl
    | cons m ms => rw [ih (List.cons_ne_nil m ms) hns]

/-- Two lists of names without commas have the same pieces if they are the same, or if there are
no names in one of them and one empty name in the other. -/
theorem pieces_eq_pieces_iff (ha : ∀ n ∈ a, ',' ∉ n.toList) (hb : ∀ n ∈ b, ',' ∉ n.toList) :
    pieces a = pieces b ↔ a = b ∨ a ++ b = [""] := by
  have hmap : Function.Injective (List.map String.toList) :=
    List.map_injective_iff.2 fun _ _ => String.toList_injective
  have hempty : ∀ {c : List String}, c.map String.toList = [[]] ↔ c = [""] :=
    hmap.eq_iff' rfl
  by_cases hanil : a = []
  · subst hanil
    by_cases hbnil : b = []
    · subst hbnil
      simp
    · rw [pieces_of_notMem hbnil hb, pieces, if_pos rfl, eq_comm, hempty, List.nil_append,
        or_iff_right (Ne.symm hbnil)]
  by_cases hbnil : b = []
  · subst hbnil
    rw [pieces_of_notMem hanil ha, pieces, if_pos rfl, hempty, List.append_nil,
      or_iff_right hanil]
  · have hlength : a ++ b ≠ [""] := by
      intro h
      have hsum := congrArg List.length h
      have hapos := List.length_pos_iff.2 hanil
      have hbpos := List.length_pos_iff.2 hbnil
      rw [List.length_append, List.length_singleton] at hsum
      omega
    rw [pieces_of_notMem hanil ha, pieces_of_notMem hbnil hb, or_iff_left hlength]
    exact hmap.eq_iff

/-! ## Signatures -/

theorem signature_eq_iff_pieces :
    signature a = signature b ↔ pieces (ordered a) = pieces (ordered b) := by
  rw [← splitOn_signature, ← splitOn_signature, ← String.toList_inj]
  constructor
  · exact congrArg _
  · intro h
    calc (signature a).toList = [','].intercalate ((signature a).toList.splitOn ',') :=
          (List.intercalate_splitOn ..).symm
      _ = [','].intercalate ((signature b).toList.splitOn ',') := congrArg _ h
      _ = (signature b).toList := List.intercalate_splitOn ..

/-- **A signature identifies columns up to order where no name has a comma.** For all columns it
identifies the pieces of their names, and whatever the names are it does not depend on the
order. -/
theorem signature_eq_signature_iff (a b : List String) :
    (signature a = signature b ↔ pieces (ordered a) = pieces (ordered b)) ∧
    (a.Perm b → signature a = signature b) ∧
    ((∀ n ∈ a ++ b, ',' ∉ n.toList) →
      (signature a = signature b ↔ a.Perm b ∨ a ++ b = [""])) := by
  refine ⟨signature_eq_iff_pieces, fun h => ?_, fun h => ?_⟩
  · rw [signature_eq, signature_eq, ordered_eq_iff.2 h]
  · have hordered : ordered a ++ ordered b = [""] ↔ a ++ b = [""] := by
      have hperm := (ordered_perm a).append (ordered_perm b)
      rw [← List.perm_singleton, ← List.perm_singleton]
      exact ⟨hperm.symm.trans, hperm.trans⟩
    have hmem : ∀ c : List String, c ⊆ a ++ b → ∀ n ∈ ordered c, ',' ∉ n.toList :=
      fun c hc n hn => h n (hc ((ordered_perm c).mem_iff.1 hn))
    rw [signature_eq_iff_pieces, pieces_eq_pieces_iff (hmem a (List.subset_append_left a b))
      (hmem b (List.subset_append_right a b)), ordered_eq_iff, hordered]

/-- Columns in another order, one of them named twice, and columns that are others. -/
theorem signature_eq_signature_iff_repeated :
    (∀ n ∈ ["b", "a", "b"] ++ ["b", "b", "a"], ',' ∉ n.toList) ∧
      (signature ["b", "a", "b"] = signature ["b", "b", "a"] ↔
        ["b", "a", "b"].Perm ["b", "b", "a"] ∨ ["b", "a", "b"] ++ ["b", "b", "a"] = [""]) :=
  ⟨by decide, (signature_eq_signature_iff _ _).2.2 (by decide)⟩

/-- A name with a comma in it has the signature of two names, and an index over these two is left
out behind one over the other. -/
theorem signature_commaName :
    signature ["a,b"] = signature ["a", "b"] ∧ ¬ ["a,b"].Perm ["a", "b"] ∧
      outcomes "t" [] [{ name := some "i", columns := ["a,b"] },
        { name := some "j", columns := ["a", "b"] }] =
          [.kept { name := some "i", columns := ["a,b"] }, .duplicate "j"] := by
  have hsame : signature ["a,b"] = signature ["a", "b"] := by cbv
  refine ⟨hsame, by decide, ?_⟩
  cbv

end Index
end SchemaScript
