/-!
# Doubled quotes

Inside a quoted name or string the closing quote is written twice. `double` writes a text
so that it can stand between two quotes, and `undouble` turns every pair of quotes back
into one. Reading is the inverse of writing (`undouble_double`); the converse fails, since
`undouble` also accepts a quote that stands alone.
-/

namespace SchemaScript
namespace Text

/-- Writes every quote `q` twice. -/
def double (q : Char) : List Char → List Char
  | [] => []
  | c :: cs => if c = q then q :: q :: double q cs else c :: double q cs

/-- Replaces, from the left, every two neighbouring quotes `q` by one. -/
def undouble (q : Char) : List Char → List Char
  | [] => []
  | [c] => [c]
  | c :: d :: cs => if c = q ∧ d = q then q :: undouble q cs else c :: undouble q (d :: cs)

/-- The text between two quotes `q`, the quotes inside it doubled. -/
def enclose (q : Char) (s : String) : String :=
  String.ofList (q :: double q s.toList ++ [q])

@[simp] theorem double_nil (q : Char) : double q [] = [] := rfl

@[simp] theorem double_quote (q : Char) (cs : List Char) :
    double q (q :: cs) = q :: q :: double q cs := by
  simp [double]

theorem double_cons_of_ne {q c : Char} (h : c ≠ q) (cs : List Char) :
    double q (c :: cs) = c :: double q cs := by
  simp [double, h]

@[simp] theorem double_append (q : Char) (a b : List Char) :
    double q (a ++ b) = double q a ++ double q b := by
  induction a with
  | nil => rfl
  | cons c cs ih => by_cases h : c = q <;> simp [double, h, ih]

@[simp] theorem toList_enclose (q : Char) (s : String) :
    (enclose q s).toList = q :: double q s.toList ++ [q] := by
  simp [enclose]

/-- A text without quotes is written as it is. -/
theorem double_eq_self {q : Char} {cs : List Char} (h : q ∉ cs) : double q cs = cs := by
  induction cs with
  | nil => rfl
  | cons c cs ih =>
    simp only [List.mem_cons, not_or] at h
    rw [double_cons_of_ne (Ne.symm h.1), ih h.2]

/-- Nothing is doubled up to the first quote. -/
theorem double_append_cons {q : Char} {a : List Char} (ha : q ∉ a) (b : List Char) :
    double q (a ++ q :: b) = a ++ q :: q :: double q b := by
  rw [double_append, double_eq_self ha, double_quote]

/-- Doubling quotes brings no other characters in. -/
theorem double_subset (q : Char) (cs : List Char) : double q cs ⊆ cs := by
  induction cs with
  | nil => exact List.Subset.refl _
  | cons c cs ih =>
    by_cases h : c = q
    · subst h
      rw [double_quote]
      exact List.cons_subset.2 ⟨List.mem_cons_self, List.cons_subset_cons c ih⟩
    · rw [double_cons_of_ne h]
      exact List.cons_subset_cons c ih

theorem count_double (q : Char) (cs : List Char) :
    (double q cs).count q = 2 * cs.count q := by
  induction cs with
  | nil => rfl
  | cons c cs ih =>
    by_cases h : c = q
    · subst h
      rw [double_quote, List.count_cons_self, List.count_cons_self, List.count_cons_self, ih]
      omega
    · rw [double_cons_of_ne h, List.count_cons_of_ne h, List.count_cons_of_ne h, ih]

/-- Only a text without quotes is written as it is. -/
theorem double_eq_self_iff {q : Char} {cs : List Char} : double q cs = cs ↔ q ∉ cs := by
  refine ⟨fun h => ?_, double_eq_self⟩
  have hcount := count_double q cs
  rw [h] at hcount
  exact List.count_eq_zero.1 (by omega)

/-- Two different quotes are doubled in either order. -/
theorem double_comm {p q : Char} (h : p ≠ q) (cs : List Char) :
    double p (double q cs) = double q (double p cs) := by
  induction cs with
  | nil => rfl
  | cons c cs ih =>
    by_cases hp : c = p
    · subst hp
      rw [double_cons_of_ne h, double_quote, double_quote, double_cons_of_ne h,
        double_cons_of_ne h, ih]
    by_cases hq : c = q
    · subst hq
      rw [double_quote, double_cons_of_ne hp, double_cons_of_ne hp, double_cons_of_ne hp,
        double_quote, ih]
    · rw [double_cons_of_ne hq, double_cons_of_ne hp, double_cons_of_ne hp,
        double_cons_of_ne hq, ih]

theorem undouble_cons_of_ne {q c : Char} (h : c ≠ q) (cs : List Char) :
    undouble q (c :: cs) = c :: undouble q cs := by
  cases cs with
  | nil => rfl
  | cons d cs => simp [undouble, h]

/-- Reading a doubled text gives the text back. -/
theorem undouble_double (q : Char) (cs : List Char) : undouble q (double q cs) = cs := by
  induction cs with
  | nil => rfl
  | cons c cs ih =>
    by_cases h : c = q
    · subst h
      simp [undouble, ih]
    · rw [double_cons_of_ne h, undouble_cons_of_ne h, ih]

end Text
end SchemaScript
