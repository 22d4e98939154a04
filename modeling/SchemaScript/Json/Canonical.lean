import SchemaScript.Json.Basic

/-!
# Canonical values

A value is canonical if every part of it denotes a value and every object in it has its
fields in the order of their names, each name once. `Json.canonical?` gives only canonical
values (`isCanonical_of_canonical?`), and leaves those as they are by definition.

The reason is that sorting fields puts the names in strictly ascending order
(`ascending_sortFields`) and keeps such an order (`sortFields_eq_self`).
-/

namespace SchemaScript

/-! ## Fields in the order of their names -/

/-- Whether the names of the fields ascend. -/
def Ascending {α : Type} (fields : List (String × α)) : Prop :=
  fields.Pairwise fun f g => f.1 < g.1

variable {α : Type}

theorem mem_insertField {f : String × α} {name : String} {value : α}
    {fields : List (String × α)} (h : f ∈ insertField name value fields) :
    f = (name, value) ∨ f ∈ fields := by
  induction fields with
  | nil => simpa [insertField] using h
  | cons g rest ih =>
    obtain ⟨k, v⟩ := g
    simp only [insertField] at h
    split at h
    · rcases List.mem_cons.1 h with rfl | h
      · exact Or.inl rfl
      · exact Or.inr (List.mem_cons_of_mem _ h)
    split at h
    · rcases List.mem_cons.1 h with rfl | h
      · exact Or.inl rfl
      · exact Or.inr h
    · rcases List.mem_cons.1 h with rfl | h
      · exact Or.inr List.mem_cons_self
      · exact (ih h).imp_right (List.mem_cons_of_mem _)

theorem ascending_insertField (name : String) (value : α) {fields : List (String × α)}
    (h : Ascending fields) : Ascending (insertField name value fields) := by
  induction fields with
  | nil => exact List.pairwise_singleton _ _
  | cons g rest ih =>
    obtain ⟨k, v⟩ := g
    have hg := List.pairwise_cons.1 h
    simp only [insertField]
    split
    · rename_i hk
      exact List.pairwise_cons.2 ⟨fun f hf => hk ▸ hg.1 f hf, hg.2⟩
    split
    · rename_i hlt
      refine List.pairwise_cons.2 ⟨fun f hf => ?_, h⟩
      rcases List.mem_cons.1 hf with rfl | hf
      · exact hlt
      · exact String.lt_trans hlt (hg.1 f hf)
    · rename_i hne hnlt
      have hlt : k < name := by
        refine Decidable.byContradiction fun hkn => hne ?_
        exact String.le_antisymm (String.not_lt.1 hkn) (String.not_lt.1 hnlt)
      refine List.pairwise_cons.2 ⟨fun f hf => ?_, ih hg.2⟩
      rcases mem_insertField hf with rfl | hf
      · exact hlt
      · exact hg.1 f hf

/-- A field behind all others goes to the end. -/
theorem insertField_eq_append {name : String} {fields : List (String × α)}
    (h : ∀ f ∈ fields, f.1 < name) (value : α) :
    insertField name value fields = fields ++ [(name, value)] := by
  induction fields with
  | nil => rfl
  | cons g rest ih =>
    obtain ⟨k, v⟩ := g
    have hk : k < name := h (k, v) List.mem_cons_self
    have hne : name ≠ k := fun he => String.lt_irrefl k (he ▸ hk)
    simp only [insertField, if_neg hne, if_neg (String.lt_asymm hk), List.cons_append]
    rw [ih fun f hf => h f (List.mem_cons_of_mem _ hf)]

theorem mem_sortFields {f : String × α} {fields : List (String × α)}
    (h : f ∈ sortFields fields) : f ∈ fields := by
  have key : ∀ (fs acc : List (String × α)),
      f ∈ fs.foldl (fun sorted g => insertField g.1 g.2 sorted) acc → f ∈ acc ∨ f ∈ fs := by
    intro fs
    induction fs with
    | nil => intro acc hf; exact Or.inl hf
    | cons g gs ih =>
      intro acc hf
      rcases ih _ hf with hf | hf
      · rcases mem_insertField hf with rfl | hf
        · exact Or.inr List.mem_cons_self
        · exact Or.inl hf
      · exact Or.inr (List.mem_cons_of_mem _ hf)
  exact (key fields [] h).resolve_left List.not_mem_nil

/-- Sorted fields ascend. -/
theorem ascending_sortFields (fields : List (String × α)) : Ascending (sortFields fields) := by
  have key : ∀ (fs acc : List (String × α)), Ascending acc →
      Ascending (fs.foldl (fun sorted g => insertField g.1 g.2 sorted) acc) := by
    intro fs
    induction fs with
    | nil => intro acc h; exact h
    | cons g gs ih => intro acc h; exact ih _ (ascending_insertField g.1 g.2 h)
  exact key fields [] List.Pairwise.nil

/-- Sorting leaves ascending fields as they are. -/
theorem sortFields_eq_self {fields : List (String × α)} (h : Ascending fields) :
    sortFields fields = fields := by
  have key : ∀ (fs acc : List (String × α)), Ascending (acc ++ fs) →
      fs.foldl (fun sorted g => insertField g.1 g.2 sorted) acc = acc ++ fs := by
    intro fs
    induction fs with
    | nil => intro acc _; simp
    | cons g gs ih =>
      intro acc h
      have hlast : ∀ f ∈ acc, f.1 < g.1 := fun f hf =>
        (List.pairwise_append.1 h).2.2 f hf g List.mem_cons_self
      rw [List.foldl_cons, insertField_eq_append hlast]
      have happ : acc ++ [(g.1, g.2)] ++ gs = acc ++ g :: gs := by simp
      rw [ih _ (happ ▸ h), happ]
  exact key fields [] h

/-! ## Values -/

namespace Json

/-- Whether the value is canonical. -/
def IsCanonical (j : Json) : Prop :=
  j.canonical? = some j

theorem canonicalItems?_eq_self {items : List Json} (h : ∀ j ∈ items, j.IsCanonical) :
    canonicalItems? items = some items := by
  induction items with
  | nil => rw [canonicalItems?]
  | cons j js ih =>
    have hj : j.canonical? = some j := h j List.mem_cons_self
    rw [canonicalItems?, hj, ih fun k hk => h k (List.mem_cons_of_mem _ hk)]

theorem canonicalFields?_eq_self {fields : List (String × Json)}
    (h : ∀ f ∈ fields, f.2.IsCanonical) : canonicalFields? fields = some fields := by
  induction fields with
  | nil => rw [canonicalFields?]
  | cons f fs ih =>
    obtain ⟨name, j⟩ := f
    have hj : j.canonical? = some j := h (name, j) List.mem_cons_self
    rw [canonicalFields?, hj, ih fun g hg => h g (List.mem_cons_of_mem _ hg)]

mutual
/-- Canonical forms are canonical. -/
theorem isCanonical_of_canonical? : ∀ {j c : Json}, j.canonical? = some c → c.IsCanonical
  | null, c, h => by rw [canonical?] at h; cases h; rw [IsCanonical, canonical?]
  | bool b, c, h => by rw [canonical?] at h; cases h; rw [IsCanonical, canonical?]
  | number n, c, h => by rw [canonical?] at h; cases h; rw [IsCanonical, canonical?]
  | string s, c, h => by rw [canonical?] at h; cases h; rw [IsCanonical, canonical?]
  | unrepresentable, c, h => by rw [canonical?] at h; cases h
  | array items, c, h => by
    rw [canonical?] at h
    obtain ⟨cs, hcs, rfl⟩ := Option.map_eq_some_iff.1 h
    rw [IsCanonical, canonical?, canonicalItems?_eq_self (isCanonical_of_canonicalItems? hcs)]
    rfl
  | object fields, c, h => by
    rw [canonical?] at h
    obtain ⟨cs, hcs, rfl⟩ := Option.map_eq_some_iff.1 h
    have hsorted : ∀ f ∈ sortFields cs, f.2.IsCanonical := fun f hf =>
      isCanonical_of_canonicalFields? hcs f (mem_sortFields hf)
    rw [IsCanonical, canonical?, canonicalFields?_eq_self hsorted, Option.map_some,
      sortFields_eq_self (ascending_sortFields cs)]

theorem isCanonical_of_canonicalItems? :
    ∀ {items cs : List Json}, canonicalItems? items = some cs → ∀ c ∈ cs, c.IsCanonical
  | [], cs, h => by rw [canonicalItems?] at h; cases h; simp
  | j :: js, cs, h => by
    rw [canonicalItems?] at h
    split at h
    · rename_i d ds hd hds
      cases h
      intro c hc
      rcases List.mem_cons.1 hc with rfl | hc
      · exact isCanonical_of_canonical? hd
      · exact isCanonical_of_canonicalItems? hds c hc
    · cases h

theorem isCanonical_of_canonicalFields? :
    ∀ {fields cs : List (String × Json)}, canonicalFields? fields = some cs →
      ∀ f ∈ cs, f.2.IsCanonical
  | [], cs, h => by rw [canonicalFields?] at h; cases h; simp
  | (name, j) :: rest, cs, h => by
    rw [canonicalFields?] at h
    split at h
    · rename_i d ds hd hds
      cases h
      intro f hf
      rcases List.mem_cons.1 hf with rfl | hf
      · exact isCanonical_of_canonical? hd
      · exact isCanonical_of_canonicalFields? hds f hf
    · cases h
end

end Json
end SchemaScript
