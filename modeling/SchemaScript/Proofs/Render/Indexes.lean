import SchemaScript.Render.Index

/-!
# Rendered indexes settle

The indexes that are rendered cover different columns, have columns and have names
(`IsCovering`). When they are declared, none of them is left out, and no foreign key needs an
index any more, so the same indexes are rendered again (`emitted_emitted`).
-/

namespace SchemaScript
namespace Index

variable {table : String} {seen : List String} {is : List Index} {keys : List ForeignKey}

/-- The signatures of indexes. -/
def signatures (is : List Index) : List String :=
  is.map fun i => signature i.columns

/-- Indexes that each cover columns which neither `seen` nor another one of them covers. -/
structure IsCovering (seen : List String) (is : List Index) : Prop where
  columns : ∀ i ∈ is, i.columns ≠ []
  named : ∀ i ∈ is, ∃ n, i.name = some n ∧ Text.isBlankString n = false
  fresh : ∀ s ∈ signatures is, s ∉ seen
  nodup : (signatures is).Nodup

theorem isCovering_nil : IsCovering seen [] := by
  refine ⟨?_, ?_, ?_, List.nodup_nil⟩ <;> simp [signatures]

/-- An index that covers new columns can be put in front. -/
theorem IsCovering.cons {i : Index} {n : String} (hcolumns : i.columns ≠ [])
    (hname : i.name = some n) (hn : Text.isBlankString n = false)
    (hfresh : signature i.columns ∉ seen) (h : IsCovering (signature i.columns :: seen) is) :
    IsCovering seen (i :: is) := by
  have hnot : signature i.columns ∉ signatures is := fun hx =>
    h.fresh _ hx List.mem_cons_self
  refine ⟨?_, ?_, ?_, List.nodup_cons.2 ⟨hnot, h.nodup⟩⟩
  · rintro j (_ | ⟨_, hj⟩)
    · exact hcolumns
    · exact h.columns j hj
  · rintro j (_ | ⟨_, hj⟩)
    · exact ⟨n, hname, hn⟩
    · exact h.named j hj
  · intro s hs
    rcases List.mem_cons.1 hs with rfl | hs
    · exact hfresh
    · exact fun hx => h.fresh s hs (List.mem_cons_of_mem _ hx)

theorem IsCovering.append {js : List Index} (h : IsCovering seen is)
    (hjs : IsCovering (seen ++ signatures is) js) : IsCovering seen (is ++ js) := by
  have happ : signatures (is ++ js) = signatures is ++ signatures js := List.map_append
  refine ⟨?_, ?_, ?_, ?_⟩
  · intro i hi
    exact (List.mem_append.1 hi).elim (h.columns i) (hjs.columns i)
  · intro i hi
    exact (List.mem_append.1 hi).elim (h.named i) (hjs.named i)
  · intro s hs
    rw [happ] at hs
    rcases List.mem_append.1 hs with hs | hs
    · exact h.fresh s hs
    · exact fun hx => hjs.fresh s hs (List.mem_append_left _ hx)
  · rw [happ, List.nodup_append]
    refine ⟨h.nodup, hjs.nodup, ?_⟩
    rintro s hs _ hs' rfl
    exact hjs.fresh s hs' (List.mem_append_right _ hs)

/-! ## What is rendered is covering -/

/-- A name that is not given is derived, and so not blank. -/
theorem isBlankString_givenName {name : Option String} {otherwise : String}
    (h : Text.isBlankString otherwise = false) :
    Text.isBlankString (givenName name otherwise) = false := by
  unfold givenName
  cases name with
  | none => exact h
  | some n =>
    dsimp only
    split
    · exact h
    · rename_i hn
      exact Bool.eq_false_iff.2 hn

/-- A name that begins with a letter is not blank. -/
theorem isBlankString_append {start : String} (h : Text.isBlankString start = false)
    (rest : String) : Text.isBlankString (start ++ rest) = false := by
  rw [Text.isBlankString, String.toList_append, Text.allBlank, List.all_append]
  rw [Text.isBlankString, Text.allBlank] at h
  rw [h, Bool.false_and]

theorem isBlankString_nameFor (i : Index) (table : String) :
    Text.isBlankString (i.nameFor table) = false := by
  have hprefix : Text.isBlankString "idx_" = false := by decide
  refine isBlankString_givenName ?_
  rw [String.append_assoc, String.append_assoc]
  exact isBlankString_append hprefix _

theorem isBlankString_supportingName (table : String) (k : ForeignKey) :
    Text.isBlankString (supportingName table k) = false := by
  have hprefix : Text.isBlankString "idx_" = false := by decide
  rw [supportingName]
  split
  · exact isBlankString_append hprefix _
  · rw [String.append_assoc, String.append_assoc]
    exact isBlankString_append hprefix _

/-- The declared indexes that are kept. -/
def kept (table : String) (seen : List String) (is : List Index) : List Index :=
  (outcomes table seen is).filterMap IndexOutcome.index?

theorem isCovering_kept (is : List Index) (seen : List String) :
    IsCovering seen (kept table seen is) := by
  induction is generalizing seen with
  | nil => exact isCovering_nil
  | cons i is ih =>
    rw [kept, outcomes]
    split
    · exact ih seen
    split
    · exact ih seen
    · rename_i hcolumns hseen
      refine IsCovering.cons (i := { i with name := some (i.nameFor table) }) ?_ rfl
        (isBlankString_nameFor i table) ?_ (ih _)
      · simpa using hcolumns
      · simpa using hseen

/-- An index that is the first one over its columns: it has some, and neither a signature in `seen`
nor an index in front of it covers them. -/
structure IsFirst (seen : List String) (before : List Index) (i : Index) : Prop where
  columns : i.columns ≠ []
  unseen : signature i.columns ∉ seen
  first : ∀ b ∈ before, b.columns ≠ [] → signature b.columns ≠ signature i.columns

theorem isFirst_cons {b i : Index} {before : List Index} :
    IsFirst seen (b :: before) i ↔
      (b.columns ≠ [] → signature b.columns ≠ signature i.columns) ∧ IsFirst seen before i := by
  constructor
  · intro h
    exact ⟨h.first b List.mem_cons_self, h.columns, h.unseen,
      fun c hc => h.first c (List.mem_cons_of_mem b hc)⟩
  · rintro ⟨hb, h⟩
    refine ⟨h.columns, h.unseen, fun c hc => ?_⟩
    rcases List.mem_cons.1 hc with rfl | hc
    · exact hb
    · exact h.first c hc

theorem isFirst_cons_seen {s : String} {i : Index} {before : List Index} :
    IsFirst (s :: seen) before i ↔ s ≠ signature i.columns ∧ IsFirst seen before i := by
  constructor
  · intro h
    obtain ⟨hne, hseen⟩ := not_or.1 (mt List.mem_cons.2 h.unseen)
    exact ⟨Ne.symm hne, h.columns, hseen, h.first⟩
  · rintro ⟨hne, h⟩
    refine ⟨h.columns, fun hx => ?_, h.first⟩
    rcases List.mem_cons.1 hx with hx | hx
    · exact hne hx.symm
    · exact h.unseen hx

/-- **The declared indexes that are kept are the first ones over their columns.** -/
theorem mem_kept_iff {j : Index} : j ∈ kept table seen is ↔
    ∃ before i after, is = before ++ i :: after ∧ IsFirst seen before i ∧
      j = { i with name := some (i.nameFor table) } := by
  induction is generalizing seen with
  | nil => simp [kept, outcomes]
  | cons b is ih =>
    -- an index is `b`, or it is one of the others with `b` in front of it
    have hsplit : (∃ before i after, b :: is = before ++ i :: after ∧ IsFirst seen before i ∧
        j = { i with name := some (i.nameFor table) }) ↔
          (IsFirst seen [] b ∧ j = { b with name := some (b.nameFor table) }) ∨
            ∃ before i after, is = before ++ i :: after ∧ IsFirst seen (b :: before) i ∧
              j = { i with name := some (i.nameFor table) } := by
      constructor
      · rintro ⟨_ | ⟨c, before⟩, i, after, hb, hi, hj⟩
        · obtain ⟨rfl, -⟩ := List.cons.inj hb
          exact Or.inl ⟨hi, hj⟩
        · obtain ⟨rfl, his⟩ := List.cons.inj hb
          exact Or.inr ⟨before, i, after, his, hi, hj⟩
      · rintro (⟨hb, hj⟩ | ⟨before, i, after, rfl, hi, hj⟩)
        · exact ⟨[], b, is, rfl, hb, hj⟩
        · exact ⟨b :: before, i, after, rfl, hi, hj⟩
    rw [hsplit, kept, outcomes]
    split
    · rename_i hcolumns
      have hempty : b.columns = [] := List.isEmpty_iff.1 hcolumns
      have hfirst : ¬ IsFirst seen [] b := fun h => h.columns hempty
      have hrest : ∀ before i, IsFirst seen (b :: before) i ↔ IsFirst seen before i := by
        intro before i
        simp [isFirst_cons, hempty]
      simp only [hfirst, hrest, false_and, false_or]
      exact ih
    split
    · rename_i hcolumns hseen
      have hfirst : ¬ IsFirst seen [] b := fun h => h.unseen (by simpa using hseen)
      have hrest : ∀ before i, IsFirst seen (b :: before) i ↔ IsFirst seen before i := by
        intro before i
        refine ⟨fun h => (isFirst_cons.1 h).2, fun h => isFirst_cons.2 ⟨fun _ heq => ?_, h⟩⟩
        exact h.unseen (heq ▸ by simpa using hseen)
      simp only [hfirst, hrest, false_and, false_or]
      exact ih
    · rename_i hcolumns hseen
      have hne : b.columns ≠ [] := by simpa using hcolumns
      have hfirst : IsFirst seen [] b :=
        ⟨hne, by simpa using hseen, fun _ hc => absurd hc List.not_mem_nil⟩
      have hrest : ∀ before i, IsFirst seen (b :: before) i ↔
          IsFirst (signature b.columns :: seen) before i := by
        intro before i
        simp [isFirst_cons, isFirst_cons_seen, hne]
      simp only [hfirst, hrest, true_and, ← ih]
      exact List.mem_cons

/-- The indexes that are kept have names, given or derived. -/
theorem exists_of_mem_kept {i : Index} (h : i ∈ kept table seen is) :
    ∃ j ∈ is, i = { j with name := some (j.nameFor table) } := by
  obtain ⟨before, j, after, rfl, -, hi⟩ := mem_kept_iff.1 h
  exact ⟨j, List.mem_append_right _ List.mem_cons_self, hi⟩

/-- Each declared index is kept with its name, has no columns, or has columns that are covered. -/
theorem exists_outcome {i : Index} (hi : i ∈ is) :
    ∃ o ∈ outcomes table seen is, o = .kept { i with name := some (i.nameFor table) } ∨
      o = .incomplete (i.nameFor table) ∨ o = .duplicate (i.nameFor table) := by
  induction is generalizing seen with
  | nil => cases hi
  | cons b is ih =>
    rw [outcomes]
    rcases List.mem_cons.1 hi with rfl | hi
    · split
      · exact ⟨_, List.mem_cons_self, Or.inr (Or.inl rfl)⟩
      split
      · exact ⟨_, List.mem_cons_self, Or.inr (Or.inr rfl)⟩
      · exact ⟨_, List.mem_cons_self, Or.inl rfl⟩
    · have hlater : ∀ {o' seen}, ∃ o ∈ o' :: outcomes table seen is,
          o = .kept { i with name := some (i.nameFor table) } ∨
            o = .incomplete (i.nameFor table) ∨ o = .duplicate (i.nameFor table) := by
        intro o' seen
        obtain ⟨o, ho, heq⟩ := @ih seen hi
        exact ⟨o, List.mem_cons_of_mem o' ho, heq⟩
      split
      · exact hlater
      split
      · exact hlater
      · exact hlater

/-- A declared index that is not kept is reported. -/
theorem exists_notice_of_notMem_kept {i : Index} (hi : i ∈ is)
    (hout : { i with name := some (i.nameFor table) } ∉ kept table seen is) :
    ∃ n ∈ (outcomes table seen is).filterMap (IndexOutcome.notice? table),
      n = .incompleteIndex table (i.nameFor table) ∨
        n = .duplicateIndex table (i.nameFor table) := by
  obtain ⟨o, ho, rfl | rfl | rfl⟩ := @exists_outcome table seen is i hi
  · have hkept : { i with name := some (i.nameFor table) } ∈ kept table seen is :=
      List.mem_filterMap.2 ⟨_, ho, rfl⟩
    exact absurd hkept hout
  · exact ⟨_, List.mem_filterMap.2 ⟨_, ho, rfl⟩, Or.inl rfl⟩
  · exact ⟨_, List.mem_filterMap.2 ⟨_, ho, rfl⟩, Or.inr rfl⟩

/-- The indexes that support foreign keys are named after them and have their columns. -/
theorem exists_of_mem_supporting {i : Index} (h : i ∈ supporting table seen keys) :
    ∃ k ∈ keys, i = { name := some (supportingName table k), columns := k.columns } := by
  induction keys generalizing seen with
  | nil => cases h
  | cons k keys ih =>
    have hlater : ∀ {seen}, i ∈ supporting table seen keys →
        ∃ k' ∈ k :: keys,
          i = { name := some (supportingName table k'), columns := k'.columns } := by
      intro seen hi
      obtain ⟨k', hk', heq⟩ := ih hi
      exact ⟨k', List.mem_cons_of_mem k hk', heq⟩
    rw [supporting] at h
    split at h
    · exact hlater h
    · rcases List.mem_cons.1 h with rfl | h
      · exact ⟨k, List.mem_cons_self, rfl⟩
      · exact hlater h

theorem isCovering_supporting (keys : List ForeignKey) (h : ∀ k ∈ keys, k.columns ≠ [])
    (seen : List String) : IsCovering seen (supporting table seen keys) := by
  induction keys generalizing seen with
  | nil => exact isCovering_nil
  | cons k keys ih =>
    have ih := ih fun k hk => h k (List.mem_cons_of_mem _ hk)
    rw [supporting]
    split
    · exact ih seen
    · rename_i hseen
      refine IsCovering.cons (h k List.mem_cons_self) rfl
        (isBlankString_supportingName table k) ?_ (ih _)
      simpa using hseen

/-- The rendered indexes cover different columns. -/
theorem isCovering_emitted (table : String) (primaryKey : List String) (declared : List Index)
    (h : ∀ k ∈ keys, k.columns ≠ []) :
    IsCovering (keySignatures primaryKey) (emitted table primaryKey declared keys) :=
  (isCovering_kept declared _).append (isCovering_supporting keys h _)

/-! ## Covering indexes are rendered as they are -/

theorem kept_of_isCovering (h : IsCovering seen is) : kept table seen is = is := by
  induction is generalizing seen with
  | nil => rfl
  | cons i is ih =>
    obtain ⟨n, hname, hn⟩ := h.named i List.mem_cons_self
    have hcolumns : i.columns.isEmpty = false := by
      simpa using h.columns i List.mem_cons_self
    have hseen : seen.contains (signature i.columns) = false := by
      simpa using h.fresh (signature i.columns) List.mem_cons_self
    have hnameFor : i.nameFor table = n := by
      simp [nameFor, givenName, hname, hn]
    have hi : { i with name := some (i.nameFor table) } = i := by
      rw [hnameFor, ← hname]
    obtain ⟨hnot, hnodup⟩ := List.nodup_cons.1 h.nodup
    have hrest : IsCovering (signature i.columns :: seen) is := by
      refine ⟨fun j hj => h.columns j (List.mem_cons_of_mem i hj),
        fun j hj => h.named j (List.mem_cons_of_mem i hj), fun s hs hx => ?_, hnodup⟩
      rcases List.mem_cons.1 hx with rfl | hx
      · exact hnot hs
      · exact h.fresh s (List.mem_cons_of_mem _ hs) hx
    rw [kept, outcomes, hcolumns, if_neg Bool.false_ne_true, hseen, if_neg Bool.false_ne_true, hi]
    show i :: kept table (signature i.columns :: seen) is = i :: is
    rw [ih hrest]

theorem supporting_eq_nil (h : ∀ k ∈ keys, signature k.columns ∈ seen) :
    supporting table seen keys = [] := by
  induction keys with
  | nil => rfl
  | cons k keys ih =>
    rw [supporting, if_pos (by simpa using h k List.mem_cons_self)]
    exact ih fun k hk => h k (List.mem_cons_of_mem _ hk)

/-- Every foreign key is covered by an index that supports it, unless it was before. -/
theorem mem_signatures_supporting {k : ForeignKey} (hk : k ∈ keys) :
    signature k.columns ∈ seen ++ signatures (supporting table seen keys) := by
  induction keys generalizing seen with
  | nil => cases hk
  | cons k' keys ih =>
    rw [supporting]
    split
    · rename_i hseen
      rcases List.mem_cons.1 hk with rfl | hk
      · exact List.mem_append_left _ (by simpa using hseen)
      · exact ih hk
    · rcases List.mem_cons.1 hk with rfl | hk
      · exact List.mem_append_right _ List.mem_cons_self
      · have hmem : signature k.columns ∈ signature k'.columns :: seen ++
            signatures (supporting table (signature k'.columns :: seen) keys) := ih hk
        rw [List.cons_append, List.mem_cons, List.mem_append] at hmem
        rw [List.mem_append]
        rcases hmem with heq | hmem | hmem
        · rw [heq]
          exact Or.inr List.mem_cons_self
        · exact Or.inl hmem
        · exact Or.inr (List.mem_cons_of_mem _ hmem)

/-- **The indexes that are rendered are rendered again** where they are declared, for foreign
keys over the same columns. -/
theorem emitted_emitted (table : String) (primaryKey : List String) (declared : List Index)
    {keys keys' : List ForeignKey} (h : ∀ k ∈ keys, k.columns ≠ [])
    (hkeys : keys'.map ForeignKey.columns = keys.map ForeignKey.columns) :
    emitted table primaryKey (emitted table primaryKey declared keys) keys' =
      emitted table primaryKey declared keys := by
  have hkept : kept table (keySignatures primaryKey) (emitted table primaryKey declared keys) =
      emitted table primaryKey declared keys :=
    kept_of_isCovering (isCovering_emitted table primaryKey declared h)
  have hall : ∀ k ∈ keys', signature k.columns ∈ keySignatures primaryKey ++
      signatures (emitted table primaryKey declared keys) := by
    intro k hk
    have hcolumns : k.columns ∈ keys.map ForeignKey.columns := by
      rw [← hkeys]
      exact List.mem_map_of_mem hk
    obtain ⟨k', hk', heq⟩ := List.mem_map.1 hcolumns
    have hmem : signature k'.columns ∈ keySignatures primaryKey ++
        signatures (kept table (keySignatures primaryKey) declared) ++
          signatures (supporting table (keySignatures primaryKey ++
            signatures (kept table (keySignatures primaryKey) declared)) keys) :=
      mem_signatures_supporting hk'
    rw [heq, List.append_assoc] at hmem
    rwa [show signatures (emitted table primaryKey declared keys) =
      signatures (kept table (keySignatures primaryKey) declared) ++
        signatures (supporting table (keySignatures primaryKey ++
          signatures (kept table (keySignatures primaryKey) declared)) keys) from List.map_append]
  have hemitted : emitted table primaryKey (emitted table primaryKey declared keys) keys' =
      kept table (keySignatures primaryKey) (emitted table primaryKey declared keys) ++
        supporting table (keySignatures primaryKey ++ signatures
          (kept table (keySignatures primaryKey) (emitted table primaryKey declared keys)))
            keys' := rfl
  rw [hemitted, hkept, supporting_eq_nil hall, List.append_nil]

end Index
end SchemaScript
