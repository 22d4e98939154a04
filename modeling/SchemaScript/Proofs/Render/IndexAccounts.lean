import SchemaScript.Proofs.Render.Indexes

/-!
# What becomes of indexes

Three sources of columns are gone through one after the other: the primary key, the declared
indexes and the foreign keys that are rendered. What has been covered is known by signature, and
the first over some columns wins.

`Accounts` says what this does to each declared index, by the indexes in front of it alone: an
index that is the first over its columns is kept, any other one is reported, and none is passed
over. `Supports` says the same of the foreign keys. Both hold of what is computed because the
signatures that are handed on are those of the primary key and of all that stands in front
(`Reaches`). So nothing is lost, nothing is covered twice, and every foreign key finds its columns
covered (`accounts_emitted`).
-/

namespace SchemaScript
namespace Index

variable {table : String} {seen covered : List String} {before is : List Index}
  {keysBefore keys : List ForeignKey}

/-- The index that supports a foreign key. -/
def support (table : String) (k : ForeignKey) : Index :=
  { name := some (supportingName table k), columns := k.columns }

/-- What becomes of declared indexes that stand behind those in `before`, where the signatures in
`seen` are covered: the indexes that are kept, and the notices of the others. -/
inductive Accounts (table : String) (seen : List String) :
    List Index → List Index → List Index → List Notice → Prop where
  | nil {before : List Index} : Accounts table seen before [] [] []
  | kept {before is out : List Index} {i : Index} {notices : List Notice}
      (first : IsFirst seen before i)
      (rest : Accounts table seen (before ++ [i]) is out notices) :
      Accounts table seen before (i :: is)
        ({ name := some (i.nameFor table), columns := i.columns, unique := i.unique } :: out) notices
  | incomplete {before is out : List Index} {i : Index} {notices : List Notice}
      (columns : i.columns = [])
      (rest : Accounts table seen (before ++ [i]) is out notices) :
      Accounts table seen before (i :: is) out (.incompleteIndex table (i.nameFor table) :: notices)
  | duplicate {before is out : List Index} {i : Index} {notices : List Notice}
      (columns : i.columns ≠ []) (later : ¬ IsFirst seen before i)
      (rest : Accounts table seen (before ++ [i]) is out notices) :
      Accounts table seen before (i :: is) out (.duplicateIndex table (i.nameFor table) :: notices)

/-- The indexes that support foreign keys that stand behind those in `before`: one for each key
that is the first over columns with a signature not in `seen`. -/
inductive Supports (table : String) (seen : List String) :
    List ForeignKey → List ForeignKey → List Index → Prop where
  | nil {before : List ForeignKey} : Supports table seen before [] []
  | first {before keys : List ForeignKey} {k : ForeignKey} {out : List Index}
      (unseen : signature k.columns ∉ seen)
      (first : ∀ b ∈ before, signature b.columns ≠ signature k.columns)
      (rest : Supports table seen (before ++ [k]) keys out) :
      Supports table seen before (k :: keys) (support table k :: out)
  | covered {before keys : List ForeignKey} {k : ForeignKey} {out : List Index}
      (covered : signature k.columns ∈ seen ∨
        ∃ b ∈ before, signature b.columns = signature k.columns)
      (rest : Supports table seen (before ++ [k]) keys out) :
      Supports table seen before (k :: keys) out

/-! ## What has been covered -/

/-- The signatures in `covered` are those in `seen` and those of the given lists of columns. -/
def Reaches (seen : List String) (lists : List (List String)) (covered : List String) : Prop :=
  ∀ s, s ∈ covered ↔ s ∈ seen ∨ ∃ columns ∈ lists, signature columns = s

/-- The columns of the indexes that have some. -/
def columnLists (is : List Index) : List (List String) :=
  (is.map Index.columns).filter fun columns => !columns.isEmpty

theorem reaches_nil (seen : List String) : Reaches seen [] seen := by
  simp [Reaches]

theorem Reaches.snoc {lists : List (List String)} (h : Reaches seen lists covered)
    (columns : List String) : Reaches seen (lists ++ [columns]) (signature columns :: covered) := by
  intro s
  rw [List.mem_cons, h s]
  constructor
  · rintro (rfl | hs | ⟨c, hc, hs⟩)
    · exact Or.inr ⟨columns, List.mem_append_right _ (List.mem_singleton_self _), rfl⟩
    · exact Or.inl hs
    · exact Or.inr ⟨c, List.mem_append_left _ hc, hs⟩
  · rintro (hs | ⟨c, hc, hs⟩)
    · exact Or.inr (Or.inl hs)
    · rcases List.mem_append.1 hc with hc | hc
      · exact Or.inr (Or.inr ⟨c, hc, hs⟩)
      · exact Or.inl (by rw [← hs, List.mem_singleton.1 hc])

/-- Columns that are covered already cover nothing more. -/
theorem Reaches.snoc_of_mem {lists : List (List String)} (h : Reaches seen lists covered)
    {columns : List String} (hcolumns : signature columns ∈ covered) :
    Reaches seen (lists ++ [columns]) covered := by
  intro s
  rw [← h.snoc columns s, List.mem_cons]
  refine ⟨Or.inr, ?_⟩
  rintro (rfl | hs)
  · exact hcolumns
  · exact hs

theorem columnLists_snoc (is : List Index) {i : Index} (h : i.columns ≠ []) :
    columnLists (is ++ [i]) = columnLists is ++ [i.columns] := by
  simp [columnLists, h]

theorem columnLists_snoc_of_eq_nil (is : List Index) {i : Index} (h : i.columns = []) :
    columnLists (is ++ [i]) = columnLists is := by
  simp [columnLists, h]

/-- An index with columns is the first over them exactly if they are not covered. -/
theorem Reaches.isFirst_iff (h : Reaches seen (columnLists before) covered) {i : Index}
    (hi : i.columns ≠ []) : IsFirst seen before i ↔ signature i.columns ∉ covered := by
  rw [h]
  constructor
  · rintro hfirst (hseen | ⟨columns, hcolumns, heq⟩)
    · exact hfirst.unseen hseen
    · obtain ⟨hmem, hne⟩ := List.mem_filter.1 hcolumns
      obtain ⟨b, hb, rfl⟩ := List.mem_map.1 hmem
      exact hfirst.first b hb (by simpa using hne) heq
  · intro hnot
    obtain ⟨hseen, hlists⟩ := not_or.1 hnot
    refine ⟨hi, hseen, fun b hb hne heq => hlists ⟨b.columns, ?_, heq⟩⟩
    exact List.mem_filter.2 ⟨List.mem_map_of_mem hb, by simpa using hne⟩

/-! ## Going through the sources -/

/-- **Each declared index is kept or reported**, and that by the indexes in front of it. -/
theorem accounts_outcomes (h : Reaches seen (columnLists before) covered) :
    Accounts table seen before is (kept table covered is)
      ((outcomes table covered is).filterMap (IndexOutcome.notice? table)) := by
  induction is generalizing before covered with
  | nil => exact .nil
  | cons i is ih =>
    rw [kept, outcomes]
    split
    · rename_i hcolumns
      have hempty : i.columns = [] := List.isEmpty_iff.1 hcolumns
      refine .incomplete hempty (ih ?_)
      rwa [columnLists_snoc_of_eq_nil before hempty]
    rename_i hcolumns
    have hne : i.columns ≠ [] := fun hx => hcolumns (List.isEmpty_iff.2 hx)
    split
    · rename_i hcovered
      have hmem : signature i.columns ∈ covered := List.contains_iff_mem.1 hcovered
      refine .duplicate hne (fun hfirst => (h.isFirst_iff hne).1 hfirst hmem) (ih ?_)
      rw [columnLists_snoc before hne]
      exact h.snoc_of_mem hmem
    · rename_i hcovered
      have hnot : signature i.columns ∉ covered := fun hx => hcovered (List.contains_iff_mem.2 hx)
      refine .kept ((h.isFirst_iff hne).2 hnot) (ih ?_)
      rw [columnLists_snoc before hne]
      exact h.snoc i.columns

/-- **Each foreign key finds its columns covered or has an index of its own.** -/
theorem supports_supporting
    (h : Reaches seen (keysBefore.map ForeignKey.columns) covered) :
    Supports table seen keysBefore keys (supporting table covered keys) := by
  induction keys generalizing keysBefore covered with
  | nil => exact .nil
  | cons k keys ih =>
    have hsnoc : (keysBefore ++ [k]).map ForeignKey.columns =
        keysBefore.map ForeignKey.columns ++ [k.columns] := List.map_append
    have hcovered_iff : signature k.columns ∈ covered ↔ signature k.columns ∈ seen ∨
        ∃ b ∈ keysBefore, signature b.columns = signature k.columns := by
      rw [h]
      refine or_congr_right ⟨?_, ?_⟩
      · rintro ⟨columns, hcolumns, heq⟩
        obtain ⟨b, hb, rfl⟩ := List.mem_map.1 hcolumns
        exact ⟨b, hb, heq⟩
      · rintro ⟨b, hb, heq⟩
        exact ⟨b.columns, List.mem_map_of_mem hb, heq⟩
    rw [supporting]
    split
    · rename_i hcovered
      have hmem : signature k.columns ∈ covered := List.contains_iff_mem.1 hcovered
      refine .covered (hcovered_iff.1 hmem) (ih ?_)
      rw [hsnoc]
      exact h.snoc_of_mem hmem
    · rename_i hcovered
      have hnot : signature k.columns ∉ covered := fun hx => hcovered (List.contains_iff_mem.2 hx)
      obtain ⟨hunseen, hfirst⟩ := not_or.1 (mt hcovered_iff.2 hnot)
      refine .first hunseen (fun b hb heq => hfirst ⟨b, hb, heq⟩) (ih ?_)
      rw [hsnoc]
      exact h.snoc k.columns

/-- An index that supports a foreign key covers columns that were not. -/
theorem signature_notMem_of_mem_supporting {i : Index} (h : i ∈ supporting table seen keys) :
    signature i.columns ∉ seen := by
  induction keys generalizing seen with
  | nil => cases h
  | cons k keys ih =>
    rw [supporting] at h
    split at h
    · exact ih h
    · rename_i hcovered
      rcases List.mem_cons.1 h with rfl | h
      · exact fun hx => hcovered (List.contains_iff_mem.2 hx)
      · exact fun hx => ih h (List.mem_cons_of_mem _ hx)

theorem nodup_signatures_supporting (table : String) (seen : List String)
    (keys : List ForeignKey) : (signatures (supporting table seen keys)).Nodup := by
  induction keys generalizing seen with
  | nil => exact List.nodup_nil
  | cons k keys ih =>
    rw [supporting]
    split
    · exact ih seen
    · refine List.nodup_cons.2 ⟨fun hx => ?_, ih _⟩
      obtain ⟨i, hi, heq⟩ := List.mem_map.1 hx
      exact signature_notMem_of_mem_supporting hi (heq ▸ List.mem_cons_self)

/-- The rendered indexes have different signatures, none of which the primary key has. -/
theorem nodup_signatures_emitted (table : String) (primaryKey : List String)
    (declared : List Index) (keys : List ForeignKey) :
    (keySignatures primaryKey ++
      signatures (emitted table primaryKey declared keys)).Nodup := by
  have hkept : IsCovering (keySignatures primaryKey) (kept table (keySignatures primaryKey) declared) :=
    isCovering_kept declared _
  have hsupporting : ∀ s ∈ signatures (supporting table (keySignatures primaryKey ++
      signatures (kept table (keySignatures primaryKey) declared)) keys),
        s ∉ keySignatures primaryKey ++
          signatures (kept table (keySignatures primaryKey) declared) := by
    intro s hs
    obtain ⟨i, hi, rfl⟩ := List.mem_map.1 hs
    exact signature_notMem_of_mem_supporting hi
  have hkey : (keySignatures primaryKey).Nodup := by
    rw [keySignatures]
    split
    · exact List.nodup_nil
    · exact List.nodup_cons.2 ⟨List.not_mem_nil, List.nodup_nil⟩
  have hfront : (keySignatures primaryKey ++
      signatures (kept table (keySignatures primaryKey) declared)).Nodup := by
    refine List.nodup_append.2 ⟨hkey, hkept.nodup, ?_⟩
    rintro s hs _ hs' rfl
    exact hkept.fresh s hs' hs
  have happ : keySignatures primaryKey ++ signatures (emitted table primaryKey declared keys) =
      keySignatures primaryKey ++ signatures (kept table (keySignatures primaryKey) declared) ++
        signatures (supporting table (keySignatures primaryKey ++
          signatures (kept table (keySignatures primaryKey) declared)) keys) := by
    rw [List.append_assoc]
    exact congrArg (keySignatures primaryKey ++ ·) List.map_append
  rw [happ]
  refine List.nodup_append.2 ⟨hfront, nodup_signatures_supporting _ _ _, ?_⟩
  rintro s hs _ hs' rfl
  exact hsupporting s hs' hs

/-- The columns of every foreign key are covered by the primary key or a rendered index. -/
theorem mem_signatures_emitted (table : String) (primaryKey : List String)
    (declared : List Index) {keys : List ForeignKey} {k : ForeignKey} (hk : k ∈ keys) :
    signature k.columns ∈
      keySignatures primaryKey ++ signatures (emitted table primaryKey declared keys) := by
  have hmem : signature k.columns ∈
      (keySignatures primaryKey ++ signatures (kept table (keySignatures primaryKey) declared)) ++
        signatures (supporting table (keySignatures primaryKey ++
          signatures (kept table (keySignatures primaryKey) declared)) keys) :=
    mem_signatures_supporting hk
  rw [List.append_assoc, signatures, signatures, ← List.map_append] at hmem
  exact hmem

theorem mem_keySignatures {primaryKey : List String} {s : String} :
    s ∈ keySignatures primaryKey ↔ primaryKey ≠ [] ∧ s = signature primaryKey := by
  cases primaryKey <;> simp [keySignatures]

/-- **The indexes of a table are its declared ones, each column list once.** Each declared index
is kept with its columns or reported, in the order of the declarations; the indexes that support
foreign keys follow. No two of the indexes have the same signature, none has the one of the
primary key, and each foreign key has the signature of the primary key or of an index. -/
theorem accounts_emitted (t : Table) (primaryKey : List String) (keys : List ForeignKey) :
    (signatures (emitted t.name primaryKey t.indexes keys)).Nodup ∧
    (primaryKey ≠ [] →
      signature primaryKey ∉ signatures (emitted t.name primaryKey t.indexes keys)) ∧
    (∃ kept supporting,
      emitted t.name primaryKey t.indexes keys = kept ++ supporting ∧
      Accounts t.name (keySignatures primaryKey) [] t.indexes kept
        (notices t.name primaryKey t.indexes) ∧
      Supports t.name (keySignatures primaryKey ++ signatures kept) [] keys supporting) ∧
    ∀ k ∈ keys, (primaryKey ≠ [] ∧ signature k.columns = signature primaryKey) ∨
      signature k.columns ∈ signatures (emitted t.name primaryKey t.indexes keys) := by
  have hnodup := nodup_signatures_emitted t.name primaryKey t.indexes keys
  obtain ⟨-, hindexes, hapart⟩ := List.nodup_append.1 hnodup
  refine ⟨hindexes, fun hkey hx => ?_, ?_, fun k hk => ?_⟩
  · exact hapart _ (mem_keySignatures.2 ⟨hkey, rfl⟩) _ hx rfl
  · exact ⟨_, _, rfl, accounts_outcomes (reaches_nil _), supports_supporting (reaches_nil _)⟩
  · rcases List.mem_append.1 (mem_signatures_emitted t.name primaryKey t.indexes hk) with
      hmem | hmem
    · exact Or.inl (mem_keySignatures.1 hmem)
    · exact Or.inr hmem

end Index
end SchemaScript
