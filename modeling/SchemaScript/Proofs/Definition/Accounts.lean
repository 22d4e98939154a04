import SchemaScript.Proofs.Definition.Assembly
import SchemaScript.Proofs.Definition.Body
import SchemaScript.Proofs.Definition.TypeNames

/-!
# What becomes of the items of a body

A body that is cut into items is these items with commas between them and the closing
parenthesis behind them, and every item is as long as it can be: `bodyItems?_eq_some_iff` says
so in both directions, so nothing of a body is lost and nothing is found in it that is not there.

Each item that is not blank is then read as a column, or as a constraint, or it is left over,
and only one of the three. `Accounts` is the relation between the items and what they were read
as. A statement that creates a table accounts for all items of its body
(`exists_accounts_of_ofStatement`), and so the types of its columns are among those that columns
can be read with (`dataType_mem_readable_of_ofStatement`).
-/

namespace SchemaScript

open Reader Token

namespace TableDefinition

/-! ## Cutting a body -/

/-- A run of tokens in front of a token is an item, and the token ends items. -/
theorem depthAfter_of_itemRun {depth : Nat} {ts item rest : List Token} {t : Token}
    (h : itemRun depth ts = (item, t :: rest)) :
    depthAfter depth item = some 0 ∧ (t.isMark .comma || t.isMark .closeParen) = true := by
  induction ts generalizing depth item with
  | nil => simp [itemRun] at h
  | cons u us ih =>
    have hgo : ∀ {depth' : Nat}, (u :: (itemRun depth' us).1, (itemRun depth' us).2) =
        (item, t :: rest) → depthAfter depth item = depthAfter depth' (itemRun depth' us).1 →
          depthAfter depth item = some 0 ∧ (t.isMark .comma || t.isMark .closeParen) = true := by
      intro depth' heq hdepth
      obtain ⟨hitem, ht⟩ := ih (Prod.ext rfl (Prod.mk.inj heq).2)
      exact ⟨hdepth.trans hitem, ht⟩
    cases depth with
    | zero =>
      rw [itemRun] at h
      split at h
      · rename_i hu
        cases h
        exact ⟨rfl, hu⟩
      · rename_i hu
        obtain ⟨hcomma, hclose⟩ : u.isMark .comma = false ∧ u.isMark .closeParen = false := by
          simpa using hu
        refine hgo h ?_
        rw [← (Prod.mk.inj h).1, depthAfter, hclose, hcomma]
        split <;> rfl
    | succ depth =>
      rw [itemRun] at h
      refine hgo h ?_
      rw [← (Prod.mk.inj h).1, depthAfter]
      split
      · rfl
      split
      · rfl
      · simp

/-- **A body is cut into items exactly if it consists of them.** -/
theorem bodyItems?_eq_some_iff {ts : List Token} {items : List (List Token)}
    {rest : List Token} :
    bodyItems? ts = some (items, rest) ↔
      items ≠ [] ∧ (∀ item ∈ items, IsItem item) ∧
        ts = [Token.mark .comma].intercalate items ++ Token.mark .closeParen :: rest := by
  constructor
  · intro h
    fun_induction bodyItems? ts generalizing items rest with
    | case1 => cases h
    | case2 ts t more hrun hclose =>
      cases h
      obtain ⟨hitem, -⟩ := depthAfter_of_itemRun (Prod.ext rfl hrun)
      refine ⟨List.cons_ne_nil _ _, List.forall_mem_singleton.2 hitem, ?_⟩
      rw [List.intercalate_singleton, ← isMark_iff.1 hclose, ← hrun, itemRun_append]
    | case3 ts t more hrun hclose ih =>
      obtain ⟨r, hr, heq⟩ := Option.map_eq_some_iff.1 h
      cases heq
      obtain ⟨hne, hitems, hmore⟩ := ih hr
      obtain ⟨hitem, hend⟩ := depthAfter_of_itemRun (Prod.ext rfl hrun)
      rw [Bool.not_eq_true] at hclose
      rw [hclose, Bool.or_false] at hend
      refine ⟨List.cons_ne_nil _ _, ?_, ?_⟩
      · exact List.forall_mem_cons.2 ⟨hitem, hitems⟩
      · obtain ⟨next, others, hr1⟩ := List.exists_cons_of_ne_nil hne
        rw [hr1] at hmore ⊢
        rw [List.intercalate_cons_cons, List.append_assoc, List.append_assoc, ← hmore,
          List.singleton_append, ← isMark_iff.1 hend, ← hrun, itemRun_append]
  · rintro ⟨hne, hitems, rfl⟩
    exact bodyItems?_intercalate hne hitems rest

/-! ## Reading the items -/

/-- What the texts of items have been read as: columns, constraints, and what was left over. -/
inductive Accounts :
    List (List Char) → List ColumnDefinition → List Constraint → List String → Prop where
  | nil : Accounts [] [] [] []
  | column {cs : List Char} {d : ColumnDefinition} {texts : List (List Char)}
      {columns : List ColumnDefinition} {constraints : List Constraint} {skipped : List String}
      (read : Item.ofText? cs = some (.column d))
      (rest : Accounts texts columns constraints skipped) :
      Accounts (cs :: texts) (d :: columns) constraints skipped
  | constraint {cs : List Char} {c : Constraint} {texts : List (List Char)}
      {columns : List ColumnDefinition} {constraints : List Constraint} {skipped : List String}
      (read : Item.ofText? cs = some (.constraint c))
      (rest : Accounts texts columns constraints skipped) :
      Accounts (cs :: texts) columns (c :: constraints) skipped
  | skipped {cs : List Char} {texts : List (List Char)}
      {columns : List ColumnDefinition} {constraints : List Constraint} {skipped : List String}
      (unread : Item.ofText? cs = none)
      (rest : Accounts texts columns constraints skipped) :
      Accounts (cs :: texts) columns constraints (Text.trimmed (String.ofList cs) :: skipped)

/-- Every item is accounted for once. -/
theorem Accounts.length {texts : List (List Char)} {columns : List ColumnDefinition}
    {constraints : List Constraint} {skipped : List String}
    (h : Accounts texts columns constraints skipped) :
    columns.length + constraints.length + skipped.length = texts.length := by
  induction h with
  | nil => rfl
  | column _ _ ih | constraint _ _ ih | skipped _ _ ih =>
    simp only [List.length_cons]
    omega

/-- An item that is read as a column has one of the types that columns can be read with. -/
theorem dataType_mem_readable_of_ofText? {cs : List Char} {d : ColumnDefinition}
    (h : Item.ofText? cs = some (.column d)) : d.dataType ∈ DataType.readable := by
  obtain ⟨ts, -, hts⟩ := Option.bind_eq_some_iff.1 h
  have hconstraint : (Constraint.reader.run ts).1.map Item.constraint ≠ some (.column d) := by
    cases (Constraint.reader.run ts).1 <;> nofun
  unfold Item.ofTokens? at hts
  dsimp only at hts
  split at hts
  · split at hts
    · rename_i d' hd'
      cases hts
      exact ColumnDefinition.dataType_mem_readable hd'
    · exact absurd hts hconstraint
  · exact absurd hts hconstraint

theorem Accounts.dataType_mem_readable {texts : List (List Char)}
    {columns : List ColumnDefinition} {constraints : List Constraint} {skipped : List String}
    (h : Accounts texts columns constraints skipped) :
    ∀ d ∈ columns, d.dataType ∈ DataType.readable := by
  induction h with
  | nil => simp
  | column read _ ih => exact List.forall_mem_cons.2 ⟨dataType_mem_readable_of_ofText? read, ih⟩
  | constraint _ _ ih | skipped _ _ ih => exact ih

theorem accounts_foldr_consItem (name : String) (texts : List (List Char)) :
    Accounts texts (texts.foldr consItem ⟨name, [], [], []⟩).columns
      (texts.foldr consItem ⟨name, [], [], []⟩).constraints
      (texts.foldr consItem ⟨name, [], [], []⟩).skipped := by
  induction texts with
  | nil => exact .nil
  | cons cs texts ih =>
    rw [List.foldr_cons, consItem]
    split
    · rename_i d hread
      exact .column hread ih
    · rename_i c hread
      exact .constraint hread ih
    · rename_i hunread
      have h := Accounts.skipped hunread ih
      rwa [Text.trimmed, String.toList_ofList] at h

@[simp] theorem name_foldr_consItem (name : String) (texts : List (List Char)) :
    (texts.foldr consItem ⟨name, [], [], []⟩).name = name := by
  induction texts with
  | nil => rfl
  | cons cs texts ih =>
    rw [List.foldr_cons, consItem]
    split <;> exact ih

/-! ## The statement -/

/-- Whether a text is a header, a name and a body that consists of the given items. -/
def HasBody (text name : String) (items : List (List Token)) : Prop :=
  ∃ ts afterHeader afterName body rest,
    tokenize text.toList = some ts ∧
    header.run (ts.dropWhile Token.isBlank) = (some (), afterHeader) ∧
    qualifiedName.run afterHeader = (some name, afterName) ∧
    (Reader.mark .openParen).run (afterName.dropWhile Token.isBlank) = (some (), body) ∧
    body = [Token.mark .comma].intercalate items ++ Token.mark .closeParen :: rest ∧
    ∀ item ∈ items, IsItem item

/-- A definition that was read holds what the items of its body are read as. -/
theorem exists_accounts_of_ofText {text : String} {d : TableDefinition} (h : ofText text = .ok d) :
    ∃ items, HasBody text d.name items ∧
      Accounts (itemTexts items) d.columns d.constraints d.skipped := by
  unfold ofText at h
  split at h
  · cases h
  rename_i ts hts
  unfold ofTokens at h
  split at h
  · cases h
  rename_i afterHeader hheader
  split at h
  · cases h
  rename_i name afterName hname
  split at h
  · cases h
  rename_i body hbody
  split at h
  · cases h
  rename_i items rest hitems
  obtain ⟨-, hall, hcut⟩ := bodyItems?_eq_some_iff.1 hitems
  cases h
  refine ⟨items, ⟨ts, afterHeader, afterName, body, rest, hts, hheader, ?_, hbody, hcut, hall⟩,
    accounts_foldr_consItem name (itemTexts items)⟩
  rw [ofItems, name_foldr_consItem]
  exact hname

end TableDefinition

namespace Table

@[simp] theorem name_markPrimary (t : Table) (n : String) : (t.markPrimary n).1.name = t.name := by
  unfold markPrimary
  split <;> rfl

@[simp] theorem name_markAll (t : Table) (key : List String) : (t.markAll key).name = t.name := by
  induction key generalizing t with
  | nil => rfl
  | cons n key ih => exact (ih _).trans (name_markPrimary t n)

theorem name_of_assemble {name : String} {columns : List ColumnDefinition}
    {constraints : List Constraint} {t : Table} (h : assemble name columns constraints = .ok t) :
    t.name = name := by
  unfold assemble at h
  split at h
  · cases h
  · cases h
    exact name_markAll _ _

/-- **A statement that creates a table accounts for all items of its body**, and the table is made
up of what they were read as. -/
theorem exists_accounts_of_ofStatement {text : String} {t : Table} {skipped : List String}
    (h : ofStatement text = .ok (t, skipped)) :
    ∃ items columns constraints, TableDefinition.HasBody text t.name items ∧
      TableDefinition.Accounts (TableDefinition.itemTexts items) columns constraints skipped ∧
      assemble t.name columns constraints = .ok t := by
  unfold ofStatement at h
  split at h
  · cases h
  rename_i d hd
  split at h
  · cases h
  rename_i t' ht
  cases h
  have hname : t.name = d.name := name_of_assemble ht
  obtain ⟨items, hbody, haccounts⟩ := TableDefinition.exists_accounts_of_ofText hd
  refine ⟨items, d.columns, d.constraints, by rwa [hname], haccounts, ?_⟩
  rw [hname]
  exact ht

/-- The columns of a table are the definitions that it was assembled from, apart from their
flags. -/
theorem exists_definition_of_assemble {name : String} {columns : List ColumnDefinition}
    {constraints : List Constraint} {t : Table} (h : assemble name columns constraints = .ok t) :
    ∀ c ∈ t.columns, ∃ d ∈ columns, c.unflagged = d.toColumn := by
  unfold assemble at h
  split at h
  · cases h
  · cases h
    intro c hc
    have hmem := List.mem_map_of_mem (f := Column.unflagged) hc
    rw [map_unflagged_markAll, List.map_map] at hmem
    obtain ⟨d, hd, hcolumn⟩ := List.mem_map.1 hmem
    exact ⟨d, (ColumnDefinition.firstOfEachName_sublist [] columns).mem hd, hcolumn.symm⟩

/-- **The columns of a table that a statement creates have types that columns can be read
with.** -/
theorem dataType_mem_readable_of_ofStatement {text : String} {t : Table} {skipped : List String}
    (h : ofStatement text = .ok (t, skipped)) :
    ∀ c ∈ t.columns, c.dataType ∈ DataType.readable := by
  obtain ⟨items, columns, constraints, -, haccounts, hassemble⟩ :=
    exists_accounts_of_ofStatement h
  intro c hc
  obtain ⟨d, hd, hcolumn⟩ := exists_definition_of_assemble hassemble c hc
  have htype : c.dataType = d.dataType := congrArg Column.dataType hcolumn
  rw [htype]
  exact haccounts.dataType_mem_readable d hd

end Table
end SchemaScript
