import SchemaScript.Proofs.Definition.Coherence
import SchemaScript.Script.Contents

/-!
# Additions to tables

An addition changes one table at most, and of that table only its indexes or the description of
a column (`Addition.mem_attach`). What holds of tables and is kept by every single addition is
therefore kept by all additions of a script, whatever their number and order
(`Addition.forall_mem_foldl_attach`); no addition makes, removes or renames a table
(`Addition.map_name_foldl_attach`).

Coherence is of this kind. The tables of a script are coherent from the start, so they are in
the end (`coherent_tables`).
-/

namespace SchemaScript

namespace Column

/-- A description changes nothing else. -/
theorem map_describeFirst {β : Type} {f : Column → β}
    (hf : ∀ c text, f { c with description := text } = f c) (name text : String)
    (cs : List Column) : (describeFirst name text cs).map f = cs.map f := by
  induction cs with
  | nil => rfl
  | cons c cs ih =>
    rw [describeFirst]
    split
    · rw [List.map_cons, List.map_cons, hf]
    · rw [List.map_cons, List.map_cons, ih]

end Column

namespace Addition

variable {tables : List Table} {t : Table}

/-- A table behind an addition is one in front of it, with the addition or without. -/
theorem mem_attach {a : Addition} (h : t ∈ attach tables a) :
    t ∈ tables ∨ ∃ t' ∈ tables, a.apply t' = t := by
  unfold attach at h
  split at h
  · rename_i i _
    rw [List.mem_iff_getElem?] at h
    obtain ⟨j, hj⟩ := h
    rw [List.getElem?_modify] at hj
    obtain ⟨t', ht', rfl⟩ := Option.map_eq_some_iff.1 hj
    have hmem : t' ∈ tables := List.mem_of_getElem? ht'
    split
    · exact Or.inr ⟨t', hmem, rfl⟩
    · exact Or.inl hmem
  · exact Or.inl h

theorem name_apply (a : Addition) (t : Table) : (a.apply t).name = t.name := by
  cases a <;> rfl

theorem map_name_attach (tables : List Table) (a : Addition) :
    (attach tables a).map Table.name = tables.map Table.name := by
  unfold attach
  split
  · rename_i i _
    refine List.ext_getElem? fun j => ?_
    rw [List.getElem?_map, List.getElem?_modify, List.getElem?_map, Option.map_eq_map,
      Option.map_map]
    refine Option.map_congr fun t _ => ?_
    rw [Function.comp_apply]
    split
    · exact name_apply a t
    · rfl
  · rfl

@[simp] theorem map_name_foldl_attach (additions : List Addition) (tables : List Table) :
    (additions.foldl attach tables).map Table.name = tables.map Table.name := by
  induction additions generalizing tables with
  | nil => rfl
  | cons a additions ih =>
    rw [List.foldl_cons, ih, map_name_attach]

/-- What every addition keeps is kept by all of them. -/
theorem forall_mem_foldl_attach {p : Table → Prop} (hp : ∀ a t, p t → p (Addition.apply a t))
    (additions : List Addition) (h : ∀ t ∈ tables, p t) :
    ∀ t ∈ additions.foldl attach tables, p t := by
  induction additions generalizing tables with
  | nil => exact h
  | cons a additions ih =>
    refine ih fun t ht => ?_
    rcases mem_attach ht with ht | ⟨t', ht', rfl⟩
    · exact h t ht
    · exact hp a t' (h t' ht')

/-- An addition keeps a table coherent. -/
theorem isCoherent_apply (a : Addition) (h : t.IsCoherent) : (a.apply t).IsCoherent := by
  cases a with
  | index table i => exact h.of_keyed rfl rfl
  | description table column text =>
    exact h.of_keyed (Column.map_describeFirst (fun _ _ => rfl) column text t.columns) rfl

end Addition

namespace Contents

open Script

/-- A table that a statement creates is what the statement, read on its own, gives. -/
theorem mem_filterMap_table? {number : Nat} {statements : List Statement} {t : Table}
    (h : t ∈ (creations number statements).filterMap Creation.table?) :
    ∃ text skipped, Table.ofStatement text = .ok (t, skipped) := by
  obtain ⟨c, -, hc⟩ := List.mem_filterMap.1 h
  unfold Creation.table? at hc
  split at hc
  · rename_i t' skipped hout
    cases hc
    exact ⟨c.statement.text, skipped, hout⟩
  · cases hc

theorem isCoherent_of_mem_ofStatements {statements : List Statement} :
    ∀ t ∈ (ofStatements statements).tables, t.IsCoherent := by
  refine Addition.forall_mem_foldl_attach (fun a t => Addition.isCoherent_apply a) _ ?_
  intro t ht
  obtain ⟨text, skipped, hout⟩ := mem_filterMap_table? ht
  exact Table.isCoherent_of_ofStatement hout

/-- **The tables of a script are coherent, and additions keep coherent tables so.** In both cases
the effective key is the declared one, and a table is faultless exactly if it has a name. -/
theorem coherent_tables :
    (∀ (script : String), ∀ t ∈ (ofScript script).tables,
      t.IsCoherent ∧ t.effectiveKey = t.primaryKey ∧
        (t.fault? = none ↔ Text.isBlankString t.name = false)) ∧
    ∀ (tables : List Table) (additions : List Addition), (∀ t ∈ tables, t.IsCoherent) →
      ∀ t ∈ additions.foldl Addition.attach tables,
        t.IsCoherent ∧ t.effectiveKey = t.primaryKey ∧
          (t.fault? = none ↔ Text.isBlankString t.name = false) := by
  have hsound : ∀ t : Table, t.IsCoherent → t.IsCoherent ∧ t.effectiveKey = t.primaryKey ∧
      (t.fault? = none ↔ Text.isBlankString t.name = false) :=
    fun t h => ⟨h, h.effectiveKey_eq, h.fault?_eq_none_iff⟩
  refine ⟨fun script t ht => hsound t (isCoherent_of_mem_ofStatements t ht),
    fun tables additions h t ht => hsound t ?_⟩
  exact Addition.forall_mem_foldl_attach (fun a t => Addition.isCoherent_apply a) additions h t ht

/-- A key in two places, one of which names an unknown column, and an index in front of the
table. -/
def keyedScript : String :=
  "CREATE INDEX i ON T(b);CREATE TABLE t(a INT PRIMARY KEY,b INT,PRIMARY KEY(b,x))"

/-- The declared key of the script's table has both columns and is the effective one, also with
one more index. -/
theorem coherent_tables_keyedScript :
    ∃ t ∈ (ofScript keyedScript).tables, t.primaryKey = ["a", "b"] ∧
      t.effectiveKey = t.primaryKey ∧ t.fault? = none ∧
      ∀ t' ∈ [Addition.index "t" { columns := ["b"] }].foldl Addition.attach [t],
        t'.effectiveKey = t'.primaryKey := by
  have hkeys : (ofScript keyedScript).tables.map (fun t => (t.name, t.primaryKey)) =
      [("t", ["a", "b"])] := by decide +kernel
  obtain ⟨t, htables, hkey⟩ := List.map_eq_singleton_iff.1 hkeys
  obtain ⟨hname, hkey⟩ := Prod.mk.inj hkey
  have ht : t ∈ (ofScript keyedScript).tables := by simp [htables]
  obtain ⟨hcoherent, heffective, hfault⟩ := coherent_tables.1 keyedScript t ht
  refine ⟨t, ht, hkey, heffective, hfault.2 (by rw [hname]; decide), fun t' ht' => ?_⟩
  exact (coherent_tables.2 [t] [.index "t" { columns := ["b"] }] (by simpa using hcoherent)
    t' ht').2.1

end Contents
end SchemaScript
