import SchemaScript.Proofs.Definition.Accounts
import SchemaScript.Proofs.Script.Additions
import SchemaScript.Proofs.Script.Interleaving

/-!
# No table and no item disappears

Two readers look at the header of a statement: one tells its kind, the other goes on to the
table. They take the same steps up to the word `TABLE`, so whatever the second accepts the first
calls a statement that creates a table (`StatementKind.ofText_of_ofStatement`).

A statement of this kind gives a table, or else one notice with its number, and additions change
neither. So tables and notices together are as many as these statements, and the numbers of the
notices ascend (`length_add_length_numbers`, `pairwise_numbers`). The items of a body come out as
columns, constraints or notices, in their order. All of this together is `ofScript_accounts`.
-/

namespace SchemaScript

open Reader

namespace Notice

/-- The number of the statement that a notice is about, if it is about a whole statement. -/
def number? : Notice → Option Nat
  | skippedStatement number _ _ => some number
  | _ => none

end Notice

/-! ## The kind of a statement that creates a table -/

namespace StatementKind

/-- What has the header of a table definition is of the kind that creates a table. -/
theorem run_reader_of_header {ts rest : List Token}
    (h : TableDefinition.header.run (ts.dropWhile Token.isBlank) = (some (), rest)) :
    (reader.run ts).1 = some .createTable := by
  obtain ⟨_, afterGuard, hguard, h⟩ := exists_of_run_bind h
  obtain ⟨_, afterCreate, hcreate, h⟩ := exists_of_run_bind h
  obtain ⟨_, afterTemporary, htemporary, h⟩ := exists_of_run_bind h
  obtain ⟨_, afterTable, htable, -⟩ := exists_of_run_bind h
  obtain ⟨t, us, rfl, ht, -⟩ := exists_of_run_expect htable
  have hsees : (seesKeyword "TABLE").run (t :: us) = (some true, t :: us) := by
    rw [run_seesKeyword, ht]
  have hcreated : createReader.run afterCreate = (some .createTable, t :: us) := by
    rw [createReader, run_bind_of_some htemporary, run_bind_of_some hsees]
    rfl
  rw [reader, run_bind_of_some (run_skipBlanks ts), run_bind_of_some hguard,
    run_bind_of_some (run_possibly_of_eq hcreate), hcreated]

/-- **Every statement that a table is read from is of the kind that creates one.** -/
theorem ofText_of_ofStatement {text : String} {t : Table} {skipped : List String}
    (h : Table.ofStatement text = .ok (t, skipped)) : ofText text = .createTable := by
  obtain ⟨items, columns, constraints, hbody, -⟩ := Table.exists_accounts_of_ofStatement h
  obtain ⟨ts, afterHeader, -, -, -, hts, hheader, -⟩ := hbody
  rw [ofText, hts]
  dsimp only
  rw [run_reader_of_header hheader]
  rfl

end StatementKind

/-! ## Statements that should create tables -/

namespace Script

theorem length_creations (number : Nat) (statements : List Statement) :
    (creations number statements).length =
      statements.countP fun s => StatementKind.ofText s.text = .createTable := by
  induction statements generalizing number with
  | nil => rfl
  | cons s ss ih =>
    rw [creations, List.countP_cons]
    cases StatementKind.ofText s.text with
    | createTable => rw [List.length_cons, ih]; rfl
    | _ => exact ih (number + 1)

/-- The numbers of statements ascend. -/
theorem pairwise_creations (number : Nat) (statements : List Statement) :
    ((creations number statements).map Creation.number).Pairwise (· < ·) ∧
      ∀ n ∈ (creations number statements).map Creation.number, number ≤ n := by
  induction statements generalizing number with
  | nil => exact ⟨List.Pairwise.nil, by simp [creations]⟩
  | cons s ss ih =>
    obtain ⟨hpairwise, hle⟩ := ih (number + 1)
    have hlater : ∀ n ∈ (creations (number + 1) ss).map Creation.number, number ≤ n :=
      fun n hn => Nat.le_of_succ_le (hle n hn)
    rw [creations]
    cases StatementKind.ofText s.text with
    | createTable => exact ⟨List.pairwise_cons.2 ⟨hle, hpairwise⟩, by simpa using hlater⟩
    | _ => exact ⟨hpairwise, hlater⟩

/-- A statement gives a table or a notice with its number, and not both. -/
theorem filterMap_number?_notices (c : Creation) :
    (∃ t, c.table? = some t ∧ c.notices.filterMap Notice.number? = []) ∨
      c.table? = none ∧ c.notices.filterMap Notice.number? = [c.number] := by
  unfold Creation.table? Creation.notices
  cases c.outcome with
  | ok r => exact Or.inl ⟨r.1, rfl, by simp [Notice.number?]⟩
  | error cause => exact Or.inr ⟨rfl, rfl⟩

/-- Tables and notices of statements are as many as the statements. -/
theorem length_add_length_numbers (cs : List Creation) :
    (cs.filterMap Creation.table?).length +
      ((cs.flatMap Creation.notices).filterMap Notice.number?).length = cs.length := by
  induction cs with
  | nil => rfl
  | cons c cs ih =>
    rw [List.flatMap_cons, List.filterMap_append, List.length_append, List.filterMap_cons]
    rcases filterMap_number?_notices c with ⟨t, ht, hnumbers⟩ | ⟨ht, hnumbers⟩
    · rw [ht, hnumbers]
      simp only [List.length_cons, List.length_nil]
      omega
    · rw [ht, hnumbers]
      simp only [List.length_cons, List.length_nil]
      omega

/-- The notices stand in the order of their statements. -/
theorem sublist_numbers (cs : List Creation) :
    ((cs.flatMap Creation.notices).filterMap Notice.number?).Sublist (cs.map Creation.number) := by
  induction cs with
  | nil => exact List.Sublist.slnil
  | cons c cs ih =>
    rw [List.flatMap_cons, List.filterMap_append, List.map_cons]
    rcases filterMap_number?_notices c with ⟨t, -, hnumbers⟩ | ⟨-, hnumbers⟩
    · rw [hnumbers]
      exact ih.cons c.number
    · rw [hnumbers]
      exact ih.cons_cons c.number

theorem pairwise_numbers (statements : List Statement) :
    (((creations 1 statements).flatMap Creation.notices).filterMap Notice.number?).Pairwise
      (· < ·) :=
  (pairwise_creations 1 statements).1.sublist (sublist_numbers _)

/-- The skipped items are those of the texts that create tables. -/
theorem filter_notices_eq_flatMap (number : Nat) (statements : List Statement) :
    ((creations number statements).flatMap Creation.notices).filter Notice.isSkippedItem =
      (statements.filterMap fun s => created? s.text).flatMap fun r =>
        r.2.map (.skippedItem r.1.name) := by
  rw [filter_notices_creations, List.filterMap_eq_flatMap_toList, List.flatMap_assoc]
  refine List.flatMap_congr fun s _ => ?_
  rw [skippedItems]
  cases created? s.text with
  | none => rfl
  | some r => simp

end Script

namespace Contents

open Script

/-- **No statement that should create a table and no item of a body disappears.** -/
theorem ofScript_accounts (script : String) :
    (ofScript script).tables.length +
        ((ofScript script).notices.filterMap Notice.number?).length =
      (statements (tidy script)).countP
        (fun s => StatementKind.ofText s.text = .createTable) ∧
    ((ofScript script).notices.filterMap Notice.number?).Pairwise (· < ·) ∧
    (∀ text t skipped, Table.ofStatement text = .ok (t, skipped) →
      StatementKind.ofText text = .createTable ∧
      ∃ items columns constraints, TableDefinition.HasBody text t.name items ∧
        TableDefinition.Accounts (TableDefinition.itemTexts items) columns constraints skipped ∧
        Table.assemble t.name columns constraints = .ok t) ∧
    ∃ created, created = (statements (tidy script)).filterMap (fun s => created? s.text) ∧
      (ofScript script).tables.map Table.name = created.map (fun r => r.1.name) ∧
      (ofScript script).notices.filter Notice.isSkippedItem =
        created.flatMap fun r => r.2.map (.skippedItem r.1.name) := by
  have hnames := Addition.map_name_foldl_attach
    ((statements (tidy script)).filterMap addition?)
    ((creations 1 (statements (tidy script))).filterMap Creation.table?)
  refine ⟨?_, pairwise_numbers _, fun text t skipped h =>
    ⟨StatementKind.ofText_of_ofStatement h, Table.exists_accounts_of_ofStatement h⟩,
    _, rfl, ?_, filter_notices_eq_flatMap 1 _⟩
  · have hlength := congrArg List.length hnames
    rw [List.length_map, List.length_map] at hlength
    rw [ofScript, ofStatements, hlength, length_add_length_numbers, length_creations]
  · rw [ofScript, ofStatements, hnames, filterMap_table?_creations,
      List.filterMap_eq_flatMap_toList, List.map_flatMap, List.map_flatMap]
    refine List.flatMap_congr fun s _ => ?_
    cases created? s.text <;> rfl

/-- Of two statements that should create tables one does, with an item that is skipped, and the
other one is reported. -/
theorem ofScript_accounts_unfinished :
    ∃ t skipped, Table.ofStatement "CREATE TABLE t(a INT,?)" = .ok (t, skipped) ∧
      StatementKind.ofText "CREATE TABLE t(a INT,?)" = .createTable ∧
      (∃ items columns constraints,
        TableDefinition.HasBody "CREATE TABLE t(a INT,?)" t.name items ∧
        TableDefinition.Accounts (TableDefinition.itemTexts items) columns constraints skipped ∧
        Table.assemble t.name columns constraints = .ok t) ∧
      (ofScript "CREATE TABLE u;CREATE TABLE t(a INT,?)").tables.length +
        ((ofScript "CREATE TABLE u;CREATE TABLE t(a INT,?)").notices.filterMap
          Notice.number?).length = 2 := by
  have hsome : (Table.ofStatement "CREATE TABLE t(a INT,?)").toOption.isSome = true := by
    decide +kernel
  obtain ⟨⟨t, skipped⟩, h⟩ : ∃ r, Table.ofStatement "CREATE TABLE t(a INT,?)" = .ok r := by
    cases h : Table.ofStatement "CREATE TABLE t(a INT,?)" with
    | ok r => exact ⟨r, rfl⟩
    | error cause =>
      rw [h] at hsome
      cases hsome
  have hcount : (statements (tidy "CREATE TABLE u;CREATE TABLE t(a INT,?)")).countP
      (fun s => StatementKind.ofText s.text = .createTable) = 2 := by decide +kernel
  obtain ⟨hlength, -, haccounts, -⟩ :=
    ofScript_accounts "CREATE TABLE u;CREATE TABLE t(a INT,?)"
  obtain ⟨hkind, hitems⟩ := haccounts _ t skipped h
  exact ⟨t, skipped, h, hkind, hitems, hlength.trans hcount⟩

end Contents
end SchemaScript
