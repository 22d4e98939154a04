import Mathlib.Data.List.Basic
import SchemaScript.Script.Contents

/-!
# Statements of different kinds do not disturb each other

What a statement contributes to a script depends on its text only, and there are three kinds of
contributions: a table with its skipped items, an addition, and names of dropped tables. A
statement makes one of them at most. So the tables of a script depend on the statements that
create a table and on those that add to one, its dropped tables on those that drop, and the
skipped items on those that create; where the three kinds stand among each other, and among
statements that contribute nothing, makes no difference (`ofStatements_interleaved`).

The number and line of a statement are the exception, and they occur only in the notice of a
statement that should create a table and does not.
-/

namespace SchemaScript

/-- Whether the notice is of an item of a body. -/
def Notice.isSkippedItem : Notice → Bool
  | skippedItem _ _ => true
  | _ => false

namespace Script

/-! ## What the text of a statement contributes -/

/-- The table that the text creates, with the items that were skipped. -/
def created? (text : String) : Option (Table × List String) :=
  match StatementKind.ofText text with
  | .createTable => (Table.ofStatement text).toOption
  | _ => none

/-- Whether the text creates a table. -/
def creates (text : String) : Bool :=
  (created? text).isSome

/-- Whether the text adds to a table. -/
def adds (text : String) : Bool :=
  match StatementKind.ofText text with
  | .addition _ => true
  | _ => false

/-- Whether the text drops tables. -/
def drops (text : String) : Bool :=
  match StatementKind.ofText text with
  | .dropTables _ => true
  | _ => false

/-- The notices of the items that were skipped in a text. -/
def skippedItems (text : String) : List Notice :=
  match created? text with
  | some (t, skipped) => skipped.map (.skippedItem t.name)
  | none => []

theorem created?_eq_none {text : String} (h : creates text = false) : created? text = none := by
  rwa [creates, Option.isSome_eq_false_iff, Option.isNone_iff_eq_none] at h

/-! ## Contributions of lists of statements -/

variable {α : Type} {a b : List Statement}

/-- Texts that contribute nothing can be left out. -/
theorem flatMap_filter_of_eq_nil {f : String → List α} {p : String → Bool}
    (h : ∀ text, p text = false → f text = []) (texts : List String) :
    (texts.filter p).flatMap f = texts.flatMap f := by
  induction texts with
  | nil => rfl
  | cons text texts ih =>
    rw [List.flatMap_cons]
    cases hp : p text with
    | true => rw [List.filter_cons_of_pos hp, List.flatMap_cons, ih]
    | false => rw [List.filter_cons_of_neg (by simp [hp]), h text hp, List.nil_append, ih]

/-- The same texts that contribute make the same contribution. -/
theorem flatMap_text_congr {f : String → List α} {p : String → Bool}
    (h : ∀ text, p text = false → f text = [])
    (hab : (a.map Statement.text).filter p = (b.map Statement.text).filter p) :
    (a.flatMap fun s => f s.text) = b.flatMap fun s => f s.text := by
  have hmap : ∀ statements : List Statement, (statements.flatMap fun s => f s.text) =
      ((statements.map Statement.text).filter p).flatMap f := by
    intro statements
    rw [flatMap_filter_of_eq_nil h, List.flatMap_map]
  rw [hmap, hmap, hab]

theorem filterMap_table?_creations (number : Nat) (statements : List Statement) :
    (creations number statements).filterMap Creation.table? =
      statements.flatMap fun s => ((created? s.text).map Prod.fst).toList := by
  induction statements generalizing number with
  | nil => rfl
  | cons s ss ih =>
    rw [creations, List.flatMap_cons, created?]
    cases StatementKind.ofText s.text with
    | createTable =>
      rw [List.filterMap_cons, ih, Creation.table?, Creation.outcome]
      dsimp only
      cases Table.ofStatement s.text <;> rfl
    | _ => exact ih (number + 1)

theorem filter_notices_creations (number : Nat) (statements : List Statement) :
    ((creations number statements).flatMap Creation.notices).filter Notice.isSkippedItem =
      statements.flatMap fun s => skippedItems s.text := by
  induction statements generalizing number with
  | nil => rfl
  | cons s ss ih =>
    rw [creations, List.flatMap_cons, skippedItems, created?]
    cases StatementKind.ofText s.text with
    | createTable =>
      rw [List.flatMap_cons, List.filter_append, ih, Creation.notices, Creation.outcome]
      dsimp only
      cases Table.ofStatement s.text with
      | error cause => rfl
      | ok r =>
        congr 1
        exact List.filter_eq_self.2 (by simp [Notice.isSkippedItem])
    | _ => exact ih (number + 1)

end Script

namespace Contents

open Script

variable {a b : List Statement}

/-- **The place of a statement among statements of other kinds makes no difference**: the tables,
the dropped tables and the skipped items of a script depend on the texts that create a table, the
texts that add to one and the texts that drop some, each in their order. -/
theorem ofStatements_interleaved
    (hcreates : (a.map Statement.text).filter creates = (b.map Statement.text).filter creates)
    (hadds : (a.map Statement.text).filter adds = (b.map Statement.text).filter adds)
    (hdrops : (a.map Statement.text).filter drops = (b.map Statement.text).filter drops) :
    (ofStatements a).tables = (ofStatements b).tables ∧
      (ofStatements a).dropped = (ofStatements b).dropped ∧
      (ofStatements a).notices.filter Notice.isSkippedItem =
        (ofStatements b).notices.filter Notice.isSkippedItem := by
  -- each of the four is a contribution of texts
  have htables : (creations 1 a).filterMap Creation.table? =
      (creations 1 b).filterMap Creation.table? := by
    rw [filterMap_table?_creations, filterMap_table?_creations]
    refine flatMap_text_congr (f := fun text => ((created? text).map Prod.fst).toList) ?_ hcreates
    intro text h
    rw [created?_eq_none h]
    rfl
  have hadditions : a.filterMap addition? = b.filterMap addition? := by
    rw [List.filterMap_eq_flatMap_toList, List.filterMap_eq_flatMap_toList]
    refine flatMap_text_congr (f := fun text => (addition? ⟨text, 0⟩).toList) ?_ hadds
    intro text h
    rw [adds] at h
    dsimp only [addition?]
    cases hkind : StatementKind.ofText text with
    | addition a =>
      rw [hkind] at h
      cases h
    | _ => rfl
  have hdropped : a.flatMap droppedBy = b.flatMap droppedBy := by
    refine flatMap_text_congr (f := fun text => droppedBy ⟨text, 0⟩) ?_ hdrops
    intro text h
    rw [drops] at h
    dsimp only [droppedBy]
    cases hkind : StatementKind.ofText text with
    | dropTables names =>
      rw [hkind] at h
      cases h
    | _ => rfl
  have hskipped : ((creations 1 a).flatMap Creation.notices).filter Notice.isSkippedItem =
      ((creations 1 b).flatMap Creation.notices).filter Notice.isSkippedItem := by
    rw [filter_notices_creations, filter_notices_creations]
    refine flatMap_text_congr (f := skippedItems) ?_ hcreates
    intro text h
    rw [skippedItems, created?_eq_none h]
  exact ⟨by rw [ofStatements, ofStatements, htables, hadditions], hdropped, hskipped⟩

/-- A table with an item that is skipped, an index and a drop. -/
def inOrder : List Statement :=
  [⟨"CREATE TABLE t(a INT,?)", 1⟩, ⟨"CREATE INDEX i ON t(a)", 2⟩,
    ⟨"DROP TABLE IF EXISTS u", 3⟩]

/-- The same statements in another order, one that breaks off and one of no interest. -/
def outOfOrder : List Statement :=
  [⟨"DROP TABLE IF EXISTS u", 1⟩, ⟨"CREATE TABLE t", 1⟩, ⟨"CREATE INDEX i ON t(a)", 2⟩,
    ⟨"SELECT 1", 3⟩, ⟨"CREATE TABLE t(a INT,?)", 9⟩]

theorem ofStatements_outOfOrder :
    (ofStatements inOrder).tables = (ofStatements outOfOrder).tables ∧
      (ofStatements inOrder).dropped = (ofStatements outOfOrder).dropped ∧
      (ofStatements inOrder).notices.filter Notice.isSkippedItem =
        (ofStatements outOfOrder).notices.filter Notice.isSkippedItem :=
  ofStatements_interleaved (by decide +kernel) (by decide +kernel) (by decide +kernel)

end Contents
end SchemaScript
