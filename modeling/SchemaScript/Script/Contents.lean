import SchemaScript.Script.Kind
import SchemaScript.Script.Split
import SchemaScript.Script.Tidy

/-!
# The contents of a script

A script is tidied and cut into statements, and its statements give the tables they create,
with all that other statements add to them, and the names of the tables they drop.

Each statement stands for itself. One that should create a table and does not is reported
with its number and line, and an item of a body that could not be read is reported with its
table. Additions come after all tables have been read, in the order of the script; they may
therefore stand in front of the table they mean. The table is the one of exactly that name,
or else the first whose name differs in the case of ASCII letters only. An addition to no
table, and the description of no column, are dropped.
-/

namespace SchemaScript

/-- What a script holds. -/
structure Contents where
  /-- The tables, in the order of their statements. -/
  tables : List Table
  /-- The names of dropped tables, in the order in which they appear. -/
  dropped : List String
  notices : List Notice

namespace Column

/-- The columns with the description of the first one of the given name set. -/
def describeFirst (name text : String) : List Column → List Column
  | [] => []
  | c :: cs =>
    if c.name = name then { c with description := some text } :: cs
    else c :: describeFirst name text cs

end Column

namespace Addition

/-- The table with the addition. -/
def apply (a : Addition) (t : Table) : Table :=
  match a with
  | index _ i => { t with indexes := t.indexes ++ [i] }
  | description _ column text =>
    { t with columns := Column.describeFirst column text t.columns }

/-- The position of the table that a name means. -/
def position? (name : String) (tables : List Table) : Option Nat :=
  match tables.findIdx? fun t => t.name == name with
  | some i => some i
  | none => tables.findIdx? fun t => Text.sameIgnoringCase t.name name

/-- The tables with the addition made to the one it means. -/
def attach (tables : List Table) (a : Addition) : List Table :=
  match position? a.table tables with
  | some i => tables.modify i a.apply
  | none => tables

end Addition

namespace Script

/-- A statement that should create a table, with its number in the script. -/
structure Creation where
  number : Nat
  statement : Statement

namespace Creation

/-- What the statement creates, with the items that were skipped. -/
def outcome (c : Creation) : Except Malformation (Table × List String) :=
  Table.ofStatement c.statement.text

/-- The table that the statement creates. -/
def table? (c : Creation) : Option Table :=
  match c.outcome with
  | .ok (t, _) => some t
  | .error _ => none

/-- What is to be reported of the statement. -/
def notices (c : Creation) : List Notice :=
  match c.outcome with
  | .ok (t, skipped) => skipped.map (.skippedItem t.name)
  | .error cause => [.skippedStatement c.number c.statement.line cause]

end Creation

/-- The statements that should create tables, numbered from the given number on. -/
def creations (number : Nat) : List Statement → List Creation
  | [] => []
  | s :: ss =>
    match StatementKind.ofText s.text with
    | .createTable => ⟨number, s⟩ :: creations (number + 1) ss
    | _ => creations (number + 1) ss

/-- What a statement adds to a table. -/
def addition? (s : Statement) : Option Addition :=
  match StatementKind.ofText s.text with
  | .addition a => some a
  | _ => none

/-- The names of the tables that a statement drops. -/
def droppedBy (s : Statement) : List String :=
  match StatementKind.ofText s.text with
  | .dropTables names => names
  | _ => []

end Script

namespace Contents

open Script

/-- The contents of a script given by its statements. -/
def ofStatements (statements : List Statement) : Contents where
  tables :=
    (statements.filterMap addition?).foldl Addition.attach
      ((creations 1 statements).filterMap Creation.table?)
  dropped := statements.flatMap droppedBy
  notices := (creations 1 statements).flatMap Creation.notices

/-- The contents of a script. -/
def ofScript (script : String) : Contents :=
  ofStatements (statements (tidy script))

end Contents
end SchemaScript
