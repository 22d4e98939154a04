import SchemaScript.Definition.Column
import SchemaScript.Definition.Constraint
import SchemaScript.Failure

/-!
# Tables from definitions

A table is assembled from the column definitions and constraint clauses of one body. Of two
columns of one name the first counts, and all that the later one says is lost with it.

* The columns are the definitions that count.
* The primary key is made of the columns defined as such and then of those that the clauses
  name, each once; names of no column are dropped.
* Indexes and foreign keys come first from the columns, in their order, and then from the
  clauses, in theirs. A foreign key that names no columns of its target means those of the
  same names.
-/

namespace SchemaScript

namespace Reference

/-- The foreign key that refers from the given columns to the target. -/
def toForeignKey (target : Reference) (name : Option String) (columns : List String) :
    ForeignKey where
  name := name
  columns := columns
  referencedTable := target.table
  referencedColumns := if target.columns.isEmpty then columns else target.columns
  onUpdate := target.onUpdate
  onDelete := target.onDelete

end Reference

namespace ColumnDefinition

/-- The column of a definition, not yet part of any key. -/
def toColumn (d : ColumnDefinition) : Column where
  name := d.name
  dataType := d.dataType
  length := d.length
  scale := d.scale
  nullable := d.nullable
  default := d.default
  autoIncrement := d.autoIncrement
  values := d.values
  description := d.comment

@[simp] theorem name_toColumn (d : ColumnDefinition) : d.toColumn.name = d.name := rfl

/-- The unique index that a definition declares. -/
def index? (d : ColumnDefinition) : Option Index :=
  if d.unique then some { name := d.uniqueName, columns := [d.name], unique := true } else none

/-- The foreign key that a definition declares. -/
def foreignKey? (d : ColumnDefinition) : Option ForeignKey :=
  d.references.map fun target => target.toForeignKey d.referencesName [d.name]

/-- The name of the column, if it is defined as a primary key. -/
def keyName? (d : ColumnDefinition) : Option String :=
  if d.primaryKey then some d.name else none

/-- The definitions whose names have not been seen, of each name the first. -/
def firstOfEachName (seen : List String) : List ColumnDefinition → List ColumnDefinition
  | [] => []
  | d :: ds =>
    if seen.contains d.name then firstOfEachName seen ds
    else d :: firstOfEachName (d.name :: seen) ds

end ColumnDefinition

namespace Constraint

/-- The columns that a clause makes the primary key. -/
def keyNames : Constraint → List String
  | primaryKey columns => columns
  | _ => []

/-- The index that a clause declares. -/
def index? : Constraint → Option Index
  | unique name columns => some { name, columns, unique := true }
  | index name columns => some { name, columns, unique := false }
  | _ => none

/-- The foreign key that a clause declares. -/
def foreignKey? : Constraint → Option ForeignKey
  | foreignKey name columns target => some (target.toForeignKey name columns)
  | _ => none

end Constraint

namespace Table

/-- Makes each of the named columns part of the primary key. -/
def markAll (t : Table) (names : List String) : Table :=
  names.foldl (fun t name => (t.markPrimary name).1) t

/-- The table that columns and constraints make up. It needs at least one column. -/
def assemble (name : String) (columns : List ColumnDefinition)
    (constraints : List Constraint) : Except Malformation Table :=
  if columns.isEmpty then .error (.noColumns name)
  else
    let kept := ColumnDefinition.firstOfEachName [] columns
    let unkeyed : Table :=
      { name
        columns := kept.map ColumnDefinition.toColumn
        foreignKeys := kept.filterMap ColumnDefinition.foreignKey? ++
          constraints.filterMap Constraint.foreignKey?
        indexes := kept.filterMap ColumnDefinition.index? ++
          constraints.filterMap Constraint.index? }
    .ok (unkeyed.markAll
      (kept.filterMap ColumnDefinition.keyName? ++ constraints.flatMap Constraint.keyNames))

end Table
end SchemaScript
