import SchemaScript.DataType
import SchemaScript.Json.Canonical

/-!
# Tables

The model of a table that all dialects share: columns, keys, indexes and rows. Readers of
scripts produce it, structured data carries it, and the renderers take it apart.

The primary key has two homes, a declared list of names and a flag on each column. The
*effective* key joins them: the declared names first, each once, then the names of the other
flagged columns in column order.
-/

namespace SchemaScript

/-- The default a column declares. No clause at all is the absence of this value. -/
inductive DefaultValue where
  | null
  /-- The text of a literal or expression. -/
  | literal (text : String)
  deriving DecidableEq, Repr

/-- A column of a table. -/
structure Column where
  name : String
  /-- The canonical name of the type, in upper case. -/
  dataType : String
  length : Option UInt32 := none
  scale : Option UInt32 := none
  nullable : Bool := true
  default : Option DefaultValue := none
  primaryKey : Bool := false
  autoIncrement : Bool := false
  /-- The literals of a value set. -/
  values : List String := []
  description : Option String := none
  deriving DecidableEq, Repr

/-- A foreign key of a table. -/
structure ForeignKey where
  name : Option String := none
  columns : List String := []
  referencedTable : String := ""
  referencedColumns : List String := []
  onUpdate : Option String := none
  onDelete : Option String := none
  deriving DecidableEq, Repr

/-- An index over columns of a table. -/
structure Index where
  name : Option String := none
  columns : List String := []
  unique : Bool := false
  deriving DecidableEq, Repr

/-- A row of a table: cells by the names of their columns. The names ascend, so a name has
one cell. -/
structure Row where
  cells : List (String × Json)
  canonical : (Json.object cells).IsCanonical
  deriving Repr

namespace Row

/-- The cell of a column, if the row has one. -/
def cell? (r : Row) (column : String) : Option Json :=
  r.cells.lookup column

/-- The row as structured data. -/
def toJson (r : Row) : Json :=
  .object r.cells

end Row

/-- A table. -/
structure Table where
  name : String
  columns : List Column := []
  /-- The declared primary key, in the order of the declaration. -/
  primaryKey : List String := []
  foreignKeys : List ForeignKey := []
  indexes : List Index := []
  rows : List Row := []
  deriving Repr

/-- What is wrong with a table that was not read from a script. -/
inductive TableFault where
  | blankName
  | noColumns (table : String)
  | repeatedColumn (table column : String)
  | unknownKeyColumn (table column : String)
  deriving DecidableEq, Repr

namespace TableFault

/-- The wording of a fault. -/
def message : TableFault → String
  | blankName => "table name is empty"
  | noColumns table => s!"table {table} has no columns"
  | repeatedColumn table column => s!"table {table} declares column {column} twice"
  | unknownKeyColumn table column => s!"primary key of {table} names unknown column {column}"

end TableFault

namespace Column

/-- Whether the column admits only the literals of a list. -/
def isValueSet (c : Column) : Bool :=
  DataType.isValueSet c.dataType && !c.values.isEmpty

/-- Whether the column holds character data. -/
def isText (c : Column) : Bool :=
  DataType.isText c.dataType

/-- Whether the column holds whole numbers. -/
def isInteger (c : Column) : Bool :=
  DataType.isInteger c.dataType

/-- Whether the column holds numbers with a fraction. -/
def isFractional (c : Column) : Bool :=
  DataType.isFractional c.dataType

/-- Whether the column holds truth values. -/
def isBoolean (c : Column) : Bool :=
  DataType.isBoolean c.dataType c.length

/-- The number of characters of the longest literal. -/
def maxValueLength (c : Column) : UInt32 :=
  c.values.foldl (fun n v => max n v.length.toUInt32) 0

/-- The type and length of a column when value sets become text: room for the longest
literal and two characters more. -/
def effectiveType (c : Column) : String × Option UInt32 :=
  if c.isValueSet then ("VARCHAR", some (c.maxValueLength + 2)) else (c.dataType, c.length)

/-- The description, unless it is empty. -/
def visibleDescription? (c : Column) : Option String :=
  c.description.filter fun d => !d.isEmpty

end Column

/-- A name that is given, and not blank, or else another one. -/
def givenName (name : Option String) (otherwise : String) : String :=
  match name with
  | some n => if Text.isBlankString n then otherwise else n
  | none => otherwise

namespace ForeignKey

/-- The name of the constraint, derived from the table and the first column if none is
given. -/
def nameFor (k : ForeignKey) (table : String) : String :=
  givenName k.name ("fk_" ++ table ++ "_" ++ k.columns.headD "")

end ForeignKey

namespace Index

/-- The name of the index, derived from the table and the columns if none is given. -/
def nameFor (i : Index) (table : String) : String :=
  givenName i.name ("idx_" ++ table ++ "_" ++ "_".intercalate i.columns)

/-- What identifies a list of columns regardless of their order: their names in order,
joined by commas. -/
def signature (columns : List String) : String :=
  ",".intercalate (columns.mergeSort fun a b => decide (a ≤ b))

end Index

/-- Appends a name unless it is in the list already. -/
def insertNew (names : List String) (name : String) : List String :=
  if names.contains name then names else names ++ [name]

namespace Table

/-- The first column of the given name. -/
def column? (t : Table) (name : String) : Option Column :=
  t.columns.find? fun c => c.name == name

/-- Whether a column of the given name exists. -/
def hasColumn (t : Table) (name : String) : Bool :=
  t.columns.any fun c => c.name == name

/-- The columns with the key flag of the first one of the given name set. -/
def flagFirst (name : String) : List Column → List Column
  | [] => []
  | c :: cs =>
    if c.name = name then { c with primaryKey := true } :: cs else c :: flagFirst name cs

/-- Makes a column part of the primary key. Answers whether the table has such a column;
without one nothing changes. -/
def markPrimary (t : Table) (name : String) : Table × Bool :=
  if t.hasColumn name then
    ({ t with
        columns := flagFirst name t.columns
        primaryKey := insertNew t.primaryKey name }, true)
  else (t, false)

/-- The names of the columns whose key flag is set. -/
def flaggedNames (t : Table) : List String :=
  (t.columns.filter Column.primaryKey).map Column.name

/-- The primary key: the declared names, then those of other flagged columns. -/
def effectiveKey (t : Table) : List String :=
  (t.primaryKey ++ t.flaggedNames).foldl insertNew []

/-- The first name that a list repeats. -/
def firstRepeated (seen : List String) : List String → Option String
  | [] => none
  | n :: ns => if seen.contains n then some n else firstRepeated (n :: seen) ns

/-- The first fault of a table, if it has one: a blank name, no columns, two columns of one
name, or a declared key that names no column. -/
def fault? (t : Table) : Option TableFault :=
  if Text.isBlankString t.name then some .blankName
  else if t.columns.isEmpty then some (.noColumns t.name)
  else
    match firstRepeated [] (t.columns.map Column.name) with
    | some c => some (.repeatedColumn t.name c)
    | none =>
      (t.primaryKey.find? fun k => !t.hasColumn k).map fun k => .unknownKeyColumn t.name k

@[simp] theorem fst_markPrimary_of_hasColumn {t : Table} {name : String}
    (h : t.hasColumn name = true) :
    (t.markPrimary name).1 =
      { t with
        columns := flagFirst name t.columns
        primaryKey := insertNew t.primaryKey name } := by
  simp [markPrimary, h]

@[simp] theorem snd_markPrimary (t : Table) (name : String) :
    (t.markPrimary name).2 = t.hasColumn name := by
  unfold markPrimary
  split
  · rename_i h; exact h.symm
  · rename_i h; simpa using h

/-- Flagging keeps the names of the columns. -/
@[simp] theorem map_name_flagFirst (name : String) (cs : List Column) :
    (flagFirst name cs).map Column.name = cs.map Column.name := by
  induction cs with
  | nil => rfl
  | cons c cs ih =>
    simp only [flagFirst]
    split <;> simp [ih]

end Table
end SchemaScript
