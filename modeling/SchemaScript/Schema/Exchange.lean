import SchemaScript.Failure
import SchemaScript.Json.Printer
import SchemaScript.Json.Reader

/-!
# Table models as structured data

How tables are written as structured data and read from it. A field is written only if it
says something: an absent length, an empty key or a missing default has no field. A default
of null is written as null, which keeps it apart from no default.

A record is read from an object, whose unknown fields are ignored and whose known fields may
stand once, or from an array with the fields in their order, the last ones missing at will.
-/

namespace SchemaScript

/-! ## Reading -/

namespace Record

/-- How often a field of the given name occurs. -/
def count (fields : List (String × Json)) (name : String) : Nat :=
  fields.countP fun f => f.1 == name

/-- The values of the named fields of a record, as far as they are given. -/
def values? (names : List String) : Json → Option (List (Option Json))
  | .object fields =>
    if names.all fun n => count fields n ≤ 1 then
      some (names.map fun n => fields.lookup n)
    else none
  | .array items =>
    if items.length ≤ names.length then
      some (items.map some ++ List.replicate (names.length - items.length) none)
    else none
  | _ => none

/-- A text. -/
def text? : Json → Option String
  | .string s => some s
  | _ => none

/-- A text that must be given. -/
def requiredText? (j : Option Json) : Option String :=
  j.bind text?

/-- A text that is empty if it is not given. -/
def textOrEmpty? : Option Json → Option String
  | none => some ""
  | some j => text? j

/-- A text that may be absent or null. -/
def optionalText? : Option Json → Option (Option String)
  | none | some .null => some none
  | some j => (text? j).map some

/-- A number of 32 bits that may be absent or null. -/
def optionalSize? : Option Json → Option (Option UInt32)
  | none | some .null => some none
  | some (.number (.integer n)) =>
    if 0 ≤ n then (Number.toWord32? n.toNat).map some else none
  | some _ => none

/-- A flag with the value it has if it is not given. -/
def flag? (otherwise : Bool) : Option Json → Option Bool
  | none => some otherwise
  | some (.bool b) => some b
  | some _ => none

/-- A list that is empty if it is not given. -/
def list? {α : Type} (item : Json → Option α) : Option Json → Option (List α)
  | none => some []
  | some (.array items) => items.mapM item
  | some _ => none

end Record

namespace DefaultValue

/-- A default: null, a text, or the text of any other value. -/
def ofJson? : Option Json → Option (Option DefaultValue)
  | none => some none
  | some .null => some (some .null)
  | some (.string s) => some (some (.literal s))
  | some j => j.canonical?.map fun c => some (.literal c.compactText)

/-- A default as structured data. -/
def toJson : DefaultValue → Json
  | null => .null
  | literal text => .string text

end DefaultValue

namespace Column

/-- The fields of a column. -/
def fieldNames : List String :=
  ["name", "type", "length", "scale", "nullable", "default", "primaryKey", "autoIncrement",
    "values", "description"]

/-- The column that a record describes. -/
def ofJson? (j : Json) : Option Column := do
  let [name, dataType, length, scale, nullable, default, primaryKey, autoIncrement, values,
    description] ← Record.values? fieldNames j | none
  return {
    name := ← Record.requiredText? name
    dataType := ← Record.requiredText? dataType
    length := ← Record.optionalSize? length
    scale := ← Record.optionalSize? scale
    nullable := ← Record.flag? true nullable
    default := ← DefaultValue.ofJson? default
    primaryKey := ← Record.flag? false primaryKey
    autoIncrement := ← Record.flag? false autoIncrement
    values := ← Record.list? Record.text? values
    description := ← Record.optionalText? description }

end Column

namespace ForeignKey

/-- The fields of a foreign key. -/
def fieldNames : List String :=
  ["name", "columnName", "referencedTable", "referencedColumn", "onUpdate", "onDelete"]

/-- The foreign key that a record describes. -/
def ofJson? (j : Json) : Option ForeignKey := do
  let [name, columns, referencedTable, referencedColumns, onUpdate, onDelete] ←
    Record.values? fieldNames j | none
  return {
    name := ← Record.optionalText? name
    columns := ← Record.list? Record.text? columns
    referencedTable := ← Record.textOrEmpty? referencedTable
    referencedColumns := ← Record.list? Record.text? referencedColumns
    onUpdate := ← Record.optionalText? onUpdate
    onDelete := ← Record.optionalText? onDelete }

end ForeignKey

namespace Index

/-- The fields of an index. -/
def fieldNames : List String :=
  ["name", "columns", "unique"]

/-- The index that a record describes. -/
def ofJson? (j : Json) : Option Index := do
  let [name, columns, unique] ← Record.values? fieldNames j | none
  return {
    name := ← Record.optionalText? name
    columns := ← Record.list? Record.text? columns
    unique := ← Record.flag? false unique }

end Index

namespace Row

/-- The row that an object describes: its fields by name, of a repeated field the last. -/
def ofJson? (j : Json) : Option Row :=
  match h : j.canonical? with
  | some (.object fields) => some ⟨fields, Json.isCanonical_of_canonical? h⟩
  | _ => none

end Row

namespace Table

/-- The fields of a table. -/
def fieldNames : List String :=
  ["name", "columns", "primaryKey", "foreignKeys", "indexes", "data"]

/-- The table that a record describes. -/
def ofJson? (j : Json) : Option Table := do
  let [name, columns, primaryKey, foreignKeys, indexes, rows] ←
    Record.values? fieldNames j | none
  return {
    name := ← Record.requiredText? name
    columns := ← Record.list? Column.ofJson? columns
    primaryKey := ← Record.list? Record.text? primaryKey
    foreignKeys := ← Record.list? ForeignKey.ofJson? foreignKeys
    indexes := ← Record.list? Index.ofJson? indexes
    rows := ← Record.list? Row.ofJson? rows }

/-- The tables that an array of records describes. -/
def listOfJson? : Json → Option (List Table)
  | .array items => items.mapM ofJson?
  | _ => none

/-- The first fault of the first table that has one. -/
def firstFault? (tables : List Table) : Option TableFault :=
  tables.findSome? fault?

/-- The tables of a model given as structured data, none of which may have a fault. -/
def checkedList (j : Json) : Except Failure (List Table) :=
  match listOfJson? j with
  | none => .error .invalidModelText
  | some tables =>
    match firstFault? tables with
    | some fault => .error (.invalidTable fault)
    | none => .ok tables

/-- The tables of a model given as text. -/
def listOfText (text : String) : Except Failure (List Table) :=
  match Json.ofText? text with
  | none => .error .invalidModelText
  | some j => checkedList j

end Table

/-! ## Writing -/

namespace Record

/-- A field that is written if its value is given. -/
def optionalField {α : Type} (name : String) (value : Option α) (write : α → Json) :
    List (String × Json) :=
  match value with
  | some v => [(name, write v)]
  | none => []

/-- A field that is written unless its list is empty. -/
def listField {α : Type} (name : String) (items : List α) (write : α → Json) :
    List (String × Json) :=
  if items.isEmpty then [] else [(name, .array (items.map write))]

/-- A number of 32 bits as structured data. -/
def size (n : UInt32) : Json :=
  .number (.integer n.toNat)

/-- A list of texts as structured data. -/
def texts (items : List String) : Json :=
  .array (items.map .string)

end Record

namespace Column

/-- A column as structured data. -/
def toJson (c : Column) : Json :=
  .object
    ([("name", .string c.name), ("type", .string c.dataType)] ++
      Record.optionalField "length" c.length Record.size ++
      Record.optionalField "scale" c.scale Record.size ++
      [("nullable", .bool c.nullable)] ++
      Record.optionalField "default" c.default DefaultValue.toJson ++
      [("primaryKey", .bool c.primaryKey), ("autoIncrement", .bool c.autoIncrement)] ++
      Record.listField "values" c.values .string ++
      Record.optionalField "description" c.description .string)

end Column

namespace ForeignKey

/-- A foreign key as structured data. -/
def toJson (k : ForeignKey) : Json :=
  .object
    (Record.optionalField "name" k.name .string ++
      [("columnName", Record.texts k.columns), ("referencedTable", .string k.referencedTable),
        ("referencedColumn", Record.texts k.referencedColumns)] ++
      Record.optionalField "onUpdate" k.onUpdate .string ++
      Record.optionalField "onDelete" k.onDelete .string)

end ForeignKey

namespace Index

/-- An index as structured data. -/
def toJson (i : Index) : Json :=
  .object
    (Record.optionalField "name" i.name .string ++
      [("columns", Record.texts i.columns), ("unique", .bool i.unique)])

end Index

namespace Table

/-- A table as structured data. -/
def toJson (t : Table) : Json :=
  .object
    ([("name", .string t.name), ("columns", .array (t.columns.map Column.toJson))] ++
      Record.listField "primaryKey" t.primaryKey .string ++
      Record.listField "foreignKeys" t.foreignKeys ForeignKey.toJson ++
      Record.listField "indexes" t.indexes Index.toJson ++
      Record.listField "data" t.rows Row.toJson)

/-- Tables as structured data. -/
def listToJson (tables : List Table) : Json :=
  .array (tables.map toJson)

end Table
end SchemaScript
