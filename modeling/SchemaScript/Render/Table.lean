import SchemaScript.Render.Column
import SchemaScript.Render.ForeignKey
import SchemaScript.Render.Index

/-!
# Rendering tables

A table is written as one statement with the columns, the key if it has several columns, and
the foreign keys in its body. Indexes stand in the body, too, where the dialect has them
there, and follow as statements of their own otherwise; in PostgreSQL the descriptions of the
columns follow as well.

What is left out is reported in the order in which the parts are written: key columns that do
not exist, columns, foreign keys, indexes.
-/

namespace SchemaScript
namespace Table

/-- The effective key as far as its columns exist. -/
def renderedKey (t : Table) : List String :=
  t.effectiveKey.filter t.hasColumn

/-- The columns as items of the body. -/
def columnItems (d : Dialect) (t : Table) : List String :=
  let key := t.renderedKey
  t.columns.map fun c => c.rendered d (.inKey key c.name)

/-- A key of several columns as an item of the body. -/
def keyItems (d : Dialect) (t : Table) : List String :=
  if 1 < t.renderedKey.length then ["PRIMARY KEY(" ++ d.quoteColumns t.renderedKey ++ ")"]
  else []

/-- The foreign keys that are written. -/
def emittedForeignKeys (options : RenderOptions) (t : Table) : List ForeignKey :=
  if options.foreignKeys then t.foreignKeys.filter ForeignKey.isComplete else []

/-- The foreign keys as items of the body. -/
def foreignKeyItems (options : RenderOptions) (t : Table) : List String :=
  (t.emittedForeignKeys options).map (ForeignKey.rendered options t.name)

/-- The indexes that are written. -/
def emittedIndexes (options : RenderOptions) (t : Table) : List Index :=
  if options.indexes then
    Index.emitted t.name t.renderedKey t.indexes (t.emittedForeignKeys options)
  else []

/-- The indexes as items of the body, where the dialect has them there. -/
def indexItems (options : RenderOptions) (t : Table) : List String :=
  if options.dialect.hasInlineIndexes then
    (t.emittedIndexes options).map (Index.renderedInline options.dialect)
  else []

/-- The items of the body. -/
def bodyItems (options : RenderOptions) (t : Table) : List String :=
  t.columnItems options.dialect ++ t.keyItems options.dialect ++
    t.foreignKeyItems options ++ t.indexItems options

/-- What stands in front of the body. -/
def headerText (d : Dialect) (t : Table) : String :=
  if d = .sqlserver then
    "IF OBJECT_ID(N" ++ Text.enclose '\'' t.name ++ ", N'U') IS NULL\nCREATE TABLE " ++
      d.quoteTable t.name
  else "CREATE TABLE IF NOT EXISTS " ++ d.quoteTable t.name

/-- The statement that creates the table. -/
def createStatement (options : RenderOptions) (t : Table) : String :=
  t.headerText options.dialect ++ "\n(\n" ++
    ",\n".intercalate ((t.bodyItems options).map ("\t" ++ ·)) ++ "\n);"

/-- The indexes as statements of their own, where the dialect has them so. -/
def indexStatements (options : RenderOptions) (t : Table) : List String :=
  if options.dialect.hasInlineIndexes then []
  else (t.emittedIndexes options).map (Index.renderedStatement options.dialect t.name)

/-- The statement that describes a column. -/
def descriptionStatement (d : Dialect) (t : Table) (c : Column) (text : String) : String :=
  "COMMENT ON COLUMN " ++ d.quoteTable t.name ++ "." ++ d.quoteColumn c.name ++ " IS " ++
    d.stringLiteral text ++ ";"

/-- The statements that describe the columns. Only PostgreSQL has them. -/
def descriptionStatements (d : Dialect) (t : Table) : List String :=
  if d = .postgresql then
    t.columns.filterMap fun c => c.visibleDescription?.map (t.descriptionStatement d c)
  else []

/-- The statements of a table, in order. -/
def renderedStatements (options : RenderOptions) (t : Table) : List String :=
  t.createStatement options :: t.indexStatements options ++
    t.descriptionStatements options.dialect

/-- The text of a table. -/
def renderedText (options : RenderOptions) (t : Table) : String :=
  "\n".intercalate (t.renderedStatements options)

/-- What is to be reported of the key: names of no column. -/
def keyNotices (t : Table) : List Notice :=
  (t.effectiveKey.filter fun k => !t.hasColumn k).map (.unknownKeyColumn t.name)

/-- What is to be reported of a table. -/
def notices (options : RenderOptions) (t : Table) : List Notice :=
  t.keyNotices ++ t.columns.flatMap (Column.notices options.dialect t.name) ++
    (if options.foreignKeys then t.foreignKeys.flatMap (ForeignKey.notices t.name) else []) ++
    if options.indexes then Index.notices t.name t.renderedKey t.indexes else []

/-- A table as text, with what was left out of it. -/
def rendered (options : RenderOptions) (t : Table) : Rendered where
  sql := t.renderedText options
  notices := t.notices options

theorem headerText_of_isMySqlFamily {d : Dialect} (hd : d.isMySqlFamily = true) (t : Table) :
    t.headerText d = "CREATE TABLE IF NOT EXISTS " ++ Text.enclose '\x60' t.name := by
  have hsqlserver : d ≠ .sqlserver := by
    rintro rfl
    cases hd
  rw [headerText, if_neg hsqlserver, Dialect.quoteTable_of_isMySqlFamily hd]

/-- In the family of MySQL a table is one statement. -/
theorem renderedText_of_isMySqlFamily {options : RenderOptions}
    (hd : options.dialect.isMySqlFamily = true) (t : Table) :
    t.renderedText options = t.createStatement options := by
  have hinline : options.dialect.hasInlineIndexes = true := hd
  have hpostgresql : options.dialect ≠ .postgresql := by
    intro hx
    rw [hx] at hd
    cases hd
  rw [renderedText, renderedStatements, indexStatements, if_pos hinline, descriptionStatements,
    if_neg hpostgresql]
  exact String.intercalate_singleton

end Table
end SchemaScript
