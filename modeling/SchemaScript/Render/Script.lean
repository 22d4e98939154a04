import SchemaScript.Render.Insert
import SchemaScript.Render.Table
import SchemaScript.Schema.Exchange
import SchemaScript.Script.Contents

/-!
# Rendering scripts

A script of several tables has an empty line between them, and between a table and each of
its inserts. Converting a script reads it and renders its tables. The tables it drops appear
in the result as comments in front, so that running the result drops nothing.
-/

namespace SchemaScript

namespace Table

/-- A table followed by its inserts. -/
def renderedBlock (options : RenderOptions) (withRows : Bool) (t : Table) : String :=
  "\n\n".intercalate
    (t.renderedText options :: if withRows then t.insertStatements options else [])

/-- The script of several tables, with what was left out of it. -/
def renderAll (options : RenderOptions) (withRows : Bool) (tables : List Table) : Rendered where
  sql := "\n\n".intercalate (tables.map (renderedBlock options withRows))
  notices := tables.flatMap (notices options)

end Table

/-- The result of converting a script. -/
structure Conversion where
  sql : String
  tables : List Table
  notices : List Notice

namespace Conversion

/-- The comments for dropped tables. -/
def dropComments (d : Dialect) (names : List String) : List String :=
  names.map fun n => "-- DROP TABLE IF EXISTS " ++ d.quoteTable n ++ ";"

/-- The comments for dropped tables as one block, if there are any. -/
def dropBlock (d : Dialect) (names : List String) : List String :=
  if names.isEmpty then [] else ["\n".intercalate (dropComments d names)]

/-- The rendered tables as one block, if there is any text. -/
def tableBlock (sql : String) : List String :=
  if sql.isEmpty then [] else [sql]

/-- Converts the contents of a script. The notices `first` come in front of all others. -/
def ofContents (options : RenderOptions) (first : List Notice) (contents : Contents) :
    Conversion :=
  let rendered := Table.renderAll options false contents.tables
  { sql := "\n\n".intercalate
      (dropBlock options.dialect contents.dropped ++ tableBlock rendered.sql)
    tables := contents.tables
    notices := first ++ contents.notices ++ rendered.notices }

/-- Converts a script to the dialect of the given name. -/
def ofScript (target : String) (options : RenderOptions) (script : String) : Conversion :=
  let resolved := Dialect.resolve target
  ofContents { options with dialect := resolved.1 } resolved.2 (Contents.ofScript script)

end Conversion
end SchemaScript
