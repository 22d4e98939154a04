import SchemaScript.Json.Printer
import SchemaScript.Render.Literal
import SchemaScript.Render.Options
import SchemaScript.Schema.Basic

/-!
# Rendering rows

The rows of a table are written as inserts of a limited number of rows each. A row has one
cell for each column of the table, found by the name of the column.

A cell without a value, with null, with a blank text, or with the word null where the column
holds no text, becomes null if the column can be null. If it cannot, the default of the
column stands in, and the zero of its type where there is no default to use. Any other cell
becomes a literal of the type of its column.
-/

namespace SchemaScript
namespace Column

/-- Whether a value stands for null in the column. -/
def isNullLike (c : Column) : Json → Bool
  | .null => true
  | .string s =>
    let text := Text.trimmed s
    text.isEmpty || (!c.isText && Literal.isNullWord text)
  | _ => false

/-- The truth value of a cell. -/
def isTruthyCell : Json → Bool
  | .bool b => b
  | .number n => !n.isZero
  | .string s => Literal.isTruthy s
  | _ => false

/-- A cell as a number, if it can be one. -/
def numberCell? : Json → Option String
  | .number n => some (String.ofList n.print)
  | .bool b => some (if b then "1" else "0")
  | .string s => if Literal.isNumeric s then some (Text.trimmed s) else none
  | _ => none

/-- A cell as text. -/
def textCell (d : Dialect) : Json → String
  | .string s => d.stringLiteral s
  | j => d.stringLiteral j.compactText

/-- A cell that does not stand for null as a literal. -/
def presentCell (d : Dialect) (c : Column) (value : Json) : String :=
  if c.isBoolean then d.booleanLiteral (isTruthyCell value)
  else if c.isInteger || c.isFractional then (numberCell? value).getD (textCell d value)
  else textCell d value

/-- The zero of the type of the column. -/
def zeroCell (d : Dialect) (c : Column) : String :=
  if c.isBoolean then d.booleanLiteral false
  else if c.isInteger || c.isFractional then "0"
  else "''"

/-- The default that stands in for a missing value, if it can be used: a string that does not
stand for null, or a number, a truth value or an expression without quotes. -/
def standIn? (d : Dialect) (c : Column) : Option String :=
  match c.default with
  | some (.literal text) =>
    let raw := Literal.stripCasts text
    match Literal.unquote? raw with
    | some s => if c.isNullLike (.string s) then none else some (c.presentCell d (.string s))
    | none =>
      if raw.isEmpty || Literal.isNullWord raw || (d == .sqlite && Literal.callsNow raw) then none
      else if c.isBoolean || c.isInteger || c.isFractional then
        some (c.presentCell d (.string raw))
      else some raw
  | _ => none

/-- The cell for a missing value of a column that cannot be null. -/
def missingCell (d : Dialect) (c : Column) : String :=
  (c.standIn? d).getD (c.zeroCell d)

/-- The cell of a column that holds a value or none. -/
def cell (d : Dialect) (isKey : Bool) (c : Column) (value : Option Json) : String :=
  match value.filter fun v => !c.isNullLike v with
  | some v => c.presentCell d v
  | none => if c.nullable && !isKey then "null" else c.missingCell d

end Column

namespace Table

/-- The cells of a row in the order of the columns. -/
def cells (d : Dialect) (t : Table) (row : Row) : List String :=
  let key := t.effectiveKey
  t.columns.map fun c => c.cell d (key.contains c.name) (row.cell? c.name)

/-- A row in parentheses. -/
def renderedRow (d : Dialect) (t : Table) (row : Row) : String :=
  "(" ++ ", ".intercalate (t.cells d row) ++ ")"

/-- What every insert into the table begins with. -/
def insertHeader (d : Dialect) (t : Table) : String :=
  "INSERT INTO " ++ d.quoteTable t.name ++
    " (" ++ d.quoteColumns (t.columns.map Column.name) ++ ") VALUES"

/-- The insert of some rows. -/
def insertStatement (d : Dialect) (t : Table) (rows : List Row) : String :=
  t.insertHeader d ++ "\n" ++ ",\n".intercalate (rows.map (t.renderedRow d)) ++ ";"

/-- A list in pieces of `size + 1` members, the last of which may be shorter. -/
def batches {α : Type} (size : Nat) (rows : List α) : List (List α) :=
  match rows with
  | [] => []
  | r :: rs => (r :: rs.take size) :: batches size (rs.drop size)
termination_by rows.length
decreasing_by
  simp only [List.length_drop, List.length_cons]
  omega

/-- The inserts of the rows of a table. A table without columns has none. -/
def insertStatements (options : RenderOptions) (t : Table) : List String :=
  if t.columns.isEmpty then []
  else
    (batches (options.batchSize - 1) t.rows).map (t.insertStatement options.dialect)

end Table
end SchemaScript
