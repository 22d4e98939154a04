import SchemaScript.Render.Literal
import SchemaScript.Render.Type

/-!
# Rendering columns

A column is written as its name and type, then the words for the key, for null, for counting
up, for the default and, in MySQL and MariaDB, for the description. A column of the key is
never null and has no default.

A default is written as a literal that fits the type of its column: truth values and numbers
are read from the text, other literals are kept, and a string with a backslash is written
anew, because backslashes mean different things in different dialects.
-/

namespace SchemaScript
namespace Column

/-- A default of null, which only a column that can be null has. -/
def nullDefault? (c : Column) : Option String :=
  if c.nullable then some "NULL" else none

/-- The literal for a default whose text, without casts, is neither empty nor null. -/
def defaultLiteral (d : Dialect) (c : Column) (raw : String) : String :=
  let literal := Literal.unquote? raw
  let text := literal.getD raw
  if c.isBoolean then d.booleanLiteral (Literal.isTruthy text)
  else if c.isInteger then toString (Literal.integerOf text)
  else if c.isFractional then Literal.floatText text
  else if literal.isSome && text.toList.contains '\\' then d.stringLiteral text
  else raw

/-- The literal for the default of a column, if it has one that can be written. -/
def defaultValue? (d : Dialect) (c : Column) : Option String :=
  match c.default with
  | none => none
  | some .null => c.nullDefault?
  | some (.literal text) =>
    let raw := Literal.stripCasts text
    if raw.isEmpty then none
    else if Literal.isNullWord raw then c.nullDefault?
    else if d = .sqlite ∧ Literal.callsNow raw then none
    else some (c.defaultLiteral d raw)

/-- The role that a column has in the primary key of its table. -/
inductive KeyRole where
  | none
  /-- One of several columns of the key. -/
  | part
  /-- The only column of the key. -/
  | whole
  deriving DecidableEq, Repr

/-- The role of the column of the given name in a key. -/
def KeyRole.inKey (key : List String) (name : String) : KeyRole :=
  if key = [name] then .whole
  else if key.contains name then .part
  else .none

/-- The default clause of a column. -/
def defaultClause? (d : Dialect) (role : KeyRole) (c : Column) : Option String :=
  if role = .none then (c.defaultValue? d).map ("DEFAULT " ++ ·) else none

/-- The words that say whether a column can be null. A default says it, too. -/
def nullWords (d : Dialect) (role : KeyRole) (c : Column) : List String :=
  if !c.nullable || role != .none then ["NOT NULL"]
  else if (c.defaultClause? d role).isNone then ["NULL"]
  else []

/-- The words that make a column count up, for whole numbers only. -/
def countingWords? (d : Dialect) (c : Column) : Option String :=
  if c.isInteger then d.autoIncrementWords? else none

/-- The clauses of a column in their order. -/
def clauses (d : Dialect) (role : KeyRole) (c : Column) : List String :=
  [d.quoteColumn c.name, c.renderedType d] ++
    (if role = .whole then ["PRIMARY KEY"] else []) ++
    c.nullWords d role ++
    (if c.autoIncrement then (c.countingWords? d).toList else []) ++
    (c.defaultClause? d role).toList ++
    (if d.isMySqlFamily then
      (c.visibleDescription?.map fun text => "COMMENT " ++ d.stringLiteral text).toList
    else [])

/-- A column as an item of a table body. -/
def rendered (d : Dialect) (role : KeyRole) (c : Column) : String :=
  " ".intercalate (c.clauses d role)

/-- What is to be reported of a column. -/
def notices (d : Dialect) (table : String) (c : Column) : List Notice :=
  c.typeNotices d table ++
    if c.autoIncrement && (c.countingWords? d).isNone then
      [.omittedAutoIncrement table c.name d.name]
    else []

end Column
end SchemaScript
