import SchemaScript.Schema.Basic

/-!
# What can go wrong

A *malformation* says why a statement is no table. A *failure* ends an operation; it is a
malformation, a fault of a table model, or something that could not be read. A *notice* does
not end anything: it tells what was left out of the result. Each has one wording.
-/

namespace SchemaScript

/-- Why a statement is no `CREATE TABLE` statement with columns. -/
inductive Malformation where
  | notTokens
  | noHeader
  | noName
  | noColumnList (table : String)
  | openColumnList (table : String)
  | noColumns (table : String)
  deriving DecidableEq, Repr

namespace Malformation

/-- The wording of a malformation. -/
def message : Malformation → String
  | notTokens => "statement could not be tokenized"
  | noHeader => "expected CREATE TABLE"
  | noName => "missing table name"
  | noColumnList table => s!"missing column list for table {table}"
  | openColumnList table => s!"unterminated column list for table {table}"
  | noColumns table => s!"table {table} has no columns"

end Malformation

/-- What ends an operation. -/
inductive Failure where
  | malformed (cause : Malformation)
  | unknownDialect (name : String)
  | invalidTable (cause : TableFault)
  | unreadableScript (path : String)
  | unreadableModel (path : String)
  | invalidModelText
  deriving DecidableEq, Repr

namespace Failure

/-- The wording of a failure. -/
def message : Failure → String
  | malformed cause => s!"Malformed CREATE TABLE statement: {cause.message}"
  | unknownDialect name => s!"Unknown SQL dialect: {name}"
  | invalidTable cause => s!"Invalid table model: {cause.message}"
  | unreadableScript path => s!"Failed to read SQL file: {path}"
  | unreadableModel path => s!"Failed to read model file: {path}"
  | invalidModelText => "Invalid model JSON"

end Failure

/-- What was left out of a result. -/
inductive Notice where
  | skippedStatement (number line : Nat) (cause : Malformation)
  | skippedItem (table item : String)
  | unsupportedType (table column dataType : String)
  | invalidAction (table constraint action : String)
  | incompleteForeignKey (table constraint : String)
  | unknownDialect (name : String)
  | duplicateIndex (table index : String)
  | incompleteIndex (table index : String)
  | omittedAutoIncrement (table column dialect : String)
  | unknownKeyColumn (table column : String)
  deriving DecidableEq, Repr

namespace Notice

/-- The wording of a notice. -/
def message : Notice → String
  | skippedStatement number line cause =>
    s!"Skipped statement {number} (line {line}): {cause.message}"
  | skippedItem table item => s!"Skipped unrecognized item of {table}: {item}"
  | unsupportedType table column dataType =>
    s!"Unsupported type {dataType} for {table}.{column}, rendered as text"
  | invalidAction table constraint action =>
    s!"Dropped invalid foreign key action '{action}' on {table}.{constraint}"
  | incompleteForeignKey table constraint =>
    s!"Skipped incomplete foreign key {constraint} on {table}"
  | unknownDialect name => s!"Unknown dialect '{name}', using MySQL rules"
  | duplicateIndex table index => s!"Skipped duplicate index {index} on {table}"
  | incompleteIndex table index => s!"Skipped index {index} on {table}: no columns"
  | omittedAutoIncrement table column dialect =>
    s!"{dialect} has no auto-increment keyword for {table}.{column}, omitted"
  | unknownKeyColumn table column => s!"Primary key of {table} names unknown column {column}"

end Notice
end SchemaScript
