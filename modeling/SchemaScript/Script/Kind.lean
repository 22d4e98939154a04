import SchemaScript.Definition.Table
import SchemaScript.Naming

/-!
# Kinds of statements

A statement is told by the words it begins with. Of interest are statements that create a
table, statements that add to a table of the same script (an index or the description of a
column), and conditional drops of tables. A statement of one of the latter kinds that breaks
off is of no interest; one that creates a table is kept, so that its fault can be reported.

A statement that cannot be tokenized creates a table if its first words say so.
-/

namespace SchemaScript

/-- What a statement adds to a table that another one creates. -/
inductive Addition where
  | index (table : String) (index : Index)
  | description (table column text : String)
  deriving DecidableEq, Repr

/-- The kinds of statements. -/
inductive StatementKind where
  | createTable
  | addition (what : Addition)
  | dropTables (names : List String)
  | other
  deriving DecidableEq, Repr

namespace Addition

open Reader

/-- The name of the table that is added to. -/
def table : Addition → String
  | index table _ => table
  | description table _ _ => table

/-- An index, read behind the word `CREATE`. -/
def indexReader : Reader Addition := do
  let unique ← possibly (keyword "UNIQUE")
  if ← seesAnyWord ["CLUSTERED", "NONCLUSTERED"] then
    advancePastBlanks
  keyword "INDEX"
  TableDefinition.ifNotExists
  let indexName ← qualifiedName
  skipBlanks
  keyword "ON"
  let table ← qualifiedName
  skipBlanks
  match ← possibly (word "USING") with
  | some () => advancePastBlanks
  | none => answer ()
  let columns ← nameList
  return .index table { name := some indexName, columns, unique := unique.isSome }

/-- One more part of a qualified name, with no blanks around the period, or the end of the
name. -/
def partRound (parts : List String) : Reader (List String ⊕ List String) := do
  if ← seesMark .period then
    advance
    return .inl (parts ++ [← name])
  else
    return .inr parts

/-- The parts of a qualified name. -/
def qualifiedParts : Reader (List String) := do
  loop partRound [← name]

/-- The last two parts of a qualified name: table and column. -/
def tableAndColumn? (parts : List String) : Option (String × String) :=
  match parts.reverse with
  | column :: table :: _ => some (table, column)
  | _ => none

/-- The description of a column, read behind the word `COMMENT`. -/
def descriptionReader : Reader Addition := do
  keyword "ON"
  keyword "COLUMN"
  let parts ← qualifiedParts
  skipBlanks
  keyword "IS"
  if ← seesWord "E" then
    advance
  let text ← stringLiteral
  let (table, column) ← ofOption (tableAndColumn? parts)
  return .description table column text

end Addition

namespace StatementKind

open Reader

/-- One more name of a list without parentheses. -/
def dropRound (names : List String) : Reader (List String ⊕ List String) := do
  let names := names ++ [Naming.unqualified (← qualifiedName)]
  skipBlanks
  if ← seesMark .comma then
    advancePastBlanks
    return .inl names
  else
    return .inr names

/-- The names of dropped tables, read behind the word `DROP`. -/
def dropReader : Reader (List String) := do
  keyword "TABLE"
  keyword "IF"
  keyword "EXISTS"
  loop dropRound []

/-- The kind that a reader finds, or no interest if it finds nothing. -/
def orOther (r : Reader StatementKind) : Reader StatementKind := do
  return (← possibly r).getD .other

/-- The kind of a statement that begins with the word `CREATE`, read behind it. -/
def createReader : Reader StatementKind := do
  TableDefinition.skipTemporary
  if ← seesKeyword "TABLE" then
    return .createTable
  else
    orOther (do return .addition (← Addition.indexReader))

/-- The kind of a statement. -/
def reader : Reader StatementKind := do
  skipBlanks
  TableDefinition.skipExistenceGuard
  match ← possibly (keyword "CREATE") with
  | some () => createReader
  | none =>
  match ← possibly (keyword "COMMENT") with
  | some () => orOther (do return .addition (← Addition.descriptionReader))
  | none =>
  match ← possibly (keyword "DROP") with
  | some () => orOther (do return .dropTables (← dropReader))
  | none => return .other

/-- Whether the first words of a text create a table. -/
def looksLikeCreateTable (cs : List Char) : Bool :=
  match Text.words cs with
  | [] => false
  | w :: ws =>
    Text.foldCase w == "create".toList && (ws.take 2).any fun v => Text.foldCase v == "table".toList

/-- The kind of the statement that a text makes up. -/
def ofText (text : String) : StatementKind :=
  match Token.tokenize text.toList with
  | some ts => (reader.run ts).1.getD .other
  | none => if looksLikeCreateTable text.toList then .createTable else .other

end StatementKind
end SchemaScript
