import SchemaScript.Definition.Default
import SchemaScript.Definition.Reference
import SchemaScript.Number.Integer
import SchemaScript.Token.Scan

/-!
# Column definitions

A column definition is a name, a type with its arguments, and modifiers in any order.

The type is a word of the vocabulary or a spelling of several words. Its arguments are a
length and a scale, or the literals of a value set; anything else in the parentheses is
passed over.

Every modifier begins with a word that says which one it is (`Clause.ofToken`). Unknown words
are passed over one by one. A name introduced by `CONSTRAINT` waits for the unique key or the
reference it belongs to; other named constraints drop it.
-/

namespace SchemaScript

/-- A column as it is defined in a table body. -/
structure ColumnDefinition where
  name : String
  /-- The canonical name of the type, in upper case. -/
  dataType : String
  length : Option UInt32 := none
  scale : Option UInt32 := none
  /-- The literals of a value set. -/
  values : List String := []
  nullable : Bool := true
  default : Option DefaultValue := none
  primaryKey : Bool := false
  unique : Bool := false
  /-- The name of the unique constraint. -/
  uniqueName : Option String := none
  autoIncrement : Bool := false
  comment : Option String := none
  references : Option Reference := none
  /-- The name of the reference. -/
  referencesName : Option String := none
  deriving DecidableEq, Repr

namespace ColumnDefinition

open Reader

/-! ## The type -/

/-- Whether the token is a word that names a type. -/
def isTypeWord (t : Token) : Bool :=
  t.bareWord?.any DataType.isKeyword

/-- A word that names a type, in upper case. -/
def typeWord : Reader String :=
  token fun t => if isTypeWord t then t.bareWord?.map Text.upper else none

/-- The words for a time zone: whether there is one. -/
def timeZone : Reader Bool := do
  let zoned ← token fun t =>
    if t.isKeyword "WITH" then some true
    else if t.isWord "WITHOUT" then some false
    else none
  skipBlanks
  word "TIME"
  word "ZONE"
  return zoned

/-- The name of a type whose first word is given, if further words belong to it. -/
def longTypeName (first : String) : Reader String := do
  skipBlanks
  if first == "CHARACTER" || first == "CHAR" then
    let .true ← seesWord "VARYING" | fail
    advance
    return "VARCHAR"
  else if first == "DOUBLE" then
    let .true ← seesWord "PRECISION" | fail
    advance
    return "DOUBLE"
  else if first == "TIMESTAMP" || first == "TIME" then
    if ← seesMark .openParen then
      skipParenthesized
      skipBlanks
    let zoned ← timeZone
    if first == "TIME" then
      return "TIME"
    else
      return if zoned then "TIMESTAMPTZ" else "TIMESTAMP"
  else
    fail

/-- The canonical name of a type, and whether it makes the column count up. -/
def dataTypeName : Reader (String × Bool) := do
  let first ← typeWord
  match ← attempt (longTypeName first) with
  | some n => return (n, false)
  | none => return DataType.canonical first

/-! ## Its arguments -/

/-- A number of 32 bits. -/
def size : Reader UInt32 :=
  token fun t => t.numberText?.bind fun text => Number.word32? text.toList

/-- One token of a list of literals: a literal, the closing parenthesis, or something between
literals. -/
def valueRound (values : List String) : Reader (List String ⊕ List String) := do
  skipBlanks
  match ← possibly stringLiteral with
  | some v => return .inl (values ++ [v])
  | none =>
    match ← possibly (mark .closeParen) with
    | some () => return .inr values
    | none =>
      if ← atEnd then
        fail
      advance
      return .inl values

/-- One token between the sizes and the closing parenthesis. -/
def argumentRestRound (_ : Unit) : Reader (Unit ⊕ Unit) := do
  match ← possibly (mark .closeParen) with
  | some () => return .inr ()
  | none =>
    if ← atEnd then
      fail
    advance
    return .inl ()

/-- A length and a scale, each of which may be missing. -/
def sizes : Reader (Option UInt32 × Option UInt32) := do
  if ← seesWord "MAX" then
    advancePastBlanks
    return (none, none)
  let length ← possibly size
  skipBlanks
  match ← possibly (mark .comma) with
  | none => return (length, none)
  | some () =>
    let scale ← possibly size
    skipBlanks
    return (length, scale)

/-- The definition with the type arguments that follow. Literals are read for value sets and
sizes for all other types. -/
def arguments (d : ColumnDefinition) : Reader ColumnDefinition := do
  mark .openParen
  if DataType.isValueSet d.dataType then
    return { d with values := ← loop valueRound [] }
  else
    let (length, scale) ← sizes
    loop argumentRestRound ()
    return { d with length, scale }

/-! ## Modifiers -/

/-- The kinds of modifiers, by the word they begin with. -/
inductive Clause where
  | not
  | null
  | constraint
  | primary
  | unique
  | default
  | comment
  | counting
  | identity
  | generated
  | references
  | check
  /-- A word with a name or string behind it. -/
  | named
  | characterSet
  | onUpdate
  | other
  deriving DecidableEq, Repr

/-- The modifiers that begin with a keyword. -/
def Clause.keywords : List (String × Clause) :=
  [("NOT", .not), ("NULL", .null), ("CONSTRAINT", .constraint), ("PRIMARY", .primary),
    ("UNIQUE", .unique), ("DEFAULT", .default), ("COMMENT", .comment),
    ("REFERENCES", .references), ("CHECK", .check), ("ON", .onUpdate)]

/-- The modifiers that begin with another word. -/
def Clause.words : List (String × Clause) :=
  [("AUTO_INCREMENT", .counting), ("AUTOINCREMENT", .counting), ("IDENTITY", .identity),
    ("GENERATED", .generated), ("COLLATE", .named), ("CHARSET", .named),
    ("CHARACTER", .characterSet)]

/-- The modifier that begins with the token. -/
def Clause.ofToken : Token → Clause
  | .word text =>
    match Clause.keywords.lookup (Text.fullUpper text) with
    | some clause => clause
    | none => (Clause.words.lookup (Text.upper text)).getD .other
  | _ => .other

/-- A definition in the making, with a constraint name that waits for its constraint. -/
structure Draft where
  definition : ColumnDefinition
  pendingName : Option String := none
  deriving DecidableEq, Repr

namespace Draft

/-- The draft with a changed definition. -/
def update (d : Draft) (f : ColumnDefinition → ColumnDefinition) : Draft :=
  { d with definition := f d.definition }

/-- The draft without a waiting name. -/
def dropName (d : Draft) : Draft :=
  { d with pendingName := none }

end Draft

/-- An order behind a key, blanks in front of it aside. -/
def sortOrder : Reader Unit := do
  skipBlanks
  let .true ← seesAnyWord ["ASC", "DESC"] | fail
  advance

/-- The words `NOT NULL`; a lone `NOT` is passed over. -/
def notClause (d : Draft) : Reader Draft := do
  advancePastBlanks
  if ← seesKeyword "NULL" then
    advance
    return d.update fun c => { c with nullable := false }
  else
    return d

/-- The word `CONSTRAINT` with the name behind it. -/
def constraintClause (d : Draft) : Reader Draft := do
  advancePastBlanks
  return { d with pendingName := ← possibly Reader.name }

/-- The words `PRIMARY KEY` with an order; a lone `PRIMARY` is passed over. -/
def primaryClause (d : Draft) : Reader Draft := do
  advancePastBlanks
  if ← seesKeyword "KEY" then
    advance
    let _ ← attempt sortOrder
    return (d.update fun c => { c with primaryKey := true }).dropName
  else
    return d.dropName

/-- The word `UNIQUE`, perhaps with `KEY`. It takes the waiting name. -/
def uniqueClause (d : Draft) : Reader Draft := do
  advancePastBlanks
  if ← seesKeyword "KEY" then
    advance
  return (d.update fun c => { c with unique := true, uniqueName := d.pendingName }).dropName

/-- What a default clause changes in a definition. -/
def applyDefault (c : ColumnDefinition) : DefaultClause → ColumnDefinition
  | .declared value => { c with default := some value }
  | .sequence => { c with autoIncrement := true, default := none }
  | .blank => c

/-- The word `DEFAULT` with its value. -/
def defaultClause (d : Draft) : Reader Draft := do
  advancePastBlanks
  let clause ← DefaultClause.reader
  return (d.update (applyDefault · clause)).dropName

/-- The word `COMMENT` with its text. -/
def commentClause (d : Draft) : Reader Draft := do
  advancePastBlanks
  let text ← possibly stringLiteral
  return d.update fun c => { c with comment := text }

/-- The word `IDENTITY` with its arguments. -/
def identityClause (d : Draft) : Reader Draft := do
  advancePastBlanks
  skipParenthesized
  return d.update fun c => { c with autoIncrement := true }

/-- The words between `GENERATED` and `AS`. -/
def generationTime : Reader Unit := do
  match ← possibly (word "ALWAYS") with
  | some () => return ()
  | none =>
    match ← possibly (word "BY") with
    | some () => let _ ← possibly (keyword "DEFAULT")
    | none => return ()

/-- A generated column: an identity counts up, and a computed expression is passed over. -/
def generatedClause (d : Draft) : Reader Draft := do
  advancePastBlanks
  generationTime
  match ← possibly (keyword "AS") with
  | none => return d
  | some () =>
    if ← seesWord "IDENTITY" then
      advancePastBlanks
      skipParenthesized
      return d.update fun c => { c with autoIncrement := true }
    else
      skipParenthesized
      return d

/-- The word `REFERENCES` with its target. It takes the waiting name. -/
def referencesClause (d : Draft) : Reader Draft := do
  advance
  let target ← possibly Reference.reader
  return (d.update fun c =>
    { c with references := target, referencesName := d.pendingName }).dropName

/-- The word `CHECK` with its condition, which is passed over. -/
def checkClause (d : Draft) : Reader Draft := do
  advancePastBlanks
  skipParenthesized
  return d.dropName

/-- A word with a name or string behind it, which are passed over. -/
def namedClause (d : Draft) : Reader Draft := do
  advancePastBlanks
  skipNameOrString
  return d

/-- The words `CHARACTER SET` with a name, which are passed over. -/
def characterSetClause (d : Draft) : Reader Draft := do
  advancePastBlanks
  if let some () ← possibly (word "SET") then
    skipNameOrString
  return d

/-- The words `ON UPDATE` with a word and its arguments, which are passed over. -/
def onUpdateClause (d : Draft) : Reader Draft := do
  advancePastBlanks
  match ← possibly (keyword "UPDATE") with
  | some () =>
    advancePastBlanks
    skipParenthesized
    return d
  | none => return d

/-- A token of no modifier, with the parentheses it may open. -/
def otherClause (d : Draft) : Reader Draft := do
  if ← seesMark .openParen then
    skipParenthesized
  else
    advance
  return d

/-- The modifier of the given kind, read from the word it begins with. -/
def modifier (d : Draft) : Clause → Reader Draft
  | .not => notClause d
  | .null => do
    advance
    return d.update fun c => { c with nullable := true }
  | .constraint => constraintClause d
  | .primary => primaryClause d
  | .unique => uniqueClause d
  | .default => defaultClause d
  | .comment => commentClause d
  | .counting => do
    advance
    return d.update fun c => { c with autoIncrement := true }
  | .identity => identityClause d
  | .generated => generatedClause d
  | .references => referencesClause d
  | .check => checkClause d
  | .named => namedClause d
  | .characterSet => characterSetClause d
  | .onUpdate => onUpdateClause d
  | .other => otherClause d

/-- One modifier, or the end of the definition. -/
def modifierRound (d : Draft) : Reader (Draft ⊕ ColumnDefinition) := do
  skipBlanks
  match ← peek with
  | none => return .inr d.definition
  | some t => return .inl (← modifier d (Clause.ofToken t))

/-- The modifiers of a definition. -/
def modifiers (d : ColumnDefinition) : Reader ColumnDefinition :=
  loop modifierRound { definition := d }

/-! ## The definition -/

/-- A column definition. -/
def reader : Reader ColumnDefinition := do
  skipBlanks
  let columnName ← Reader.name
  skipBlanks
  let (dataType, counting) ← dataTypeName
  skipBlanks
  let d : ColumnDefinition := { name := columnName, dataType, autoIncrement := counting }
  modifiers (← if ← seesMark .openParen then arguments d else answer d)

/-- The column that the tokens define. -/
def ofTokens? (ts : List Token) : Option ColumnDefinition :=
  (reader.run ts).1

/-- The column that the text defines. -/
def ofText? (text : String) : Option ColumnDefinition :=
  (Token.tokenize text.toList).bind ofTokens?

end ColumnDefinition
end SchemaScript
