import SchemaScript.Definition.Reference

/-!
# Constraint clauses

The items of a table body that are no columns: keys, indexes and foreign keys, with a name in
front or without one, and the clauses that are recognised so that they are not taken for
something else but say nothing about the table model (`CHECK`, full text and spatial indexes,
exclusions).

The name of a unique key is the one behind its keyword, or else the one of the constraint; a
foreign key takes them the other way round.
-/

namespace SchemaScript

/-- A constraint clause of a table body. -/
inductive Constraint where
  | primaryKey (columns : List String)
  | unique (name : Option String) (columns : List String)
  | index (name : Option String) (columns : List String)
  | foreignKey (name : Option String) (columns : List String) (target : Reference)
  /-- A clause without a counterpart in the table model. -/
  | ignored
  deriving DecidableEq, Repr

namespace Constraint

open Reader

/-- The words that a constraint clause may begin with. -/
def leadingWords : List String :=
  ["CONSTRAINT", "PRIMARY", "UNIQUE", "KEY", "INDEX", "FOREIGN", "CHECK", "FULLTEXT",
    "SPATIAL", "EXCLUDE"]

/-- Whether a constraint clause may begin with the token. -/
def isLead (t : Token) : Bool :=
  leadingWords.any t.isWord

/-- Whether the next token says which constraint it is, so that no name stands in front. -/
def seesKind : Reader Bool :=
  sees fun t => ["PRIMARY", "UNIQUE", "FOREIGN", "CHECK"].any t.isKeyword

/-- Whether the next token is one of the words for an index. -/
def seesIndexWord : Reader Bool :=
  sees fun t => t.isKeyword "KEY" || t.isKeyword "INDEX"

/-- One option of an index, or the end of the options. -/
def indexOptionRound (_ : Unit) : Reader (Unit ⊕ Unit) := do
  if ← seesAnyWord ["CLUSTERED", "NONCLUSTERED"] then
    advancePastBlanks
    return .inl ()
  else if ← seesWord "USING" then
    advancePastBlanks
    advancePastBlanks
    return .inl ()
  else
    return .inr ()

/-- Takes the words that say how an index is stored. -/
def skipIndexOptions : Reader Unit :=
  loop indexOptionRound ()

/-- The name of an index in front of its columns, if there is one. -/
def indexName : Reader (Option String) := do
  if ← seesMark .openParen then
    return none
  let n ← possibly name
  skipBlanks
  skipIndexOptions
  return n

/-- The name of a constraint, if the word `CONSTRAINT` introduces one. -/
def constraintName : Reader (Option String) := do
  match ← possibly (keyword "CONSTRAINT") with
  | none => return none
  | some () =>
    if ← seesKind then
      return none
    let n ← possibly name
    skipBlanks
    return n

/-- The first of two names that is given. -/
def firstName (a b : Option String) : Option String :=
  match a with
  | some n => some n
  | none => b

/-- A primary key, read behind the word `PRIMARY`. -/
def primaryKeyClause : Reader Constraint := do
  keyword "KEY"
  skipIndexOptions
  return .primaryKey (← nameList)

/-- A unique key, read behind the word `UNIQUE`. -/
def uniqueClause (outer : Option String) : Reader Constraint := do
  if ← seesIndexWord then
    advancePastBlanks
  skipIndexOptions
  let inner ← indexName
  return .unique (firstName inner outer) (← nameList)

/-- An index. -/
def indexClause : Reader Constraint := do
  advancePastBlanks
  let n ← indexName
  return .index n (← nameList)

/-- A foreign key, read behind the word `FOREIGN`. -/
def foreignKeyClause (outer : Option String) : Reader Constraint := do
  keyword "KEY"
  let inner ← indexName
  let columns ← nameList
  skipBlanks
  keyword "REFERENCES"
  return .foreignKey (firstName outer inner) columns (← Reference.reader)

/-- A constraint clause. -/
def reader : Reader Constraint := do
  skipBlanks
  let n ← constraintName
  match ← possibly (keyword "PRIMARY") with
  | some () => primaryKeyClause
  | none =>
  match ← possibly (keyword "UNIQUE") with
  | some () => uniqueClause n
  | none =>
  if ← seesIndexWord then
    indexClause
  else
  match ← possibly (keyword "FOREIGN") with
  | some () => foreignKeyClause n
  | none =>
  if ← sees fun t => t.isKeyword "CHECK" || ["FULLTEXT", "SPATIAL", "EXCLUDE"].any t.isWord then
    return .ignored
  else
    fail

end Constraint
end SchemaScript
