import SchemaScript.Definition.Assembly

/-!
# Table definitions

A `CREATE TABLE` statement is a header, a name and a body in parentheses; whatever stands
behind the body is ignored. The header may begin with the guard that SQL Server scripts put
in front, and may ask for a temporary table or for one that does not exist yet.

The body is cut at the commas that stand in no inner parentheses. Each item is put back into
text, and this text is read once more: as a column, if it begins like one, and else as a
constraint. An item that is neither is kept aside. Items that are blank do not count.

An item that begins with a constraint word is still a column when a type follows: `key
VARCHAR(10)` is one, `KEY idx (a)` is not.
-/

namespace SchemaScript

/-- What was read from a `CREATE TABLE` statement. -/
structure TableDefinition where
  name : String
  columns : List ColumnDefinition
  constraints : List Constraint
  /-- The items that are neither columns nor constraints, in order. -/
  skipped : List String

namespace TableDefinition

open Reader

/-! ## The header -/

/-- The condition that a table does not exist, as SQL Server scripts write it. -/
def existenceGuard : Reader Unit := do
  keyword "IF"
  word "OBJECT_ID"
  let .true ← seesMark .openParen | fail
  skipParenthesized
  skipBlanks
  keyword "IS"
  keyword "NULL"

/-- Takes the condition that a table does not exist, if it is complete. -/
def skipExistenceGuard : Reader Unit := do
  let _ ← attempt existenceGuard

/-- Takes the word for a temporary table. -/
def skipTemporary : Reader Unit := do
  if ← sees fun t => t.isKeyword "TEMPORARY" || t.isWord "TEMP" then
    advancePastBlanks

/-- Takes the words `IF NOT EXISTS`, of which none may be missing behind the first. -/
def ifNotExists : Reader Unit := do
  match ← possibly (keyword "IF") with
  | some () =>
    keyword "NOT"
    keyword "EXISTS"
  | none => return ()

/-- The header of a statement, up to the name of the table. -/
def header : Reader Unit := do
  skipExistenceGuard
  keyword "CREATE"
  skipTemporary
  keyword "TABLE"
  ifNotExists

/-! ## The body -/

/-- The tokens in front of the next comma or closing parenthesis that stands in none of
`depth` open parentheses, and the tokens from there on. -/
def itemRun : Nat → List Token → List Token × List Token
  | _, [] => ([], [])
  | 0, t :: ts =>
    if t.isMark .comma || t.isMark .closeParen then ([], t :: ts)
    else
      let r := itemRun (if t.isMark .openParen then 1 else 0) ts
      (t :: r.1, r.2)
  | depth + 1, t :: ts =>
    let r := itemRun
      (if t.isMark .openParen then depth + 2 else if t.isMark .closeParen then depth else depth + 1)
      ts
    (t :: r.1, r.2)

/-- Nothing is lost between an item and the tokens behind it. -/
theorem itemRun_append (depth : Nat) (ts : List Token) :
    (itemRun depth ts).1 ++ (itemRun depth ts).2 = ts := by
  induction ts generalizing depth with
  | nil => simp [itemRun]
  | cons t ts ih =>
    cases depth with
    | zero =>
      simp only [itemRun]
      split
      · rfl
      · simp [ih]
    | succ depth => simp [itemRun, ih]

/-- The items of a body, read behind its opening parenthesis, and the tokens behind the
closing one. -/
def bodyItems? (ts : List Token) : Option (List (List Token) × List Token) :=
  match _h : (itemRun 0 ts).2 with
  | [] => none
  | t :: rest =>
    if t.isMark .closeParen then some ([(itemRun 0 ts).1], rest)
    else (bodyItems? rest).map fun r => ((itemRun 0 ts).1 :: r.1, r.2)
termination_by ts.length
decreasing_by
  have h := congrArg List.length (itemRun_append 0 ts)
  rw [_h] at h
  simp only [List.length_append, List.length_cons] at h
  omega

/-! ## Items -/

/-- An item of a body. -/
inductive Item where
  | column (definition : ColumnDefinition)
  | constraint (clause : Constraint)

/-- Whether the tokens are to be read as a column before they are read as a constraint. -/
def columnFirst (ts : List Token) : Bool :=
  match ts.dropWhile Token.isBlank with
  | [] => true
  | t :: rest =>
    !Constraint.isLead t ||
      (rest.dropWhile Token.isBlank).head?.any ColumnDefinition.isTypeWord

/-- The item that the tokens make up. -/
def Item.ofTokens? (ts : List Token) : Option Item :=
  let constraint := (Constraint.reader.run ts).1.map Item.constraint
  if columnFirst ts then
    match ColumnDefinition.ofTokens? ts with
    | some d => some (.column d)
    | none => constraint
  else constraint

/-- The item that a text makes up. -/
def Item.ofText? (cs : List Char) : Option Item :=
  (Token.tokenize cs).bind Item.ofTokens?

/-- Adds the item that a text makes up in front of a definition. -/
def consItem (cs : List Char) (d : TableDefinition) : TableDefinition :=
  match Item.ofText? cs with
  | some (.column c) => { d with columns := c :: d.columns }
  | some (.constraint c) => { d with constraints := c :: d.constraints }
  | none => { d with skipped := String.ofList (Text.trim cs) :: d.skipped }

/-- The texts of the items of a body that are not blank. -/
def itemTexts (items : List (List Token)) : List (List Char) :=
  (items.map Token.printAll).filter fun cs => !Text.allBlank cs

/-- The definition with the given name and items. -/
def ofItems (name : String) (items : List (List Token)) : TableDefinition :=
  (itemTexts items).foldr consItem ⟨name, [], [], []⟩

/-! ## The statement -/

/-- The definition in a statement given as tokens. -/
def ofTokens (ts : List Token) : Except Malformation TableDefinition :=
  match header.run (ts.dropWhile Token.isBlank) with
  | (none, _) => .error .noHeader
  | (some (), afterHeader) =>
    match qualifiedName.run afterHeader with
    | (none, _) => .error .noName
    | (some name, afterName) =>
      match (mark .openParen).run (afterName.dropWhile Token.isBlank) with
      | (none, _) => .error (.noColumnList name)
      | (some (), body) =>
        match bodyItems? body with
        | none => .error (.openColumnList name)
        | some (items, _) => .ok (ofItems name items)

/-- The definition in a statement. -/
def ofText (text : String) : Except Malformation TableDefinition :=
  match Token.tokenize text.toList with
  | none => .error .notTokens
  | some ts => ofTokens ts

/-- The table that is defined. -/
def toTable (d : TableDefinition) : Except Malformation Table :=
  Table.assemble d.name d.columns d.constraints

end TableDefinition

namespace Table

/-- The table that a statement creates, with the items of its body that were skipped. -/
def ofStatement (text : String) : Except Malformation (Table × List String) :=
  match TableDefinition.ofText text with
  | .error cause => .error cause
  | .ok d =>
    match d.toTable with
    | .error cause => .error cause
    | .ok t => .ok (t, d.skipped)

end Table
end SchemaScript
