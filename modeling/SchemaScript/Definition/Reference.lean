import SchemaScript.Token.Reader

/-!
# References to other tables

What stands behind the word `REFERENCES`: the table, perhaps its columns, and options in any
order. The actions on update and delete are kept as written, in upper case; whether they are
known is for the renderer to say. Matching and deferral are passed over.

A reference ends at the first token that is none of this. If the table is missing, or a list
of columns breaks off, there is no reference, and the tokens up to the break are gone.
-/

namespace SchemaScript

/-- The target of a foreign key. -/
structure Reference where
  table : String
  /-- The referenced columns; none if only the table is named. -/
  columns : List String := []
  onDelete : Option String := none
  onUpdate : Option String := none
  deriving DecidableEq, Repr

namespace Reference

open Reader

/-- An action in upper case: one word, or two if the first is `SET` or `NO`. -/
def action : Reader String := do
  let first := Text.upper (← token Token.wordText?)
  if first == "SET" || first == "NO" then
    skipBlanks
    match ← possibly (token Token.wordText?) with
    | some second => return first ++ " " ++ Text.upper second
    | none => return first
  else
    return first

/-- What follows the word `ON`: the event, with an action that may be missing. -/
def event (r : Reference) : Reader Reference := do
  advancePastBlanks
  match ← possibly (keyword "DELETE") with
  | some () => return { r with onDelete := ← possibly action }
  | none =>
    keyword "UPDATE"
    return { r with onUpdate := ← possibly action }

/-- Whether the reference goes on with the words `NOT DEFERRABLE`. -/
def seesNotDeferrable : Reader Bool := do
  if ← seesKeyword "NOT" then
    match (← peekSecond).bind Token.wordText? with
    | some w => return Text.sameIgnoringCase w "DEFERRABLE"
    | none => return false
  else
    return false

/-- One option of a reference, or its end. -/
def optionRound (r : Reference) : Reader (Reference ⊕ Reference) := do
  skipBlanks
  if ← seesKeyword "ON" then
    match ← attempt (event r) with
    | some r' => return .inl r'
    | none => return .inr r
  else if ← seesWord "MATCH" then
    advancePastBlanks
    advance
    return .inl r
  else if ← seesAnyWord ["DEFERRABLE", "INITIALLY"] then
    advancePastBlanks
    if ← seesAnyWord ["DEFERRED", "IMMEDIATE"] then
      advance
    return .inl r
  else if ← seesNotDeferrable then
    advancePastBlanks
    advance
    return .inl r
  else
    return .inr r

/-- A reference, read behind the word `REFERENCES`. -/
def reader : Reader Reference := do
  skipBlanks
  let table ← qualifiedName
  skipBlanks
  let columns ← if ← seesMark .openParen then nameList else answer []
  loop optionRound { table, columns }

end Reference
end SchemaScript
