import SchemaScript.Render.Options
import SchemaScript.Schema.Basic

/-!
# Rendering foreign keys

A foreign key is complete if it has columns, a table to refer to, and as many columns there.
Only complete ones are written, with those of their actions that are known; the others are
reported.
-/

namespace SchemaScript
namespace ForeignKey

/-- The known actions. -/
def actions : List String :=
  ["NO ACTION", "RESTRICT", "CASCADE", "SET NULL", "SET DEFAULT"]

/-- An action in upper case, with single spaces between its words. -/
def normalAction (text : String) : String :=
  Text.upper (" ".intercalate ((Text.words text.toList).map String.ofList))

/-- The known action that a text spells. -/
def action? (text : String) : Option String :=
  if actions.contains (normalAction text) then some (normalAction text) else none

/-- Whether the key can be written. -/
def isComplete (k : ForeignKey) : Bool :=
  !k.columns.isEmpty && !Text.isBlankString k.referencedTable &&
    k.referencedColumns.length == k.columns.length

/-- The clause for an action on an event. -/
def actionClause (event : String) (action : Option String) : String :=
  match action.bind action? with
  | some a => " " ++ event ++ " " ++ a
  | none => ""

/-- A complete key as an item of a table body. -/
def rendered (options : RenderOptions) (table : String) (k : ForeignKey) : String :=
  let d := options.dialect
  "CONSTRAINT " ++ d.quoteColumn (k.nameFor table) ++
    " FOREIGN KEY (" ++ d.quoteColumns k.columns ++
    ") REFERENCES " ++ d.quoteTable k.referencedTable ++
    "(" ++ d.quoteColumns k.referencedColumns ++ ")" ++
    actionClause "ON UPDATE" k.onUpdate ++ actionClause "ON DELETE" k.onDelete ++
    if options.deferrable && d.hasDeferrableKeys then " DEFERRABLE INITIALLY DEFERRED" else ""

/-- What is to be reported of an action: a text that is neither blank nor known. -/
def actionNotices (table constraint : String) (action : Option String) : List Notice :=
  match action with
  | none => []
  | some text =>
    if Text.isBlankString text || (action? text).isSome then []
    else [.invalidAction table constraint text]

/-- What is to be reported of a key. -/
def notices (table : String) (k : ForeignKey) : List Notice :=
  let constraint := k.nameFor table
  if k.isComplete then
    actionNotices table constraint k.onUpdate ++ actionNotices table constraint k.onDelete
  else [.incompleteForeignKey table constraint]

end ForeignKey
end SchemaScript
