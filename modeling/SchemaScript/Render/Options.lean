import SchemaScript.Dialect
import SchemaScript.Failure

/-!
# What to render

The choices that a caller has: the dialect, which parts of a table to leave out, whether
foreign keys are checked at the end of a transaction, and how many rows an insert holds.
-/

namespace SchemaScript

/-- The choices for rendering. -/
structure RenderOptions where
  dialect : Dialect := .mysql
  foreignKeys : Bool := true
  indexes : Bool := true
  /-- Whether foreign keys are checked late, where the dialect allows it. -/
  deferrable : Bool := false
  /-- The number of rows of one insert; zero counts as one. -/
  batchSize : Nat := 100
  deriving DecidableEq, Repr

/-- A rendered text and what was left out of it. -/
structure Rendered where
  sql : String
  notices : List Notice

namespace Dialect

/-- The dialect of a name. An unknown name stands for MySQL, which is to be reported. -/
def resolve (name : String) : Dialect × List Notice :=
  match ofName? name with
  | some d => (d, [])
  | none => (.mysql, [.unknownDialect name])

end Dialect
end SchemaScript
