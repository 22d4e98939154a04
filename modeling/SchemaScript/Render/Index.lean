import SchemaScript.Render.Options
import SchemaScript.Schema.Basic
import SchemaScript.Text.Delimited

/-!
# Rendering indexes

Two indexes over the same columns, in whatever order, do the same work, so only the first is
written. The primary key comes first, then the declared indexes, then an index for the
columns of each foreign key that is written. A declared index that is left out is reported;
one that would only have supported a foreign key is not.
-/

namespace SchemaScript

/-- What becomes of a declared index. -/
inductive IndexOutcome where
  | kept (index : Index)
  /-- An index without columns. -/
  | incomplete (name : String)
  /-- An index over columns that are covered already. -/
  | duplicate (name : String)
  deriving DecidableEq, Repr

namespace IndexOutcome

/-- The index that is written. -/
def index? : IndexOutcome → Option Index
  | kept i => some i
  | incomplete _ | duplicate _ => none

/-- What is to be reported. -/
def notice? (table : String) : IndexOutcome → Option Notice
  | kept _ => none
  | incomplete name => some (.incompleteIndex table name)
  | duplicate name => some (.duplicateIndex table name)

end IndexOutcome

namespace Index

/-- The signature of the primary key, if there is one. -/
def keySignatures (primaryKey : List String) : List String :=
  if primaryKey.isEmpty then [] else [signature primaryKey]

/-- What becomes of declared indexes when the signatures in `seen` are covered. -/
def outcomes (table : String) (seen : List String) : List Index → List IndexOutcome
  | [] => []
  | i :: is =>
    if i.columns.isEmpty then .incomplete (i.nameFor table) :: outcomes table seen is
    else if seen.contains (signature i.columns) then
      .duplicate (i.nameFor table) :: outcomes table seen is
    else
      .kept { i with name := some (i.nameFor table) } ::
        outcomes table (signature i.columns :: seen) is

/-- The name of the index that supports a foreign key. -/
def supportingName (table : String) (k : ForeignKey) : String :=
  match k.name.bind fun n => Text.stripStart? "fk_".toList n.toList with
  | some (c :: cs) => "idx_" ++ String.ofList (c :: cs)
  | _ => "idx_" ++ table ++ "_" ++ k.columns.headD ""

/-- The indexes that support foreign keys, where the signatures in `seen` are not covered. -/
def supporting (table : String) (seen : List String) : List ForeignKey → List Index
  | [] => []
  | k :: ks =>
    if seen.contains (signature k.columns) then supporting table seen ks
    else
      { name := some (supportingName table k), columns := k.columns } ::
        supporting table (signature k.columns :: seen) ks

/-- The indexes of a table that are written: those declared, then the supporting ones. -/
def emitted (table : String) (primaryKey : List String) (declared : List Index)
    (keys : List ForeignKey) : List Index :=
  let kept := (outcomes table (keySignatures primaryKey) declared).filterMap IndexOutcome.index?
  kept ++ supporting table
    (keySignatures primaryKey ++ kept.map fun i => signature i.columns) keys

/-- What is to be reported of the declared indexes. -/
def notices (table : String) (primaryKey : List String) (declared : List Index) : List Notice :=
  (outcomes table (keySignatures primaryKey) declared).filterMap (IndexOutcome.notice? table)

/-- The word for a unique index. -/
def uniqueWord (i : Index) : String :=
  if i.unique then "UNIQUE " else ""

/-- An index as an item of a table body. -/
def renderedInline (d : Dialect) (i : Index) : String :=
  i.uniqueWord ++ "INDEX " ++ d.quoteColumn (i.name.getD "") ++
    " (" ++ d.quoteColumns i.columns ++ ")"

/-- An index as a statement of its own. -/
def renderedStatement (d : Dialect) (table : String) (i : Index) : String :=
  "CREATE " ++ i.uniqueWord ++ "INDEX " ++
    (if d.hasConditionalIndexes then "IF NOT EXISTS " else "") ++
    d.quoteColumn (i.name.getD "") ++ " ON " ++ d.quoteTable table ++
    " (" ++ d.quoteColumns i.columns ++ ");"

end Index
end SchemaScript
