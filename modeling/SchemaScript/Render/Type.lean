import SchemaScript.Catalog
import SchemaScript.Render.Options
import SchemaScript.Schema.Basic

/-!
# Rendering column types

A value set stays one in MySQL and MariaDB and becomes text with room for its longest literal
elsewhere. Truth values have one type in each dialect. Every other type goes through the
catalog of the dialect, and a type without an entry becomes text, which is to be reported.
-/

namespace SchemaScript

namespace Catalog

/-- A type of the dialect with a size behind it. -/
def withSize (target size : String) : String :=
  target ++ "(" ++ size ++ ")"

theorem withSize_eq (target size : String) :
    withSize target size = target ++ ("(" ++ size ++ ")") := by
  rw [withSize, String.append_assoc, String.append_assoc, String.append_assoc]

/-- A type of the dialect with the length and scale of a column, as far as it takes them. A
type that already has a size keeps it. -/
def sizedType (catalog : Catalog) (target : String) (length scale : Option UInt32) : String :=
  if target.toList.contains '(' then target
  else if catalog.isScaled target then
    match length, scale with
    | some p, some s => withSize target (toString p.toNat ++ ", " ++ toString s.toNat)
    | some p, none => withSize target (toString p.toNat)
    | none, _ => target
  else if catalog.isSized target then
    match length, catalog.defaultSize? target with
    | some n, _ => withSize target (toString n.toNat)
    | none, some size => withSize target size
    | none, none => target
  else target

end Catalog

namespace Column

/-- The type of a value set. -/
def valueSetType (d : Dialect) (c : Column) : String :=
  if d.isMySqlFamily then
    Text.lower c.dataType ++ "(" ++ ",".intercalate (c.values.map d.stringLiteral) ++ ")"
  else
    Catalog.withSize (Catalog.ofDialect d).varyingText
      (toString (c.maxValueLength + 2).toNat)

/-- The type of truth values. -/
def booleanType : Dialect → String
  | .sqlserver => "BIT"
  | .sqlite | .mysql | .mariadb | .postgresql => "BOOLEAN"

/-- The type of the column in the catalog of the dialect. -/
def catalogType? (d : Dialect) (c : Column) : Option String :=
  (Catalog.ofDialect d).lookup c.dataType

/-- The type of a column as it is written. -/
def renderedType (d : Dialect) (c : Column) : String :=
  if c.isValueSet then c.valueSetType d
  else if c.isBoolean then booleanType d
  else
    match c.catalogType? d with
    | some target => (Catalog.ofDialect d).sizedType target c.length c.scale
    | none => (Catalog.ofDialect d).fallback

/-- Whether the column becomes text because its type is unknown. -/
def hasUnknownType (d : Dialect) (c : Column) : Bool :=
  !c.isValueSet && !c.isBoolean && (c.catalogType? d).isNone

/-- What is to be reported of the type. -/
def typeNotices (d : Dialect) (table : String) (c : Column) : List Notice :=
  if c.hasUnknownType d then [.unsupportedType table c.name c.dataType] else []

end Column
end SchemaScript
