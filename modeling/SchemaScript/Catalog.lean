import SchemaScript.DataType
import SchemaScript.Dialect

/-!
# Type catalogs

Each dialect renders a column type by the entry of its catalog whose beginning the folded,
lower-case type name has. The first such entry counts, so longer beginnings stand before
shorter ones: `timestamptz` before `timestamp`, and `datetime2` before `datetime` before
`date`. A catalog also says which of its own types take a size, and which size they take
when the model gives none.
-/

namespace SchemaScript

/-- How one dialect spells the column types. -/
structure Catalog where
  /-- Beginnings of lower-case type names with the types they are rendered as, longer
  beginnings first. -/
  entries : List (String × String)
  /-- The types rendered with a length. -/
  sized : List String
  /-- The types rendered with a precision and a scale. -/
  scaled : List String
  /-- The lengths of sized types that come without one. -/
  defaultSizes : List (String × String)
  /-- The type of text of varying length, which stands in for value sets. -/
  varyingText : String
  /-- The type that stands in for unknown types. -/
  fallback : String

namespace Catalog

/-- SQLite: few storage classes, sizes only on varying text. -/
def sqlite : Catalog where
  entries :=
    [("uniqueidentifier", "TEXT"), ("timestamptz", "TEXT"), ("mediumtext", "TEXT"),
      ("varbinary", "BLOB"), ("datetime2", "DATETIME"), ("mediumint", "INTEGER"),
      ("timestamp", "DATETIME"), ("longtext", "TEXT"), ("nvarchar", "NVARCHAR"),
      ("longblob", "BLOB"), ("smallint", "INTEGER"), ("datetime", "DATETIME"),
      ("tinytext", "TEXT"), ("varchar", "NVARCHAR"), ("decimal", "REAL"), ("numeric", "REAL"),
      ("boolean", "BOOLEAN"), ("tinyint", "INTEGER"), ("bigint", "INTEGER"), ("double", "REAL"),
      ("binary", "BLOB"), ("bytea", "BLOB"), ("float", "REAL"), ("money", "REAL"),
      ("nchar", "TEXT"), ("ntext", "TEXT"), ("jsonb", "TEXT"), ("text", "TEXT"),
      ("char", "TEXT"), ("real", "REAL"), ("date", "DATE"), ("time", "TIME"), ("uuid", "TEXT"),
      ("blob", "BLOB"), ("json", "TEXT"), ("year", "INTEGER"), ("clob", "TEXT"),
      ("bit", "BOOLEAN"), ("int", "INTEGER"), ("xml", "TEXT")]
  sized := ["NVARCHAR"]
  scaled := []
  defaultSizes := []
  varyingText := "NVARCHAR"
  fallback := "TEXT"

/-- MySQL and MariaDB: sizes on most types, display widths included. -/
def mysql : Catalog where
  entries :=
    [("uniqueidentifier", "CHAR(36)"), ("timestamptz", "TIMESTAMP"),
      ("mediumtext", "MEDIUMTEXT"), ("varbinary", "VARBINARY"), ("datetime2", "DATETIME"),
      ("mediumint", "MEDIUMINT"), ("timestamp", "TIMESTAMP"), ("longtext", "LONGTEXT"),
      ("nvarchar", "VARCHAR"), ("longblob", "LONGBLOB"), ("smallint", "SMALLINT"),
      ("datetime", "DATETIME"), ("tinytext", "TINYTEXT"), ("varchar", "VARCHAR"),
      ("decimal", "DECIMAL"), ("numeric", "DECIMAL"), ("boolean", "BOOLEAN"),
      ("tinyint", "TINYINT"), ("bigint", "BIGINT"), ("double", "DOUBLE"), ("binary", "BINARY"),
      ("bytea", "BLOB"), ("float", "FLOAT"), ("money", "DECIMAL"), ("nchar", "CHAR"),
      ("ntext", "LONGTEXT"), ("jsonb", "JSON"), ("text", "TEXT"), ("char", "CHAR"),
      ("real", "FLOAT"), ("date", "DATE"), ("time", "TIME"), ("uuid", "CHAR(36)"),
      ("blob", "BLOB"), ("json", "JSON"), ("year", "YEAR"), ("clob", "LONGTEXT"),
      ("bit", "BOOLEAN"), ("int", "INT"), ("xml", "LONGTEXT")]
  sized := ["VARCHAR", "CHAR", "BINARY", "VARBINARY", "TINYINT", "SMALLINT", "MEDIUMINT", "INT",
      "BIGINT"]
  scaled := ["DECIMAL"]
  defaultSizes := [("VARCHAR", "255"), ("VARBINARY", "255")]
  varyingText := "VARCHAR"
  fallback := "TEXT"

/-- PostgreSQL: types of several words, sizes on character data. -/
def postgresql : Catalog where
  entries :=
    [("uniqueidentifier", "UUID"), ("timestamptz", "TIMESTAMP WITH TIME ZONE"),
      ("mediumtext", "TEXT"), ("varbinary", "BYTEA"),
      ("datetime2", "TIMESTAMP WITHOUT TIME ZONE"), ("mediumint", "INTEGER"),
      ("timestamp", "TIMESTAMP WITHOUT TIME ZONE"), ("longtext", "TEXT"),
      ("nvarchar", "CHARACTER VARYING"), ("longblob", "BYTEA"), ("smallint", "SMALLINT"),
      ("datetime", "TIMESTAMP WITHOUT TIME ZONE"), ("tinytext", "TEXT"),
      ("varchar", "CHARACTER VARYING"), ("decimal", "NUMERIC"), ("numeric", "NUMERIC"),
      ("boolean", "BOOLEAN"), ("tinyint", "SMALLINT"), ("bigint", "BIGINT"),
      ("double", "DOUBLE PRECISION"), ("binary", "BYTEA"), ("bytea", "BYTEA"), ("float", "REAL"),
      ("money", "MONEY"), ("nchar", "CHAR"), ("ntext", "TEXT"), ("jsonb", "JSONB"),
      ("text", "TEXT"), ("char", "CHAR"), ("real", "REAL"), ("date", "DATE"), ("time", "TIME"),
      ("uuid", "UUID"), ("blob", "BYTEA"), ("json", "JSONB"), ("year", "SMALLINT"),
      ("clob", "TEXT"), ("bit", "BOOLEAN"), ("int", "INTEGER"), ("xml", "XML")]
  sized := ["CHARACTER VARYING", "CHAR"]
  scaled := ["NUMERIC"]
  defaultSizes := []
  varyingText := "CHARACTER VARYING"
  fallback := "TEXT"

/-- SQL Server: national text, unlimited sizes spelled out. -/
def sqlserver : Catalog where
  entries :=
    [("uniqueidentifier", "UNIQUEIDENTIFIER"), ("timestamptz", "DATETIMEOFFSET"),
      ("mediumtext", "NVARCHAR(MAX)"), ("varbinary", "VARBINARY"), ("datetime2", "DATETIME2"),
      ("mediumint", "INT"), ("timestamp", "DATETIME2"), ("longtext", "NVARCHAR(MAX)"),
      ("nvarchar", "NVARCHAR"), ("longblob", "VARBINARY(MAX)"), ("smallint", "SMALLINT"),
      ("datetime", "DATETIME2"), ("tinytext", "NVARCHAR(255)"), ("varchar", "NVARCHAR"),
      ("decimal", "DECIMAL"), ("numeric", "DECIMAL"), ("boolean", "BIT"), ("tinyint", "TINYINT"),
      ("bigint", "BIGINT"), ("double", "FLOAT"), ("binary", "BINARY"),
      ("bytea", "VARBINARY(MAX)"), ("float", "FLOAT"), ("money", "MONEY"), ("nchar", "NCHAR"),
      ("ntext", "NVARCHAR(MAX)"), ("jsonb", "NVARCHAR(MAX)"), ("text", "NVARCHAR(MAX)"),
      ("char", "NCHAR"), ("real", "REAL"), ("date", "DATE"), ("time", "TIME"),
      ("uuid", "UNIQUEIDENTIFIER"), ("blob", "VARBINARY(MAX)"), ("json", "NVARCHAR(MAX)"),
      ("year", "SMALLINT"), ("clob", "NVARCHAR(MAX)"), ("bit", "BIT"), ("int", "INT"),
      ("xml", "XML")]
  sized := ["NVARCHAR", "NCHAR", "BINARY", "VARBINARY"]
  scaled := ["DECIMAL"]
  defaultSizes := [("NVARCHAR", "MAX"), ("VARBINARY", "MAX")]
  varyingText := "NVARCHAR"
  fallback := "NVARCHAR(MAX)"

/-- The catalog of a dialect. -/
def ofDialect : Dialect → Catalog
  | .sqlite => sqlite
  | .mysql | .mariadb => mysql
  | .postgresql => postgresql
  | .sqlserver => sqlserver

/-- The type that the first fitting entry gives for a type name. -/
def lookup (catalog : Catalog) (typeName : String) : Option String :=
  let name := Text.foldCase (DataType.fold typeName).toList
  (catalog.entries.find? fun entry => entry.1.toList.isPrefixOf name).map Prod.snd

/-- Whether a type of this dialect is rendered with a length. -/
def isSized (catalog : Catalog) (target : String) : Bool :=
  catalog.sized.contains target

/-- Whether a type of this dialect is rendered with a precision and a scale. -/
def isScaled (catalog : Catalog) (target : String) : Bool :=
  catalog.scaled.contains target

/-- The length a type of this dialect has when the model gives none. -/
def defaultSize? (catalog : Catalog) (target : String) : Option String :=
  catalog.defaultSizes.lookup target

end Catalog
end SchemaScript
