import SchemaScript.Text.AsciiCase
import SchemaScript.Text.Blank

/-!
# Names of column types

Engines spell the same column type in many ways. A script names its types by the words of
`vocabulary`; each is read as one canonical upper-case name (`canonical`). A table model
may also carry spellings of several words, such as `character varying`, and `fold` brings
every spelling to the name that the type catalogs and the type families are about.

The serial types are integers that count up by themselves. Reading a script turns them
into an integer type and a flag; folding leaves them alone, because a name cannot carry
the flag.
-/

namespace SchemaScript
namespace DataType

/-- The words that name a type in a script. -/
def vocabulary : List String :=
  ["TINYINT", "SMALLINT", "MEDIUMINT", "INT", "INTEGER", "BIGINT", "INT2", "INT4", "INT8",
    "SERIAL", "SERIAL4", "SERIAL8", "SMALLSERIAL", "BIGSERIAL",
    "CHAR", "NCHAR", "CHARACTER", "VARCHAR", "NVARCHAR", "VARCHAR2", "TEXT", "TINYTEXT",
    "MEDIUMTEXT", "LONGTEXT", "NTEXT", "CLOB",
    "DATE", "TIME", "DATETIME", "DATETIME2", "TIMESTAMP", "TIMESTAMPTZ", "YEAR",
    "REAL", "FLOAT", "DOUBLE", "DECIMAL", "NUMERIC", "MONEY",
    "BOOLEAN", "BOOL", "BIT",
    "ENUM", "SET",
    "BLOB", "LONGBLOB", "BINARY", "VARBINARY", "BYTEA", "JSON", "JSONB", "UUID",
    "UNIQUEIDENTIFIER", "XML"]

/-- Words with another canonical name, and whether they make a column count up. -/
def synonyms : List (String × String × Bool) :=
  [("INTEGER", "INT", false), ("INT4", "INT", false), ("INT2", "SMALLINT", false),
    ("INT8", "BIGINT", false), ("BOOL", "BOOLEAN", false), ("VARCHAR2", "VARCHAR", false),
    ("CHARACTER", "CHAR", false), ("SERIAL", "INT", true), ("SERIAL4", "INT", true),
    ("SMALLSERIAL", "SMALLINT", true), ("SERIAL8", "BIGINT", true),
    ("BIGSERIAL", "BIGINT", true)]

/-- Spellings of several words, with their canonical names. -/
def phrases : List (List String × String) :=
  [(["CHARACTER", "VARYING"], "VARCHAR"), (["CHAR", "VARYING"], "VARCHAR"),
    (["NATIONAL", "CHARACTER", "VARYING"], "NVARCHAR"),
    (["NATIONAL", "CHAR", "VARYING"], "NVARCHAR"),
    (["NATIONAL", "CHARACTER"], "NCHAR"), (["NATIONAL", "CHAR"], "NCHAR"),
    (["DOUBLE", "PRECISION"], "DOUBLE"),
    (["TIMESTAMP", "WITH", "TIME", "ZONE"], "TIMESTAMPTZ"),
    (["TIMESTAMP", "WITHOUT", "TIME", "ZONE"], "TIMESTAMP"),
    (["TIME", "WITH", "TIME", "ZONE"], "TIME"), (["TIME", "WITHOUT", "TIME", "ZONE"], "TIME")]

/-- Whether the word names a type. -/
def isKeyword (word : String) : Bool :=
  vocabulary.any (Text.sameIgnoringCase · word)

/-- The canonical name of a type word, and whether it makes a column count up. -/
def canonical (word : String) : String × Bool :=
  let name := Text.upper word
  (synonyms.lookup name).getD (name, false)

/-- The words of a type spelling in upper case. -/
def words (name : String) : List String :=
  (Text.words name.toList).map fun w => Text.upper (String.ofList w)

/-- The canonical name of a type given by its words in upper case. -/
def foldWords (ws : List String) : String :=
  match phrases.lookup ws with
  | some name => name
  | none =>
    match ws with
    | [w] => match canonical w with
      | (name, false) => name
      | (_, true) => w
    | _ => " ".intercalate ws

/-- The canonical name of a type, however it is spelled. Serial types stay as they are. -/
def fold (name : String) : String :=
  foldWords (words name)

/-- Whether the values of the type are a list of literals. -/
def isValueSet (name : String) : Bool :=
  ["ENUM", "SET"].any (Text.sameIgnoringCase · name)

/-- Whole numbers. -/
def integerNames : List String :=
  ["TINYINT", "SMALLINT", "MEDIUMINT", "INT", "INTEGER", "BIGINT"]

/-- Numbers with a fraction. -/
def fractionalNames : List String :=
  ["REAL", "FLOAT", "DOUBLE", "DECIMAL", "NUMERIC", "MONEY"]

/-- Character data. -/
def textNames : List String :=
  ["CHAR", "NCHAR", "VARCHAR", "NVARCHAR", "TEXT", "TINYTEXT", "MEDIUMTEXT", "LONGTEXT",
    "NTEXT", "CLOB", "ENUM", "SET"]

/-- Whether the type holds whole numbers. -/
def isInteger (name : String) : Bool :=
  integerNames.contains (fold name)

/-- Whether the type holds numbers with a fraction. -/
def isFractional (name : String) : Bool :=
  fractionalNames.contains (fold name)

/-- Whether the type holds character data. -/
def isText (name : String) : Bool :=
  textNames.contains (fold name)

/-- Whether the type holds truth values: by its name, or as an integer or bit of length
one. A bit without a length has length one. -/
def isBoolean (name : String) (length : Option UInt32) : Bool :=
  let folded := fold name
  folded == "BOOLEAN" || (folded == "TINYINT" && length == some 1) ||
    (folded == "BIT" && (length == none || length == some 1))

end DataType
end SchemaScript
