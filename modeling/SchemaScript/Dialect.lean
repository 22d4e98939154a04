import SchemaScript.Text.AsciiCase
import SchemaScript.Text.Blank
import SchemaScript.Text.Doubling

/-!
# Dialects

The engines a table can be rendered for, and what differs between them apart from column
types: how names are quoted, how truth values and text are written as literals, the words
that make a column count up, and what the syntax of indexes and foreign keys allows.

A quote inside a quoted name or a string is always written twice. MySQL, MariaDB and
PostgreSQL also read a backslash as an escape, so there it is written twice as well, and
PostgreSQL marks such strings by the letter `E`.
-/

namespace SchemaScript

/-- An engine that tables are rendered for. -/
inductive Dialect where
  | sqlite
  | mysql
  | mariadb
  | postgresql
  | sqlserver
  deriving DecidableEq, Repr

namespace Dialect

/-- All dialects. -/
def all : List Dialect :=
  [sqlite, mysql, mariadb, postgresql, sqlserver]

/-- The name of a dialect. -/
def name : Dialect → String
  | sqlite => "sqlite"
  | mysql => "mysql"
  | mariadb => "mariadb"
  | postgresql => "postgresql"
  | sqlserver => "sqlserver"

/-- The names a dialect is known by, in lower case. -/
def aliases : List (String × Dialect) :=
  [("sqlite", sqlite), ("sqlite3", sqlite), ("mysql", mysql), ("mariadb", mariadb),
    ("postgresql", postgresql), ("pgsql", postgresql), ("postgres", postgresql),
    ("sqlserver", sqlserver), ("mssql", sqlserver)]

/-- The dialect of a name, blanks around it and the case of ASCII letters aside. -/
def ofName? (s : String) : Option Dialect :=
  aliases.lookup (Text.lower (Text.trimmed s))

/-- Whether the dialect follows the rules of MySQL. -/
def isMySqlFamily : Dialect → Bool
  | mysql | mariadb => true
  | sqlite | postgresql | sqlserver => false

/-- A table name as it is written. -/
def quoteTable (d : Dialect) (s : String) : String :=
  match d with
  | mysql | mariadb => Text.enclose '\x60' s
  | postgresql => Text.enclose '"' s
  | sqlite | sqlserver => s

/-- The name of a column, index or constraint as it is written. -/
def quoteColumn (d : Dialect) (s : String) : String :=
  if d.isMySqlFamily then Text.enclose '\x60' s else s

/-- Column names with commas between them. -/
def quoteColumns (d : Dialect) (names : List String) : String :=
  ", ".intercalate (names.map d.quoteColumn)

/-- A truth value as a literal. -/
def booleanLiteral (d : Dialect) (value : Bool) : String :=
  match d, value with
  | postgresql, true => "TRUE"
  | postgresql, false => "FALSE"
  | _, true => "1"
  | _, false => "0"

/-- Whether a backslash is an escape in the strings this dialect is written with. -/
def escapesBackslash : Dialect → Bool
  | mysql | mariadb | postgresql => true
  | sqlite | sqlserver => false

/-- A text as a string literal. -/
def stringLiteral (d : Dialect) (value : String) : String :=
  let quoted := Text.double '\'' value.toList
  let body := if d.escapesBackslash then Text.double '\\' quoted else quoted
  let literal := '\'' :: body ++ ['\'']
  String.ofList (if d = postgresql then 'E' :: literal else literal)

/-- The words that make an integer column count up. In SQLite an integer key does so
without any. -/
def autoIncrementWords? : Dialect → Option String
  | mysql | mariadb => some "AUTO_INCREMENT"
  | postgresql => some "GENERATED BY DEFAULT AS IDENTITY"
  | sqlserver => some "IDENTITY(1,1)"
  | sqlite => none

/-- Whether indexes are declared inside the table. -/
def hasInlineIndexes (d : Dialect) : Bool :=
  d.isMySqlFamily

/-- Whether an index may be created on the condition that it does not exist. -/
def hasConditionalIndexes : Dialect → Bool
  | postgresql | sqlite => true
  | mysql | mariadb | sqlserver => false

/-- Whether the check of a foreign key may be deferred. -/
def hasDeferrableKeys : Dialect → Bool
  | postgresql => true
  | sqlite | mysql | mariadb | sqlserver => false

variable {d : Dialect}

theorem quoteColumn_of_isMySqlFamily (hd : d.isMySqlFamily = true) (n : String) :
    d.quoteColumn n = Text.enclose '\x60' n := by
  rw [quoteColumn, if_pos hd]

theorem quoteTable_of_isMySqlFamily (hd : d.isMySqlFamily = true) (n : String) :
    d.quoteTable n = Text.enclose '\x60' n := by
  cases d <;> first | rfl | cases hd

@[simp] theorem toList_stringLiteral (d : Dialect) (value : String) :
    (d.stringLiteral value).toList =
      (if d = postgresql then ['E'] else []) ++ '\'' ::
        (if d.escapesBackslash then Text.double '\\' (Text.double '\'' value.toList)
          else Text.double '\'' value.toList) ++ ['\''] := by
  by_cases h : d = postgresql <;> simp [stringLiteral, h]

/-- In the family of MySQL a text stands in plain quotes, and quotes and backslashes in it are
written twice. -/
theorem toList_stringLiteral_of_isMySqlFamily (hd : d.isMySqlFamily = true) (value : String) :
    (d.stringLiteral value).toList =
      '\'' :: Text.double '\'' (Text.double '\\' value.toList) ++ ['\''] := by
  have hdialect : d ≠ postgresql ∧ d.escapesBackslash = true := by
    revert hd
    cases d <;> decide
  rw [toList_stringLiteral, if_neg hdialect.1, if_pos hdialect.2, List.nil_append,
    Text.double_comm (by decide)]

end Dialect
end SchemaScript
