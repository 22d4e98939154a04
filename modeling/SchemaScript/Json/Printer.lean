import SchemaScript.Json.Basic

/-!
# Writing structured data

Two layouts: compact, without any blanks, and indented, with two blanks for each level and
every element on a line of its own. Strings escape quotes, backslashes and control
characters and nothing else.
-/

namespace SchemaScript
namespace Json

/-- A hexadecimal digit in lower case. -/
def hexDigit (n : Nat) : Char :=
  Nat.digitChar n

/-- A character as it stands in a string. -/
def escapeChar (c : Char) : List Char :=
  if c = '"' then ['\\', '"']
  else if c = '\\' then ['\\', '\\']
  else if c = '\n' then ['\\', 'n']
  else if c = '\r' then ['\\', 'r']
  else if c = '\t' then ['\\', 't']
  else if c.toNat = 8 then ['\\', 'b']
  else if c.toNat = 12 then ['\\', 'f']
  else if c.toNat < 0x20 then
    ['\\', 'u', '0', '0', hexDigit (c.toNat / 16), hexDigit (c.toNat % 16)]
  else [c]

/-- A string in quotes. -/
def quote (s : String) : List Char :=
  '"' :: s.toList.flatMap escapeChar ++ ['"']

mutual
/-- The compact text of a value. -/
def compact : Json → List Char
  | null | unrepresentable => ['n', 'u', 'l', 'l']
  | bool true => ['t', 'r', 'u', 'e']
  | bool false => ['f', 'a', 'l', 's', 'e']
  | number n => n.print
  | string s => quote s
  | array items => '[' :: compactItems items ++ [']']
  | object fields => '{' :: compactFields fields ++ ['}']

/-- The compact texts of values with commas between them. -/
def compactItems : List Json → List Char
  | [] => []
  | [j] => compact j
  | j :: js => compact j ++ ',' :: compactItems js

/-- The compact texts of fields with commas between them. -/
def compactFields : List (String × Json) → List Char
  | [] => []
  | [(name, j)] => quote name ++ ':' :: compact j
  | (name, j) :: rest => quote name ++ ':' :: compact j ++ ',' :: compactFields rest
end

/-- A line break and the indentation behind it. -/
def lineBreak (level : Nat) : List Char :=
  '\n' :: List.replicate (2 * level) ' '

mutual
/-- The indented text of a value that stands at the given level. -/
def indented (level : Nat) : Json → List Char
  | null | unrepresentable => ['n', 'u', 'l', 'l']
  | bool true => ['t', 'r', 'u', 'e']
  | bool false => ['f', 'a', 'l', 's', 'e']
  | number n => n.print
  | string s => quote s
  | array [] => ['[', ']']
  | array (j :: js) =>
    '[' :: lineBreak (level + 1) ++ indented (level + 1) j ++
      indentedItems (level + 1) js ++ lineBreak level ++ [']']
  | object [] => ['{', '}']
  | object ((name, j) :: rest) =>
    '{' :: lineBreak (level + 1) ++ quote name ++ ':' :: ' ' :: indented (level + 1) j ++
      indentedFields (level + 1) rest ++ lineBreak level ++ ['}']

/-- The indented texts of the values behind the first one of an array. -/
def indentedItems (level : Nat) : List Json → List Char
  | [] => []
  | j :: js => ',' :: lineBreak level ++ indented level j ++ indentedItems level js

/-- The indented texts of the fields behind the first one of an object. -/
def indentedFields (level : Nat) : List (String × Json) → List Char
  | [] => []
  | (name, j) :: rest =>
    ',' :: lineBreak level ++ quote name ++ ':' :: ' ' :: indented level j ++
      indentedFields level rest
end

/-- The compact text of a value. -/
def compactText (j : Json) : String :=
  String.ofList (compact j)

/-- The indented text of a value. -/
def indentedText (j : Json) : String :=
  String.ofList (indented 0 j)

end Json
end SchemaScript
