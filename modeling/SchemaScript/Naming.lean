import SchemaScript.Text.Blank

/-!
# Quoted and qualified names

A name may stand in double quotes, in backticks or in square brackets, and it may be
qualified by names in front of it with periods between them. Periods inside quotes do not
separate.
-/

namespace SchemaScript
namespace Naming

/-- The pairs of characters that a name may stand between. -/
def delimiters : List (Char × Char) :=
  [('[', ']'), ('"', '"'), ('\x60', '\x60')]

/-- The name between its quotes, blanks around them dropped. -/
def unquoteChars (cs : List Char) : List Char :=
  match Text.trim cs with
  | [] => []
  | [c] => [c]
  | c :: d :: rest =>
    if delimiters.any fun p => p.1 == c && (d :: rest).getLast? == some p.2 then
      (d :: rest).dropLast
    else c :: d :: rest

/-- The closing quote of the name that a character opens. -/
def closing? (c : Char) : Option Char :=
  delimiters.lookup c

/-- The text behind the last period outside quotes, if there is one. The first argument is
the closing quote of the name the text begins in. -/
def behindLastPeriod? (quote : Option Char) : List Char → Option (List Char)
  | [] => none
  | c :: cs =>
    match quote with
    | some q => behindLastPeriod? (if c = q then none else some q) cs
    | none =>
      match closing? c with
      | some q => behindLastPeriod? (some q) cs
      | none =>
        if c = '.' then some ((behindLastPeriod? none cs).getD cs)
        else behindLastPeriod? none cs

/-- A name without the quotes around it. -/
def unquoted (name : String) : String :=
  String.ofList (unquoteChars name.toList)

/-- The last part of a qualified name, without the quotes around it. -/
def unqualified (name : String) : String :=
  String.ofList (unquoteChars ((behindLastPeriod? none name.toList).getD name.toList))

end Naming
end SchemaScript
