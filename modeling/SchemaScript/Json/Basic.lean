import SchemaScript.Number.Shortest

/-!
# Structured data

The values of the data format in which table models are exchanged. An object is the list
of its fields in the order of the text, so that a reader can tell when a field is given
twice; `Json.canonical?` brings the objects inside a cell to one field per name, in the
order of the names.

A text may be well formed and still denote no value: a number beyond the range of floating
point, half of a surrogate pair, brackets nested too deep. Such a part is read as
`unrepresentable`. It does no harm where it is ignored, and everything that uses it fails.
-/

namespace SchemaScript

/-- A number: whole if it was written so and fits 64 bits, floating point otherwise. -/
inductive JsonNumber where
  | integer (value : Int)
  | float (value : Binary64)
  deriving DecidableEq, Repr

/-- A value of structured data. -/
inductive Json where
  | null
  | bool (value : Bool)
  | number (value : JsonNumber)
  | string (value : String)
  | array (items : List Json)
  | object (fields : List (String × Json))
  /-- A part of a text that denotes no value. -/
  | unrepresentable
  deriving Repr

namespace JsonNumber

/-- The text of a number. -/
def print : JsonNumber → List Char
  | integer n => (toString n).toList
  | float x => Number.dataText x

/-- Whether the number is zero. -/
def isZero : JsonNumber → Bool
  | integer n => n == 0
  | float x => x.isZero

end JsonNumber

/-- Fields in the order of their names, each name once. -/
def insertField {α : Type} (name : String) (value : α) :
    List (String × α) → List (String × α)
  | [] => [(name, value)]
  | (k, v) :: rest =>
    if name = k then (name, value) :: rest
    else if name < k then (name, value) :: (k, v) :: rest
    else (k, v) :: insertField name value rest

/-- The fields in the order of their names. Of a name given twice the last value counts. -/
def sortFields {α : Type} (fields : List (String × α)) : List (String × α) :=
  fields.foldl (fun sorted f => insertField f.1 f.2 sorted) []

namespace Json

mutual
/-- The value with the fields of every object in the order of their names, each name once;
nothing if some part of it denotes no value. -/
def canonical? : Json → Option Json
  | null => some null
  | bool b => some (bool b)
  | number n => some (number n)
  | string s => some (string s)
  | array items => (canonicalItems? items).map array
  | object fields => (canonicalFields? fields).map fun fs => object (sortFields fs)
  | unrepresentable => none

/-- The canonical forms of a list of values. -/
def canonicalItems? : List Json → Option (List Json)
  | [] => some []
  | j :: js =>
    match canonical? j, canonicalItems? js with
    | some c, some cs => some (c :: cs)
    | _, _ => none

/-- The canonical forms of the values of a list of fields. -/
def canonicalFields? : List (String × Json) → Option (List (String × Json))
  | [] => some []
  | (name, j) :: rest =>
    match canonical? j, canonicalFields? rest with
    | some c, some cs => some ((name, c) :: cs)
    | _, _ => none
end

end Json
end SchemaScript
