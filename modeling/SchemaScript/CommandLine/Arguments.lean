import SchemaScript.Text.Delimited

/-!
# Command line arguments

The arguments of a command are options and operands. An option has a long name behind two
hyphens and perhaps a letter behind one; a value stands behind an equals sign, right behind
the letter, or in the next argument. Letters of options without values may share a hyphen.
Behind a lone pair of hyphens there are only operands, and a lone hyphen is an operand. A
program of several commands takes no operands itself: its first argument that is no option
names the command, and the arguments behind that name are the command's. Behind a lone pair of
hyphens no command can be named.

Arguments are read from the left, and the first thing that ends the reading counts: a request
for help or for the version, or a misuse. An option may not be given twice, and the argument
behind an option that needs a value must not look like an option itself.
-/

namespace SchemaScript
namespace CommandLine

/-- An option that a command knows. -/
structure OptionSpec where
  name : String
  letter : Option Char := none
  /-- Which values the option takes; none at all if it is a flag. -/
  accepts : Option (String → Bool) := none

/-- What the arguments of a command may be. -/
structure Spec where
  options : List OptionSpec
  /-- The number of operands. -/
  operands : Nat
  /-- Whether the version may be asked for. -/
  hasVersion : Bool := false
  /-- Whether the first argument that is no option names a command. -/
  hasCommands : Bool := false

/-- What ends the reading of arguments. -/
inductive Stop where
  | help
  | version
  | misuse
  deriving DecidableEq, Repr

/-- The arguments read so far. -/
structure Given where
  /-- The options with their values, the last one first. -/
  options : List (String × Option String) := []
  operands : List String := []
  /-- The name of a command with the arguments behind it. -/
  command : Option (String × List String) := none

namespace Given

/-- Whether the option is given. -/
def has (g : Given) (name : String) : Bool :=
  g.options.any fun o => o.1 == name

/-- The value of an option. -/
def value? (g : Given) (name : String) : Option String :=
  (g.options.lookup name).bind id

end Given

/-- Whether an argument looks like an option. -/
def looksLikeOption (arg : String) : Bool :=
  arg.toList.head? == some '-' && arg != "-"

/-- The arguments with one more flag. -/
def addFlag (o : OptionSpec) (g : Given) : Except Stop Given :=
  if g.has o.name then .error .misuse
  else .ok { g with options := (o.name, none) :: g.options }

/-- The arguments with one more option and its value. -/
def addValue (o : OptionSpec) (accepts : String → Bool) (value : String) (g : Given) :
    Except Stop Given :=
  if g.has o.name || !accepts value then .error .misuse
  else .ok { g with options := (o.name, some value) :: g.options }

/-- The arguments with one more operand, which must not be empty. -/
def addOperand (spec : Spec) (value : String) (g : Given) : Except Stop Given :=
  if value.isEmpty || spec.operands ≤ g.operands.length then .error .misuse
  else .ok { g with operands := g.operands ++ [value] }

/-- The arguments with several more operands. -/
def addOperands (spec : Spec) (values : List String) (g : Given) : Except Stop Given :=
  values.foldlM (fun g v => addOperand spec v g) g

/-- The name and value of a long option. -/
def splitLong (cs : List Char) : String × Option String :=
  let name := cs.takeWhile (· != '=')
  (String.ofList name,
    match cs.drop name.length with
    | [] => none
    | _ :: value => some (String.ofList value))

/-- The value of an option that is not given with it: the next argument. Answers the
arguments with the option, and the arguments to read. -/
def nextValue (o : OptionSpec) (accepts : String → Bool) (rest : List String) (g : Given) :
    Except Stop (Given × List String) :=
  match rest with
  | [] => .error .misuse
  | value :: rest =>
    if looksLikeOption value then .error .misuse
    else (addValue o accepts value g).map (·, rest)

/-- Reads a long option, given behind its hyphens. -/
def readLong (spec : Spec) (cs : List Char) (rest : List String) (g : Given) :
    Except Stop (Given × List String) :=
  let (name, value) := splitLong cs
  match spec.options.find? fun o => o.name == name with
  | some o =>
    match o.accepts, value with
    | none, none => (addFlag o g).map (·, rest)
    | none, some _ => .error .misuse
    | some accepts, some v => (addValue o accepts v g).map (·, rest)
    | some accepts, none => nextValue o accepts rest g
  | none =>
    if value.isSome then .error .misuse
    else if name = "help" then .error .help
    else if name = "version" ∧ spec.hasVersion then .error .version
    else .error .misuse

/-- Reads letters that share a hyphen. The letter of an option with a value takes all that
follows. -/
def readLetters (spec : Spec) (rest : List String) :
    List Char → Given → Except Stop (Given × List String)
  | [], g => .ok (g, rest)
  | c :: cs, g =>
    match spec.options.find? fun o => o.letter == some c with
    | some o =>
      match o.accepts with
      | none =>
        match addFlag o g with
        | .ok g => readLetters spec rest cs g
        | .error stop => .error stop
      | some accepts =>
        match cs with
        | [] => nextValue o accepts rest g
        | '=' :: value => (addValue o accepts (String.ofList value) g).map (·, rest)
        | value => (addValue o accepts (String.ofList value) g).map (·, rest)
    | none =>
      if c = 'h' then .error .help
      else if c = 'V' ∧ spec.hasVersion then .error .version
      else .error .misuse

/-- Reads one argument. Answers the arguments read so far and those still to read. -/
def readOne (spec : Spec) (arg : String) (rest : List String) (g : Given) :
    Except Stop (Given × List String) :=
  match arg.toList with
  | '-' :: '-' :: [] => (addOperands spec rest g).map (·, [])
  | '-' :: '-' :: cs => readLong spec cs rest g
  | '-' :: c :: cs => readLetters spec rest (c :: cs) g
  | _ =>
    if spec.hasCommands then .ok ({ g with command := some (arg, rest) }, [])
    else (addOperand spec arg g).map (·, rest)

/-- Reads arguments. The first argument bounds the number of steps. -/
def readSteps (spec : Spec) : Nat → List String → Given → Except Stop Given
  | 0, _, g => .ok g
  | _, [], g => .ok g
  | n + 1, arg :: rest, g =>
    match readOne spec arg rest g with
    | .error stop => .error stop
    | .ok (g, rest) => readSteps spec n rest g

/-- Reads the arguments of a command. -/
def readArguments (spec : Spec) (args : List String) : Except Stop Given :=
  readSteps spec args.length args {}

end CommandLine
end SchemaScript
