import SchemaScript.CommandLine.Arguments
import SchemaScript.Files
import SchemaScript.Number.Integer

/-!
# Commands

The three commands of the program: `translate` converts a script, `parse` writes the tables
of a script as structured data, and `generate` renders a table model. Each reads one file and
writes one text, to a file if one is named and to standard output otherwise.

A command is carried out on the contents of its file (`Command.perform`). What is left to the
program is to read that file and to write the result.
-/

namespace SchemaScript
namespace CommandLine

/-- A command with its arguments. -/
inductive Command where
  | convert (input : String) (output : Option String) (target : String)
      (options : RenderOptions)
  | parse (input : String) (output : Option String)
  | generate (input : String) (output : Option String) (target : String)
      (options : RenderOptions) (withRows : Bool)

/-- What the arguments of the program ask for. -/
inductive Request where
  | command (c : Command)
  | stop (s : Stop)

/-! ## Arguments -/

/-- A path is not empty. -/
def acceptsPath (s : String) : Bool :=
  !s.isEmpty

/-- A number without a sign that fits 64 bits; a plus sign may stand in front. -/
def word64? (s : String) : Option Nat :=
  let digits := match s.toList with
    | '+' :: ds => ds
    | ds => ds
  (Number.natural? digits).filter (· < UInt64.size)

/-- The option for more detailed logging, which every command knows. -/
def verboseOption : OptionSpec :=
  { name := "verbose", letter := some 'v' }

/-- The option for the dialect. -/
def targetOption : OptionSpec :=
  { name := "target", letter := some 't', accepts := some fun _ => true }

/-- The option for the file to write. -/
def outputOption : OptionSpec :=
  { name := "output", letter := some 'o', accepts := some acceptsPath }

/-- The arguments in front of the name of a command. -/
def programSpec : Spec :=
  { options := [verboseOption], operands := 0, hasVersion := true, hasCommands := true }

/-- The arguments for converting a script. -/
def convertSpec : Spec :=
  { options :=
      [targetOption, outputOption, { name := "no-foreign-keys" }, { name := "no-indexes" },
        { name := "deferrable" }, verboseOption]
    operands := 1 }

/-- The arguments for parsing a script. -/
def parseSpec : Spec :=
  { options := [outputOption, verboseOption], operands := 1 }

/-- The arguments for rendering a model. -/
def generateSpec : Spec :=
  { options :=
      [{ name := "model", letter := some 'm', accepts := some acceptsPath }, targetOption,
        { name := "with-data" },
        { name := "batch-size", accepts := some fun s => (word64? s).isSome }, outputOption,
        verboseOption]
    operands := 0 }

/-- The command that converts a script, if its script is named. -/
def convertCommand? (g : Given) : Option Command :=
  g.operands.head?.map fun input =>
    .convert input (g.value? "output") ((g.value? "target").getD "mysql")
      { foreignKeys := !g.has "no-foreign-keys"
        indexes := !g.has "no-indexes"
        deferrable := g.has "deferrable" }

/-- The command that parses a script, if its script is named. -/
def parseCommand? (g : Given) : Option Command :=
  g.operands.head?.map fun input => .parse input (g.value? "output")

/-- The command that renders a model, if its model is named. -/
def generateCommand? (g : Given) : Option Command :=
  (g.value? "model").map fun input =>
    .generate input (g.value? "output") ((g.value? "target").getD "mysql")
      { batchSize := ((g.value? "batch-size").bind word64?).getD 100 } (g.has "with-data")

/-- What the arguments of a command ask for. -/
def commandRequest (spec : Spec) (make : Given → Option Command) (args : List String) :
    Request :=
  match readArguments spec args with
  | .error s => .stop s
  | .ok g =>
    match make g with
    | some c => .command c
    | none => .stop .misuse

/-- The names of the commands. -/
def commandNames : List String :=
  ["translate", "parse", "generate", "help"]

/-- What a request for help behind the word `help` comes to: the words behind it have to name
a command. -/
def helpRequest : List String → Request
  | [] => .stop .help
  | [name] => .stop (if commandNames.contains name then .help else .misuse)
  | _ => .stop .misuse

/-- What the arguments of the program ask for. -/
def request (args : List String) : Request :=
  match readArguments programSpec args with
  | .error s => .stop s
  | .ok g =>
    match g.command with
    | some ("translate", args) => commandRequest convertSpec convertCommand? args
    | some ("parse", args) => commandRequest parseSpec parseCommand? args
    | some ("generate", args) => commandRequest generateSpec generateCommand? args
    | some ("help", args) => helpRequest args
    | _ => .stop .misuse

/-! ## Results -/

/-- What a command comes to: a text and where it goes, and how many notices there were. -/
structure Result where
  output : Option String
  text : String
  noticeCount : Nat

namespace Command

/-- The file that a command reads. -/
def input : Command → String
  | convert input .. | parse input .. | generate input .. => input

/-- The result of a command, given the contents of its file. -/
def perform (c : Command) (bytes : Option ByteArray) : Except Failure Result :=
  match c with
  | convert input output target options => do
    let result ← Files.conversion target options input bytes
    return ⟨output, result.sql, result.notices.length⟩
  | parse input output => do
    let contents := Contents.ofScript (← Files.script input bytes)
    return ⟨output, (Table.listToJson contents.tables).indentedText, contents.notices.length⟩
  | generate input output target options withRows => do
    let tables ← Files.model input bytes
    let (dialect, unknown) := Dialect.resolve target
    let rendered := Table.renderAll { options with dialect } withRows tables
    return ⟨output, rendered.sql, unknown.length + rendered.notices.length⟩

end Command

/-- A text as it is written out. -/
def fileText (text : String) : String :=
  text ++ "\n"

/-- The line that tells of notices, if there are any. -/
def noticeLine? (count : Nat) : Option String :=
  if count = 0 then none else some s!"{count} warning(s); affected items were left out"

/-- The line that tells of a failure. -/
def failureLine (message : String) : String :=
  "Error: " ++ message

/-- What is said of a file that cannot be written. -/
def unwritableMessage (path : String) : String :=
  "Failed to write " ++ path

/-- The name and version of the program. -/
def versionLine : String :=
  "ddlkit 0.1.0"

/-- A short description of the arguments. -/
def usageLine : String :=
  "Usage: ddlkit [OPTIONS] <COMMAND>"

/-- The exit code for what ends the reading of arguments. -/
def Stop.exitCode : Stop → Nat
  | .help | .version => 0
  | .misuse => 2

end CommandLine
end SchemaScript
