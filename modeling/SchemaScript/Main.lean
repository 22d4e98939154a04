import SchemaScript.CommandLine.Command

/-!
# The program

Reads the file of a command, carries the command out and writes its result.
-/

open SchemaScript CommandLine

/-- The contents of a file, or nothing if it cannot be read. -/
def readFile? (path : String) : IO (Option ByteArray) := do
  try
    return some (← IO.FS.readBinFile path)
  catch _ =>
    return none

/-- Writes a text to a file or to standard output. Answers whether that went well. -/
def writeText (output : Option String) (text : String) : IO Bool := do
  match output with
  | none =>
    IO.print text
    return true
  | some path =>
    try
      IO.FS.writeFile path text
      return true
    catch _ =>
      return false

/-- Tells of a failure on standard error. -/
def reportFailure (message : String) : IO UInt32 := do
  IO.eprintln (failureLine message)
  return 1

/-- Carries a command out. -/
def runCommand (c : Command) : IO UInt32 := do
  match c.perform (← readFile? c.input) with
  | .error failure => reportFailure failure.message
  | .ok result =>
    if ← writeText result.output (fileText result.text) then
      if let some line := noticeLine? result.noticeCount then
        IO.eprintln line
      return 0
    else
      reportFailure (unwritableMessage (result.output.getD ""))

/-- The program: carries out what its arguments ask for. -/
def main (args : List String) : IO UInt32 := do
  match request args with
  | .command c => runCommand c
  | .stop s =>
    match s with
    | .version => IO.println versionLine
    | .help => IO.println usageLine
    | .misuse => IO.eprintln usageLine
    return s.exitCode.toUInt32
