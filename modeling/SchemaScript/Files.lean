import SchemaScript.Render.Script
import SchemaScript.Text.Encoding

/-!
# Files

What the contents of a file are worth: a script, the conversion of a script, or a table
model. A file that is missing has no bytes at all. The path is only needed to say which file
could not be read.
-/

namespace SchemaScript
namespace Files

/-- The script in a file. -/
def script (path : String) (bytes : Option ByteArray) : Except Failure String :=
  match bytes.bind Text.decodeScript? with
  | some text => .ok text
  | none => .error (.unreadableScript path)

/-- The conversion of the script in a file. -/
def conversion (target : String) (options : RenderOptions) (path : String)
    (bytes : Option ByteArray) : Except Failure Conversion :=
  match script path bytes with
  | .ok text => .ok (Conversion.ofScript target options text)
  | .error failure => .error failure

/-- The table model in a file, which has to be UTF-8. -/
def model (path : String) (bytes : Option ByteArray) : Except Failure (List Table) :=
  match bytes.bind String.fromUTF8? with
  | some text => Table.listOfText text
  | none => .error (.unreadableModel path)

end Files
end SchemaScript
