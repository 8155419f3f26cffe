import StackScript.Host
import StackScript.Text.Blank

/-! Consoles: what the command line needs from its surroundings, and the host that a program
finds in them. Lines of input come as bytes, because they need not be text. -/
namespace StackScript

/-- The calls that the command line makes, as actions of a monad. -/
class Console (m : Type → Type) where
  /-- Writes text to the output. -/
  out : String → m Unit
  /-- Writes text to the error output. -/
  err : String → m Unit
  /-- Writes a line to the log. -/
  log : String → m Unit
  /-- Takes the next line of input with its line feed; no bytes are its end. -/
  takeLine : m ByteArray
  /-- The content of a file, or the reason why it cannot be read. -/
  readFile : String → m (Except String ByteArray)

namespace Console

/-- Text from bytes. -/
def decode (bytes : ByteArray) : Except String String :=
  match String.fromUTF8? bytes with
  | some text => .ok text
  | none => .error "stream did not contain valid UTF-8"

/-- The text of a line without the line feeds and carriage returns at its end. -/
def withoutLineEnd (line : String) : String :=
  String.ofList (Text.dropEndWhile (fun c => c == '\n' || c == '\r') line.toList)

/-- A line of input from its bytes. -/
def decodeLine (bytes : ByteArray) : Except String (Option String) :=
  if bytes.isEmpty then .ok none
  else (decode bytes).map fun line => some (withoutLineEnd line)

variable {m : Type → Type} [Monad m] [Console m]

/-- Writes text and a line feed to the output. -/
def outLine (line : String) : m Unit := out (line ++ "\n")

/-- A program run from the command line writes to the output and reads from the input. A prompt
is followed by a space, and the answer stands in the same line. -/
instance : Host m where
  writeLine line := do
    outLine line
    return .ok ()
  readLine prompt := do
    match prompt with
    | some text => out (text ++ " ")
    | none => pure ()
    return decodeLine (← takeLine)

end Console

end StackScript
