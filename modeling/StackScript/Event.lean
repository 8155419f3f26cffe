import StackScript.Labels
import StackScript.Token
import StackScript.Value

/-! Events: what happened while a program was read and executed, in the order in which it
happened. Calls of the host that succeeded are events too. -/
namespace StackScript

/-- The machine as it is when a token has been taken to be executed. -/
structure Dispatch where
  /-- The index of the token. -/
  index : Nat
  kind : TokenKind
  /-- How many constructs are open. -/
  depth : Nat
  /-- How many values are on the operand stack. -/
  height : Nat
  /-- The labels recorded so far. -/
  labels : Labels
deriving DecidableEq, Repr

/-- Something that happened. -/
inductive Event where
  /-- A source text was split into words. -/
  | scanned (words : Nat)
  /-- The words were read as tokens. -/
  | parsed (tokens : Nat)
  /-- A token is about to be executed. -/
  | dispatched (dispatch : Dispatch)
  /-- A construct that counts as a nesting level was entered. -/
  | entered
  /-- The construct entered last was left. -/
  | left
  /-- The host wrote a line. -/
  | wrote (line : String)
  /-- The host showed a prompt, if there was one, and took a line or met the end of input. -/
  | took (prompt line : Option String)
  /-- A line of input was converted. -/
  | converted (value : Value)
  | bound (name : String) (value : Value)
  /-- A guard decided about the block that opens in a line. -/
  | decided (line : Nat) (taken : Bool)
  | jumped (label : String) (start stop : Nat)
  | stayed (label : String)
  /-- A labelled block was passed over. -/
  | passed (label : String) (start stop : Nat)
  /-- The program ended itself. -/
  | exited (code : Int) (pc : Nat)
  /-- The program ended by a fault of a family. -/
  | failed (category : String) (pc : Nat)
deriving DecidableEq, Repr

/-- How much detail a log must show to hold an event. -/
inductive LogLevel where
  | trace
  | debug
deriving DecidableEq, Repr

/-- How a log refers to a level. -/
def LogLevel.name : LogLevel → String
  | trace => "TRACE"
  | debug => "DEBUG"

namespace Event

/-- The level at which an event is logged and what it says there. Calls of the host and nesting
levels are not logged. -/
def logged? : Event → Option (LogLevel × String)
  | entered | left | wrote _ | took _ _ => none
  | dispatched dispatch =>
    some (.trace, "dispatch pc=" ++ dispatch.index.repr ++ " kind=" ++ dispatch.kind.name)
  | scanned words => some (.debug, "scanned lexemes=" ++ words.repr)
  | parsed tokens => some (.debug, "parsed tokens=" ++ tokens.repr)
  | converted value => some (.debug, "input read value=" ++ value.text)
  | bound name value =>
    some (.debug, "variable bound name=" ++ name ++ " value=" ++ value.text)
  | decided line taken =>
    some (.debug, "if line=" ++ line.repr ++ " taken=" ++ boolText taken)
  | jumped label start stop =>
    some (.debug,
      "jump taken label=" ++ label ++ " section=" ++ start.repr ++ " end=" ++ stop.repr)
  | stayed label => some (.debug, "jump not taken label=" ++ label)
  | passed label start stop =>
    some (.debug,
      "section skipped label=" ++ label ++ " start=" ++ start.repr ++ " end=" ++ stop.repr)
  | exited code pc => some (.debug, "program exited code=" ++ code.repr ++ " pc=" ++ pc.repr)
  | failed category pc =>
    some (.debug, "program failed category=" ++ category ++ " pc=" ++ pc.repr)

/-- The line that an event leaves in a log that shows all levels. -/
def logLine? (event : Event) : Option String :=
  event.logged?.map fun (level, text) => level.name ++ " " ++ text

end Event

end StackScript
