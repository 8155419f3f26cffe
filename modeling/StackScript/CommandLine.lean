import StackScript.CommandLine.Arguments
import StackScript.CommandLine.Console
import StackScript.Program

/-! The command line: runs the program in a file, or shows its tokens. -/
namespace StackScript.CommandLine

variable {m : Type → Type} [Monad m] [Console m]

/-- What `--version` shows. -/
def versionText : String := "stackline 0.1.0"

/-- How the command line is used. -/
def usageText : String := "Usage: stackline [OPTIONS] <FILE>"

/-- What `--help` shows. -/
def helpText : String :=
  usageText ++ "\n\nArguments:\n  <FILE>  The program to run\n\nOptions:\n" ++
    "      --stack-capacity <STACK_CAPACITY>  How many values the operand stack may hold\n" ++
    "      --tokens                           Show the tokens instead of running them\n" ++
    "      --stack                            Show the operand stack after the run\n" ++
    "  -v, --verbose                          Log what happens\n" ++
    "  -h, --help                             Show this help\n" ++
    "  -V, --version                          Show the version\n"

/-- The exit status of a program that ends itself: the code, cut to one byte. -/
def statusOfCode (code : Int) : Nat := (code % 256).toNat

/-- Reports a fault and gives the exit status. -/
def reportFault (error : Error) : m Nat := do
  Console.err ("\n" ++ error.message ++ "\n")
  return 1

/-- Shows the tokens of a source text, one row each. -/
def showTokens (source : String) : m Nat := do
  match Program.tokenize source with
  | .error error => reportFault error
  | .ok tokens =>
    tokens.forM fun token => Console.outLine token.row
    return 0

/-- Writes the events of a run to the log, those left out that only tracing shows. -/
def logEvents (events : List Event) : m Unit :=
  (events.filterMap Event.logged?).forM fun (level, text) =>
    match level with
    | .debug => Console.log (level.name ++ " " ++ text)
    | .trace => return

/-- Runs a source text. -/
def runSource (arguments : Arguments) (source : String) : m Nat := do
  let (result, events) ← Program.runTraced source arguments.capacity
  if arguments.verbose then
    logEvents events
  match result with
  | .error error => reportFault error
  | .ok (.exited code) => return statusOfCode code
  | .ok (.completed stack) =>
    if arguments.stack then
      stack.forM fun value => Console.outLine value.text
    return 0

/-- The source text in a file. -/
def readSource (path : String) : m (Except String String) := do
  return (← Console.readFile path).bind Console.decode

/-- Does what the arguments ask for and gives the exit status. -/
def run (arguments : List String) : m Nat := do
  match Arguments.read arguments with
  | .error .version =>
    Console.outLine versionText
    return 0
  | .error .help =>
    Console.out helpText
    return 0
  | .error (.refused error) =>
    Console.err ("error: " ++ error.message ++ "\n\n" ++ usageText ++
      "\n\nFor more information, try '--help'.\n")
    return 2
  | .ok arguments =>
    match ← readSource arguments.file with
    | .error reason =>
      Console.err ("CLI >> Failed to read '" ++ arguments.file ++ "': " ++ reason ++ "\n")
      return 1
    | .ok source =>
      if arguments.tokens then showTokens source else runSource arguments source

end StackScript.CommandLine
