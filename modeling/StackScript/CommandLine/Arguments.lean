import StackScript.Stack
import StackScript.Text.Plain

/-! The arguments of the command line. Options may stand anywhere; a word that is no option is
the file to run, or the value of the option right before it; after `--` every word is a file.
A word is checked when the next option is taken or no arguments are left, so an argument that
has no place is reported before a word in front of it that cannot be used. -/
namespace StackScript.CommandLine

/-- What the command line is asked to do. -/
structure Arguments where
  /-- The path of the file to run. -/
  file : String
  capacity : Nat
  /-- Whether to show the tokens of the file instead of running it. -/
  tokens : Bool
  /-- Whether to show the operand stack after the run. -/
  stack : Bool
  /-- Whether to log what happens. -/
  verbose : Bool
deriving DecidableEq, Repr

/-- The options that are given or not. -/
inductive Switch where
  | tokens
  | stack
  | verbose
deriving DecidableEq, Repr

/-- What an option asks for. -/
inductive Flag where
  | capacity
  | switch (switch : Switch)
  | version
  | help
deriving DecidableEq, Repr

namespace Flag

/-- The option with a long name. -/
def ofLong? : String → Option Flag
  | "stack-capacity" => some capacity
  | "tokens" => some (switch .tokens)
  | "stack" => some (switch .stack)
  | "verbose" => some (switch .verbose)
  | "version" => some version
  | "help" => some help
  | _ => none

/-- The option with a short name. -/
def ofShort? : Char → Option Flag
  | 'v' => some (switch .verbose)
  | 'V' => some version
  | 'h' => some help
  | _ => none

/-- How a message refers to an option. -/
def text : Flag → String
  | capacity => "--stack-capacity <STACK_CAPACITY>"
  | switch .tokens => "--tokens"
  | switch .stack => "--stack"
  | switch .verbose => "--verbose"
  | version => "--version"
  | help => "--help"

end Flag

/-- Why the arguments cannot be used. -/
inductive UsageError where
  | unexpectedArgument (argument : String)
  | unexpectedValue (value : String) (flag : Flag)
  | invalidCapacity (value reason : String)
  | missingValue (argument : String)
  | repeated (flag : Flag)
  | missingFile
deriving DecidableEq, Repr

/-- The text of a usage error. What the user wrote is shown as plain text. -/
def UsageError.message : UsageError → String
  | unexpectedArgument argument =>
    "unexpected argument '" ++ Text.plain argument ++ "' found"
  | unexpectedValue value flag =>
    "unexpected value '" ++ Text.plain value ++ "' for '" ++ flag.text ++
      "' found; no more were expected"
  | invalidCapacity value reason =>
    "invalid value '" ++ Text.plain value ++ "' for '" ++ Flag.capacity.text ++ "': " ++ reason
  | missingValue argument =>
    "a value is required for '" ++ argument ++ "' but none was supplied"
  | repeated flag => "the argument '" ++ flag.text ++ "' cannot be used multiple times"
  | missingFile => "the following required arguments were not provided:\n  <FILE>"

/-- Why the arguments ask for no run. -/
inductive Halt where
  | version
  | help
  | refused (error : UsageError)
deriving DecidableEq, Repr

/-- An argument that has been seen and not been checked. -/
inductive Pending where
  /-- A capacity, with its value if that has been seen. -/
  | capacity (value? : Option String)
  | file (path : String)
deriving DecidableEq, Repr

/-- The arguments seen so far. -/
structure Seen where
  file? : Option String
  capacity? : Option Nat
  switches : List Switch
  /-- The last argument, if it has not been checked. -/
  pending? : Option Pending
deriving DecidableEq, Repr

/-- The largest capacity that can be asked for. -/
def maxCapacity : Nat := 18446744073709551615

/-- Reads the digits that follow those of a value. The first character that is no digit is
refused, and so is the first digit that makes the value too large. -/
def readDigits (value : Nat) : List Char → Except String Nat
  | [] => .ok value
  | c :: rest =>
    if '0' ≤ c ∧ c ≤ '9' then
      let next := 10 * value + (c.toNat - '0'.toNat)
      if next ≤ maxCapacity then readDigits next rest
      else .error "number too large to fit in target type"
    else
      .error "invalid digit found in string"

/-- Reads a capacity: decimal digits, after a plus sign if there is one. -/
def readCapacity (text : String) : Except String Nat :=
  match text.toList with
  | [] => .error "cannot parse integer from empty string"
  | ['+'] => .error "invalid digit found in string"
  | '+' :: digits => readDigits 0 digits
  | digits => readDigits 0 digits

namespace Seen

/-- No argument seen. -/
def empty : Seen := ⟨none, none, [], none⟩

/-- Takes a capacity, which may be asked for once. -/
def setCapacity (seen : Seen) (value : String) : Except Halt Seen :=
  if seen.capacity?.isSome then
    .error (.refused (.repeated .capacity))
  else
    match readCapacity value with
    | .ok capacity => .ok { seen with capacity? := some capacity, pending? := none }
    | .error reason => .error (.refused (.invalidCapacity value reason))

/-- Takes the file, which has a path. -/
def setFile (seen : Seen) (path : String) : Except Halt Seen :=
  if path.isEmpty then
    .error (.refused (.missingValue "<FILE>"))
  else
    .ok { seen with file? := some path, pending? := none }

/-- Checks the last argument, if that has not been done. -/
def settle (seen : Seen) : Except Halt Seen :=
  match seen.pending? with
  | none => .ok seen
  | some (.capacity none) => .error (.refused (.missingValue Flag.capacity.text))
  | some (.capacity (some value)) => seen.setCapacity value
  | some (.file path) => seen.setFile path

/-- Whether a file has been given, checked or not. -/
def hasFile (seen : Seen) : Bool :=
  seen.file?.isSome || match seen.pending? with
    | some (.file _) => true
    | _ => false

/-- Takes an option. -/
def addFlag (seen : Seen) (flag : Flag) : Except Halt Seen := do
  let seen ← seen.settle
  match flag with
  | .capacity => return { seen with pending? := some (.capacity none) }
  | .switch switch =>
    if switch ∈ seen.switches then throw (.refused (.repeated flag))
    else return { seen with switches := switch :: seen.switches }
  | .version => throw .version
  | .help => throw .help

/-- Takes an option written with its long name, and perhaps a value after an equals sign. -/
def addLong (seen : Seen) (name : String) (value? : Option String) : Except Halt Seen :=
  match Flag.ofLong? name, value? with
  | none, _ => throw (.refused (.unexpectedArgument ("--" ++ name)))
  | some .capacity, some value => do
    let seen ← seen.settle
    seen.setCapacity value
  | some flag, some value => throw (.refused (.unexpectedValue value flag))
  | some flag, none => seen.addFlag flag

/-- Takes options written with their short names. -/
def addShorts (seen : Seen) : List Char → Except Halt Seen
  | [] => .ok seen
  | c :: rest =>
    match Flag.ofShort? c with
    | none => throw (.refused (.unexpectedArgument (String.ofList ['-', c])))
    | some flag => do
      let seen ← seen.addFlag flag
      seen.addShorts rest

/-- Takes a word as the file, which may be given once. -/
def addFile (seen : Seen) (path : String) : Except Halt Seen := do
  if seen.hasFile then
    throw (.refused (.unexpectedArgument path))
  let seen ← seen.settle
  return { seen with pending? := some (.file path) }

/-- Takes a word that is no option: the value of the option right before it, or the file. -/
def addWord (seen : Seen) (word : String) : Except Halt Seen :=
  match seen.pending? with
  | some (.capacity none) => .ok { seen with pending? := some (.capacity (some word)) }
  | _ => seen.addFile word

/-- What has been asked for, once all arguments are seen. -/
def finish (seen : Seen) : Except Halt Arguments := do
  let seen ← seen.settle
  match seen.file? with
  | none => throw (.refused .missingFile)
  | some file =>
    return {
      file
      capacity := seen.capacity?.getD Stack.defaultCapacity
      tokens := decide (.tokens ∈ seen.switches)
      stack := decide (.stack ∈ seen.switches)
      verbose := decide (.verbose ∈ seen.switches) }

end Seen

/-- Reads the arguments one after another. -/
def readArguments (seen : Seen) : List String → Except Halt Arguments
  | [] => seen.finish
  | argument :: rest =>
    match argument.toList with
    | ['-', '-'] => do (← rest.foldlM Seen.addFile seen).finish
    | '-' :: '-' :: long => do
      let name := long.takeWhile (· ≠ '=')
      let value? :=
        if '=' ∈ long then some (String.ofList (long.drop (name.length + 1))) else none
      readArguments (← seen.addLong (String.ofList name) value?) rest
    | '-' :: first :: shorts => do readArguments (← seen.addShorts (first :: shorts)) rest
    | _ => do readArguments (← seen.addWord argument) rest

/-- What a list of arguments asks for. -/
def Arguments.read (arguments : List String) : Except Halt Arguments :=
  readArguments .empty arguments

end StackScript.CommandLine
