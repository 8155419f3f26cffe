import StackScript.Machine.Operand
import StackScript.Value.Operation

/-! Commands: arithmetic, input, output, and the end of the program. -/
namespace StackScript

/-- Whether a token can be one of the values of a command whose line it stands in. -/
def Token.continues (token : Token) (line : Nat) : Bool :=
  token.position.line = line &&
    match token.kind with
    | .conditional | .blockEnd | .jump | .labelled | .rightParen => false
    | _ => true

namespace Exec

variable {m : Type → Type} [Monad m]

/-- Executes an arithmetic operation on the two values that come next. -/
def arithmetic (inner? : Option (Level m)) (operation : Arithmetic) : Exec m Unit := do
  let left ← value inner?
  let right ← value inner?
  match operation.apply left right with
  | .ok result => push result
  | .error .divisionByZero => raise (.executed (.divisionByZero (← lastPlace)))
  | .error .mismatch =>
    raise (.meant (.typeMismatch (Command.arithmetic operation).keyword left.type.name
      right.type.name (← lastPlace)))

/-- Takes the type that a line of input is to be converted to, if one comes next. -/
def takeCast : Exec m (Option Cast) := do
  match (← current?).map Token.kind with
  | some (.cast type) =>
    skip 1
    return some type
  | _ => return none

/-- Takes the prompt of a line of input, if one comes next: `AND PRINT` and a value. -/
def takePrompt (inner? : Option (Level m)) : Exec m (Option String) := do
  let machine ← get
  let next? := machine.current?.map Token.kind
  let following? := machine.tokens[machine.pc + 1]?.map Token.kind
  if next? = some (.binary .and) ∧ following? = some (.command .print) then
    skip 2
    return some (← value inner?).text
  else
    return none

/-- Executes the taking of a line of input: its value goes on the operand stack. -/
def takeInput [Host m] (inner? : Option (Level m)) : Exec m Unit := do
  let cast ← takeCast
  let prompt ← takePrompt inner?
  let result ← match ← readLine prompt with
    | none => pure Value.null
    | some line =>
      match Value.ofInput? cast line with
      | some value => pure value
      | none => raise (.meant (.invalidConversion line "NUM" (← lastPlace)))
  record (.converted result)
  push result

/-- Whether one more value stands in the line of the token that was taken last. -/
def moreOnLine : Exec m Bool := do
  let line := (← lastPlace).line
  return (← current?).any (·.continues line)

/-- Executes the writing of a line: the texts of all values in the rest of the source line. -/
def print [Host m] (inner? : Option (Level m)) : Exec m Unit := do
  let line ← whileTokens moreOnLine (fun text => return text ++ (← value inner?).text) ""
  writeLine line

/-- Executes the end of the program, with the value in the rest of the line as its code. -/
def exit (inner? : Option (Level m)) : Exec m Unit := do
  if ← moreOnLine then
    let code ← value inner?
    let valid? : Option Int :=
      match code with
      | .number number => Number.toWord32? number
      | _ => none
    match valid? with
    | some code => throw (.exit code)
    | none => raise (.meant (.invalidExitCode code.text (← lastPlace)))
  else
    throw (.exit 0)

/-- Executes a command whose token has been taken. -/
def perform [Host m] (inner? : Option (Level m)) : Command → Exec m Unit
  | .arithmetic operation => arithmetic inner? operation
  | .read => takeInput inner?
  | .print => print inner?
  | .exit => exit inner?

end Exec

end StackScript
