import StackScript.Machine.Block
import StackScript.Machine.Command
import StackScript.Machine.Operator

/-! Running a machine: tokens are taken and executed until the program ends, ends itself or
fails. -/
namespace StackScript

namespace Exec

variable {m : Type → Type} [Monad m] [Host m]

/-- The event that a token, which has been taken, is about to be executed. -/
def dispatch (token : Token) : Exec m Unit :=
  modify fun machine =>
    machine.record (.dispatched
      { index := machine.pc - 1
        kind := token.kind
        depth := machine.depth
        height := machine.stack.size
        labels := machine.labels })

/-- Executes a token that has been taken. -/
def execute (inner? : Option (Level m)) (token : Token) : Exec m Unit :=
  match token.kind with
  | .string | .number | .boolean => push (.ofLiteral token.literal)
  | .binary operator => binary inner? operator
  | .not => negate inner?
  | .leftParen => do push (← group inner? token)
  | .declare | .assign => assignment inner? token
  | .command command => perform inner? command
  | .jump => jump inner? token
  | .labelled => passOver token
  | .conditional => conditional inner? token
  | .rightParen | .identifier | .target | .cast _ | .blockEnd => return

/-- Takes the next token and executes it. -/
def stepWith (inner? : Option (Level m)) : Exec m Unit := do
  let token ← consume
  dispatch token
  execute inner? token

/-- What can be executed inside a construct when `levels` more may be nested. -/
def level? : Nat → Option (Level m)
  | 0 => none
  | levels + 1 => some ⟨stepWith (level? levels), perform (level? levels)⟩

/-- What can be executed inside a construct of the machine as it is. -/
def inner? : Exec m (Option (Level m)) :=
  return level? (Machine.nestingLimit - (← get).depth)

/-- Takes the next token and executes it. -/
def step : Exec m Unit := do stepWith (← inner?)

/-- Takes an expression. -/
def evaluateExpression : Exec m Value := do expression (← inner?)

/-- Takes a value. -/
def evaluateValue : Exec m Value := do value (← inner?)

/-- Executes tokens until none is left. -/
def toEnd : Exec m Unit :=
  whileTokens (return (← get).pc < (← get).tokens.size) (fun _ => step) ()

end Exec

/-- How a run that does not fail ends. -/
inductive Outcome where
  /-- No token was left; the values on the operand stack, bottom first. -/
  | completed (stack : List Value)
  /-- The program ended itself. -/
  | exited (code : Int)
deriving DecidableEq, Repr

/-- The outcome of a walk over the tokens, and the machine after it. A walk that was stopped is
logged. -/
def Machine.conclude (machine : Machine) : Except Stop Unit → Except Error Outcome × Machine
  | .ok () => (.ok (.completed machine.stack.bottomUp), machine)
  | .error (.exit code) => (.ok (.exited code), machine.record (.exited code machine.pc))
  | .error (.fault error) => (.error error, machine.record (.failed error.category machine.pc))

/-- Runs a machine from where it is, and gives the outcome and the machine afterwards. -/
def Machine.run {m : Type → Type} [Monad m] [Host m] (machine : Machine) :
    m (Except Error Outcome × Machine) := do
  let (result, machine) ← (Exec.toEnd.run : StateT Machine m _).run machine
  return machine.conclude result

/-- Runs a machine again and again until a run completes, at most `count` times, and gives each
outcome with the machine after it. -/
def Machine.session {m : Type → Type} [Monad m] [Host m] (machine : Machine) :
    Nat → m (List (Except Error Outcome × Machine))
  | 0 => return []
  | count + 1 => do
    let (outcome, machine) ← machine.run
    match outcome with
    | .ok (.completed _) => return [(outcome, machine)]
    | _ => return (outcome, machine) :: (← machine.session count)

end StackScript
