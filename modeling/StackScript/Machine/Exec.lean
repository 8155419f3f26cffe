import StackScript.Host
import StackScript.Machine

/-! Executions: actions on a machine that can be interrupted. An interrupted action keeps the
machine as it was when the interruption came, so a program can be resumed. This module holds
the elementary actions; all others are put together from them. -/
namespace StackScript

/-- Why an execution stops before its program ends. -/
inductive Stop where
  /-- The program ends itself. -/
  | exit (code : Int)
  /-- The program cannot go on. -/
  | fault (error : Error)
deriving DecidableEq, Repr

/-- An action on a machine that may call its host and may be interrupted. -/
abbrev Exec (m : Type → Type) := ExceptT Stop (StateT Machine m)

namespace Exec

variable {m : Type → Type} [Monad m] {α : Type}

/-- Stops with a fault. -/
def raise (error : Error) : Exec m α := throw (.fault error)

/-- The next token, left where it is. -/
def current? : Exec m (Option Token) := return (← get).current?

/-- The place of the last token that was taken. -/
def lastPlace : Exec m Position := return (← get).lastPlace

/-- Adds an event to the log. -/
def record (event : Event) : Exec m Unit := modify (·.record event)

/-- Goes past `count` tokens that have been looked at already. -/
def skip (count : Nat) : Exec m Unit :=
  modify fun machine => { machine with pc := machine.pc + count }

/-- Goes on at the token with an index. -/
def goTo (index : Nat) : Exec m Unit := modify fun machine => { machine with pc := index }

/-- Takes the next token. -/
def consume : Exec m Token := do
  match ← current? with
  | some token =>
    skip 1
    return token
  | none => raise (.executed (.unexpectedEndOfInput (← lastPlace)))

/-- Puts a value on the operand stack. -/
def push (value : Value) : Exec m Unit := do
  let machine ← get
  match machine.stack.push value with
  | .ok stack => set { machine with stack }
  | .error error => raise (.executed error)

/-- Takes a value off the operand stack. -/
def pop : Exec m Value := do
  let machine ← get
  match machine.stack.pop with
  | .ok (value, stack) =>
    set { machine with stack }
    return value
  | .error error => raise (.executed error)

/-- The value of the variable that a token names. -/
def lookup (token : Token) : Exec m Value := do
  match (← get).bindings.get? token.nameOrEmpty with
  | some value => return value
  | none => raise (.meant (.undefinedVariable token.nameOrEmpty token.position))

/-- Gives a variable a value. -/
def assign (name : String) (value : Value) : Exec m Unit := do
  record (.bound name value)
  modify fun machine => { machine with bindings := machine.bindings.insert name value }

/-- Records a label, which must be new. -/
def addLabel (label : String) (range : BlockRange) (position : Position) : Exec m Unit := do
  let machine ← get
  match machine.labels.add label range position with
  | .ok labels => set { machine with labels }
  | .error error => raise (.meant error)

/-- Sets the block of a recorded label. -/
def locateLabel (label : String) (start stop : Nat) : Exec m Unit :=
  modify fun machine => { machine with labels := machine.labels.locate label start stop }

/-- Has the host write a line. -/
def writeLine [Host m] (line : String) : Exec m Unit := do
  match ← (Host.writeLine line : m _) with
  | .ok () => record (.wrote line)
  | .error reason => raise (.executed (.hostFailure reason))

/-- Has the host show a prompt, if there is one, and take a line of input. -/
def readLine [Host m] (prompt : Option String) : Exec m (Option String) := do
  match ← (Host.readLine prompt : m _) with
  | .ok line =>
    record (.took prompt line)
    return line
  | .error reason => raise (.executed (.hostFailure reason))

/-- Counts one more open construct while `body` is executed, however it ends. -/
def counted (body : Exec m α) : Exec m α :=
  ExceptT.mk do
    modify fun machine => { machine.record .entered with depth := machine.depth + 1 }
    let result ← body.run
    modify fun machine => { machine.record .left with depth := machine.depth - 1 }
    return result

/-- Repeats `body` as long as `test` asks for it, at most `count` times, and tests once more
after the last time. -/
def repeatWhile (test : Exec m Bool) (body : α → Exec m α) : Nat → α → Exec m α
  | 0, result => do
    let _ ← test
    return result
  | count + 1, result => do
    if ← test then
      repeatWhile test body count (← body result)
    else
      return result

/-- Repeats `body` as long as `test` asks for it. Each time takes at least one token and
nothing is asked for when no token is left, so the number of tokens left is enough. -/
def whileTokens (test : Exec m Bool) (body : α → Exec m α) (start : α) : Exec m α := do
  repeatWhile test body (← get).remaining start

end Exec

end StackScript
