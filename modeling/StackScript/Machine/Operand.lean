import StackScript.Machine.Exec

/-! Operands. An operand is a literal, a variable, a group in parentheses, or, in the places
that ask for a value, a command. Groups and commands execute tokens themselves; what they
execute stands one nesting level further in. -/
namespace StackScript

/-- What can be executed one nesting level further in. -/
structure Level (m : Type → Type) where
  /-- Takes the next token and executes it. -/
  step : Exec m Unit
  /-- Executes a command whose token has been taken. -/
  perform : Command → Exec m Unit

namespace Exec

variable {m : Type → Type} [Monad m] {α : Type}

/-- Executes `body` one nesting level further in, if there is one: `inner?` is missing when
the nesting limit is reached. -/
def inside (inner? : Option (Level m)) (position : Position) (body : Level m → Exec m α) :
    Exec m α :=
  match inner? with
  | some inner => counted (body inner)
  | none => raise (.executed (.nestingTooDeep Machine.nestingLimit position))

/-- Whether a group goes on. Its closing parenthesis is taken. -/
def groupContinues (opener : Token) : Exec m Bool := do
  match ← current? with
  | none => raise (.executed (.unmatchedParen opener.position))
  | some token =>
    if token.kind = .rightParen then
      skip 1
      return false
    else
      return true

/-- Executes the tokens of a group, whose opening parenthesis has been taken. Its value is what
is then on top of the operand stack. -/
def group (inner? : Option (Level m)) (opener : Token) : Exec m Value :=
  inside inner? opener.position fun inner => do
    whileTokens (groupContinues opener) (fun _ => inner.step) ()
    pop

/-- The value of an expression whose first token has been taken: a literal, a variable or a
group. Any other token stands for its own literal. -/
def expressionFrom (inner? : Option (Level m)) (token : Token) : Exec m Value :=
  match token.kind with
  | .leftParen => group inner? token
  | .identifier => lookup token
  | _ => return .ofLiteral token.literal

/-- Takes an expression. -/
def expression (inner? : Option (Level m)) : Exec m Value := do
  expressionFrom inner? (← consume)

/-- Whether a name stands for the top of the operand stack where a value is asked for: a single
character does, and so does every name that starts with an `S`. -/
def standsForTop (name : String) : Bool :=
  match name.toList with
  | [_] => true
  | 'S' :: _ => true
  | _ => false

/-- The value that starts with a token that has been taken: that of a command, whose result
comes off the stack, the top of the stack, or what is also an expression. -/
def valueFrom (inner? : Option (Level m)) (token : Token) : Exec m Value :=
  match token.kind with
  | .command command =>
    inside inner? token.position fun inner => do
      inner.perform command
      pop
  | .leftParen => group inner? token
  | .identifier => if token.name?.any standsForTop then pop else lookup token
  | _ => return .ofLiteral token.literal

/-- Takes a value. -/
def value (inner? : Option (Level m)) : Exec m Value := do
  valueFrom inner? (← consume)

/-- Takes an expression that must be a boolean. -/
def boolean (inner? : Option (Level m)) (operator : String) : Exec m Bool := do
  match ← expression inner? with
  | .boolean flag => return flag
  | other =>
    raise (.meant (.unexpectedType operator "a boolean" other.type.name (← lastPlace)))

end Exec

end StackScript
