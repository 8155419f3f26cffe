import StackScript.Machine.Operand
import StackScript.Token.Search
import StackScript.Value.Operation

/-! Operators between two operands, negation and assignment. -/
namespace StackScript.Exec

variable {m : Type → Type} [Monad m]

/-- The operand to the left of an operator with an index: the variable that stands right before
it, or else the top of the operand stack. -/
def operandBefore (index : Nat) : Exec m Value := do
  match tokenBefore? (← get).tokens index with
  | some token => if token.kind = .identifier then lookup token else pop
  | none => pop

/-- Stops because an operator does not apply to the types of its operands. -/
def refuseTypes {α : Type} (operator : String) (left right : Value) : Exec m α := do
  raise (.meant (.typeMismatch operator left.type.name right.type.name (← lastPlace)))

/-- Applies an operator, reported by a name, to the operand before the token at `index` and to
the expression that comes next. -/
def compare (inner? : Option (Level m)) (operator : Operator) (name : String)
    (index : Nat) : Exec m Bool := do
  let left ← operandBefore index
  let right ← expression inner?
  match operator.apply? left right with
  | some result => return result
  | none => refuseTypes name left right

/-- The index of the token that was taken last. -/
def lastIndex : Exec m Nat := return (← get).pc - 1

/-- Executes an operator whose token has been taken. -/
def binary (inner? : Option (Level m)) (operator : Operator) : Exec m Unit := do
  let result ← compare inner? operator operator.keyword (← lastIndex)
  push (.boolean result)

/-- Executes a negation whose token has been taken. Before `EQ` it negates the comparison. -/
def negate (inner? : Option (Level m)) : Exec m Unit := do
  let index ← lastIndex
  if (← current?).any (·.kind = .binary .equal) then
    skip 1
    let result ← compare inner? .equal "NOT EQ" index
    push (.boolean !result)
  else
    let flag ← boolean inner? "NOT"
    push (.boolean !flag)

/-- Takes a keyword that must come next. -/
def takeKeyword (kind : TokenKind) (keyword : String) : Exec m Unit := do
  let token ← consume
  if token.kind ≠ kind then
    raise (.written (.expectedKeyword keyword token.mention token.position))

/-- Takes the name of the variable to assign to. -/
def takeTarget : Exec m String := do
  let token ← consume
  match token.kind, token.name? with
  | .identifier, some name => return name
  | _, _ => raise (.written (.expectedIdentifier "TO" token.mention token.position))

/-- Executes an assignment whose first keyword has been taken. -/
def assignment (inner? : Option (Level m)) (keyword : Token) : Exec m Unit := do
  if keyword.kind = .declare then
    takeKeyword .assign "ASSIGN"
  let result ← value inner?
  takeKeyword .target "TO"
  let name ← takeTarget
  assign name result

end StackScript.Exec
