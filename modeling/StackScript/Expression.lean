import StackScript.Machine

/-! Expressions as trees. A program has no syntax tree, but the operands that are literals,
variables, full groups and arithmetic have one, and a meaning that does without a stack and a
counter. Each tree keeps the places of its tokens, because faults name them. -/
namespace StackScript

/-- An operand as a tree. -/
inductive Expression where
  /-- A string, a number or a boolean. -/
  | literal (token : Token)
  /-- A variable. -/
  | name (text : String) (position : Position)
  /-- Two operands in parentheses with an operator between them. -/
  | compare (opener : Position) (left : Expression) (operator : Operator) (sign : Position)
      (right : Expression) (closer : Position)
  /-- Two operands in parentheses with `NOT EQ` between them. -/
  | differ (opener : Position) (left : Expression) (not equal : Position) (right : Expression)
      (closer : Position)
  /-- An operand in parentheses with `NOT` in front. -/
  | negate (opener sign : Position) (operand : Expression) (closer : Position)
  /-- Two operands with an arithmetic command in front, in parentheses if their places are
  given. -/
  | arithmetic (parens? : Option (Position × Position)) (operation : Arithmetic)
      (sign : Position) (left right : Expression)
deriving DecidableEq, Repr

namespace Expression

/-- The token of an opening parenthesis. -/
def openToken (position : Position) : Token := ⟨.leftParen, .absent, position⟩

/-- The token of a closing parenthesis. -/
def closeToken (position : Position) : Token := ⟨.rightParen, .absent, position⟩

/-- The token of an operator. -/
def operatorToken (operator : Operator) (position : Position) : Token :=
  ⟨.binary operator, .keyword operator.keyword, position⟩

/-- The token of a negation. -/
def notToken (position : Position) : Token := ⟨.not, .keyword "NOT", position⟩

/-- The token of an arithmetic command. -/
def arithmeticToken (operation : Arithmetic) (position : Position) : Token :=
  let command := Command.arithmetic operation
  ⟨.command command, .keyword command.keyword, position⟩

/-- The tokens of a tree in order. -/
def tokens : Expression → List Token
  | literal token => [token]
  | name text position => [⟨.identifier, .name text, position⟩]
  | compare opener left operator sign right closer =>
    openToken opener :: left.tokens ++ operatorToken operator sign :: right.tokens ++
      [closeToken closer]
  | differ opener left not equal right closer =>
    openToken opener :: left.tokens ++ notToken not :: operatorToken .equal equal ::
      right.tokens ++ [closeToken closer]
  | negate opener sign operand closer =>
    openToken opener :: notToken sign :: operand.tokens ++ [closeToken closer]
  | arithmetic none operation sign left right =>
    arithmeticToken operation sign :: left.tokens ++ right.tokens
  | arithmetic (some (opener, closer)) operation sign left right =>
    openToken opener :: arithmeticToken operation sign :: left.tokens ++ right.tokens ++
      [closeToken closer]

/-- The place of the last token. -/
def lastPlace : Expression → Position
  | literal token => token.position
  | name _ position => position
  | compare _ _ _ _ _ closer | differ _ _ _ _ _ closer | negate _ _ _ closer
  | arithmetic (some (_, closer)) _ _ _ _ => closer
  | arithmetic none _ _ _ right => right.lastPlace

/-- Whether a tree is a command without parentheses, which stands only where a value is asked
for. -/
def isBare : Expression → Bool
  | arithmetic none _ _ _ _ => true
  | _ => false

/-- Whether a tree keeps its meaning where a value is asked for: the name of a variable must not
be a single character or start with an `S`. -/
def isValue : Expression → Bool
  | name text _ => text.toList.length ≠ 1 && text.toList.head? ≠ some 'S'
  | _ => true

/-- Whether all parts of a tree stand where they may. -/
def isWellFormed : Expression → Bool
  | literal token => token.kind = .string || token.kind = .number || token.kind = .boolean
  | name _ _ => true
  | compare _ left _ _ right _ | differ _ left _ _ right _ =>
    left.isWellFormed && right.isWellFormed && !left.isBare && !right.isBare
  | negate _ _ operand _ => operand.isWellFormed && !operand.isBare
  | arithmetic _ _ _ left right =>
    left.isWellFormed && right.isWellFormed && left.isValue && right.isValue

/-- How many groups and commands of a tree are open at once at most. -/
def height : Expression → Nat
  | literal _ | name _ _ => 0
  | negate _ _ operand _ => operand.height + 1
  | compare _ left _ _ right _ | differ _ left _ _ right _ | arithmetic _ _ _ left right =>
    max left.height right.height + 1

/-- Goes one nesting level further in, if one is left. -/
def inside {α : Type} (levels : Nat) (position : Position) (body : Nat → Except Error α) :
    Except Error α :=
  match levels with
  | 0 => .error (.executed (.nestingTooDeep Machine.nestingLimit position))
  | levels + 1 => body levels

/-- The fault that an operator does not apply. -/
def mismatch (operator : String) (left right : Value) (position : Position) : Error :=
  .meant (.typeMismatch operator left.type.name right.type.name position)

/-- The rules of the operators, one type after the other: values of every type are equal or not,
numbers have an order, and booleans can be connected. Nothing is said of other pairs of values. -/
def operatorRule? (operator : Operator) (left right : Value) : Option Bool :=
  match left, right with
  | .string first, .string second =>
    match operator with
    | .equal => some (first == second)
    | _ => none
  | .number first, .number second =>
    match operator with
    | .equal => some (first == second)
    | .greater => some (first > second)
    | .greaterEqual => some (first ≥ second)
    | .less => some (first < second)
    | .lessEqual => some (first ≤ second)
    | .and | .or => none
  | .boolean first, .boolean second =>
    match operator with
    | .equal => some (first == second)
    | .and => some (first && second)
    | .or => some (first || second)
    | _ => none
  | .null, .null =>
    match operator with
    | .equal => some true
    | _ => none
  | _, _ => none

/-- Applies an operator between two values. -/
def applyOperator (operator : Operator) (name : String) (left right : Value)
    (position : Position) : Except Error Bool :=
  match operatorRule? operator left right with
  | some result => .ok result
  | none => .error (mismatch name left right position)

/-- Applies an arithmetic operation: any of them to two numbers, unless it divides by zero, and
addition to two strings. -/
def applyArithmetic (operation : Arithmetic) (left right : Value) (position : Position) :
    Except Error Value :=
  let refused := .error (mismatch (Command.arithmetic operation).keyword left right position)
  match left, right with
  | .number first, .number second =>
    match operation with
    | .add => .ok (.number (first + second))
    | .sub => .ok (.number (first - second))
    | .mul => .ok (.number (first * second))
    | .div =>
      -- Both zeros are refused, as they are equal to each other.
      if second == 0.0 then .error (.executed (.divisionByZero position))
      else .ok (.number (first / second))
  | .string first, .string second =>
    match operation with
    | .add => .ok (.string (first ++ second))
    | _ => refused
  | _, _ => refused

/-- Demands a boolean. -/
def demandBoolean (operator : String) (value : Value) (position : Position) :
    Except Error Bool :=
  match value with
  | .boolean flag => .ok flag
  | other => .error (.meant (.unexpectedType operator "a boolean" other.type.name position))

/-- The value of a tree when `levels` more constructs may be nested. The left operand comes
before the right one, and both before the operator. -/
def evaluate (bindings : Table Value) : Nat → Expression → Except Error Value
  | _, literal token => .ok (.ofLiteral token.literal)
  | _, name text position =>
    match bindings.get? text with
    | some value => .ok value
    | none => .error (.meant (.undefinedVariable text position))
  | levels, compare opener left operator _ right _ =>
    inside levels opener fun levels => do
      let leftValue ← left.evaluate bindings levels
      let rightValue ← right.evaluate bindings levels
      return .boolean
        (← applyOperator operator operator.keyword leftValue rightValue right.lastPlace)
  | levels, differ opener left _ _ right _ =>
    inside levels opener fun levels => do
      let leftValue ← left.evaluate bindings levels
      let rightValue ← right.evaluate bindings levels
      return .boolean !(← applyOperator .equal "NOT EQ" leftValue rightValue right.lastPlace)
  | levels, negate opener _ operand _ =>
    inside levels opener fun levels => do
      let value ← operand.evaluate bindings levels
      return .boolean !(← demandBoolean "NOT" value operand.lastPlace)
  | levels, arithmetic parens? operation sign left right =>
    inside levels ((parens?.map Prod.fst).getD sign) fun levels => do
      let leftValue ← left.evaluate bindings levels
      let rightValue ← right.evaluate bindings levels
      applyArithmetic operation leftValue rightValue right.lastPlace

end Expression

end StackScript
