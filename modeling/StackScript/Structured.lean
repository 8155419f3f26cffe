import StackScript.Expression

/-! Structured programs: assignments, printed lines and conditional blocks as trees, with a
meaning that does without a counter. `isLaidOut` states how such a program must be placed for
its tokens to fall into the same blocks and lines: one statement in a line, and the body of a
block to the right of the token that opens it. -/
namespace StackScript

/-- A sequence of statements, each with the statements after it. -/
inductive Structured where
  | done
  /-- Assigns a value to a variable; a declaration has one more keyword. -/
  | assign (declare? : Option Position) (keyword : Position) (value : Expression)
      (target : Position) (name : String) (place : Position) (rest : Structured)
  /-- Prints the texts of values as one line. -/
  | print (keyword : Position) (values : List Expression) (rest : Structured)
  /-- Executes a body if a guard holds. -/
  | conditional (keyword : Position) (guard : Expression) (body : Structured)
      (closer : Position) (rest : Structured)
deriving DecidableEq, Repr

namespace Structured

/-- The tokens of the first line of an assignment. -/
def assignTokens (declare? : Option Position) (keyword : Position) (value : Expression)
    (target : Position) (name : String) (place : Position) : List Token :=
  (declare?.map fun position => ⟨.declare, .keyword "VAR", position⟩).toList ++
    ⟨.assign, .keyword "ASSIGN", keyword⟩ :: value.tokens ++
    [⟨.target, .keyword "TO", target⟩, ⟨.identifier, .name name, place⟩]

/-- The tokens of a printed line. -/
def printTokens (keyword : Position) (values : List Expression) : List Token :=
  ⟨.command .print, .keyword "PRINT", keyword⟩ :: values.flatMap Expression.tokens

/-- The tokens of the first line of a conditional block. -/
def guardTokens (keyword : Position) (guard : Expression) : List Token :=
  ⟨.conditional, .absent, keyword⟩ :: guard.tokens

/-- The token that closes a conditional block. -/
def closeToken (position : Position) : Token := ⟨.blockEnd, .absent, position⟩

/-- The tokens of a program in order. -/
def tokens : Structured → List Token
  | done => []
  | assign declare? keyword value target name place rest =>
    assignTokens declare? keyword value target name place ++ rest.tokens
  | print keyword values rest => printTokens keyword values ++ rest.tokens
  | conditional keyword guard body closer rest =>
    guardTokens keyword guard ++ body.tokens ++ closeToken closer :: rest.tokens

/-- Whether all expressions of a program stand where they may. -/
def isWellFormed : Structured → Bool
  | done => true
  | assign _ _ value _ _ _ rest => value.isWellFormed && value.isValue && rest.isWellFormed
  | print _ values rest =>
    values.all (fun value => value.isWellFormed && value.isValue) && rest.isWellFormed
  | conditional _ guard body _ rest =>
    guard.isWellFormed && !guard.isBare && body.isWellFormed && rest.isWellFormed

/-- Whether tokens stand in one line to the right of a column, if one is given. -/
def inLine (line : Nat) (bound? : Option Nat) (tokens : List Token) : Bool :=
  tokens.all fun token =>
    token.position.line = line && bound?.all (· < token.position.column)

/-- The line of the last token, or `line` if there is none. -/
def lastLine (line : Nat) (program : Structured) : Nat :=
  (program.tokens.getLast?.map (·.position.line)).getD line

/-- Whether a program is placed from `line` on and to the right of `bound?`, one statement in a
line, bodies to the right of the tokens that open them, and each closing token in the column of
the opening one. -/
def isLaidOut (line : Nat) (bound? : Option Nat) : Structured → Bool
  | done => true
  | assign declare? keyword value target name place rest =>
    line ≤ keyword.line &&
      inLine keyword.line bound? (assignTokens declare? keyword value target name place) &&
      rest.isLaidOut (keyword.line + 1) bound?
  | print keyword values rest =>
    line ≤ keyword.line && inLine keyword.line bound? (printTokens keyword values) &&
      rest.isLaidOut (keyword.line + 1) bound?
  | conditional keyword guard body closer rest =>
    line ≤ keyword.line && inLine keyword.line bound? (guardTokens keyword guard) &&
      body.isLaidOut (keyword.line + 1) (some keyword.column) &&
      body.lastLine keyword.line < closer.line && closer.column = keyword.column &&
      rest.isLaidOut (closer.line + 1) bound?

/-- How many constructs of a program can be open at once: the blocks around a place, and the
height of the operand there. -/
def nesting : Structured → Nat
  | done => 0
  | assign _ _ value _ _ _ rest => max value.height rest.nesting
  | print _ values rest => max ((values.map Expression.height).foldr max 0) rest.nesting
  | conditional _ guard body _ rest => max guard.height (max (body.nesting + 1) rest.nesting)

/-- What a program does: the lines that it prints, and the variables after it or the fault that
ends it. -/
structure Meaning where
  lines : List String
  result : Except Error (Table Value)

/-- The texts of values, one after another. -/
def printed (bindings : Table Value) (levels : Nat) : List Expression → Except Error String
  | [] => .ok ""
  | value :: rest => do
    let text := (← value.evaluate bindings levels).text
    return text ++ (← printed bindings levels rest)

/-- The meaning of two parts one after the other. -/
def Meaning.andThen (first : Meaning) (second : Table Value → Meaning) : Meaning :=
  match first.result with
  | .error error => ⟨first.lines, .error error⟩
  | .ok bindings =>
    let after := second bindings
    ⟨first.lines ++ after.lines, after.result⟩

/-- The meaning of a part that prints nothing. -/
def Meaning.silent (result : Except Error (Table Value)) : Meaning := ⟨[], result⟩

/-- The meaning of a printed line. -/
def Meaning.line (bindings : Table Value) : Except Error String → Meaning
  | .error error => .silent (.error error)
  | .ok line => ⟨[line], .ok bindings⟩

/-- The meaning of a block whose guard is given. Its body stands one level further in, if one is
left. -/
def Meaning.block (keyword : Position) (bindings : Table Value) (body : Nat → Meaning) :
    Except Error Bool → Nat → Meaning
  | .error error, _ => .silent (.error error)
  | .ok false, _ => .silent (.ok bindings)
  | .ok true, 0 => .silent (.error (.executed (.nestingTooDeep Machine.nestingLimit keyword)))
  | .ok true, levels + 1 => body levels

/-- The guard of a block, which must be a boolean. -/
def guardHolds (bindings : Table Value) (levels : Nat) (guard : Expression) :
    Except Error Bool := do
  let value ← guard.evaluate bindings levels
  Expression.demandBoolean "IF" value guard.lastPlace

/-- What a program does when `levels` more constructs may be nested. -/
def meaning (levels : Nat) : Structured → Table Value → Meaning
  | done, bindings => .silent (.ok bindings)
  | assign _ _ value _ name _ rest, bindings =>
    (Meaning.silent ((value.evaluate bindings levels).map (bindings.insert name))).andThen
      (rest.meaning levels)
  | print _ values rest, bindings =>
    (Meaning.line bindings (printed bindings levels values)).andThen (rest.meaning levels)
  | conditional keyword guard body _ rest, bindings =>
    (Meaning.block keyword bindings (fun less => body.meaning less bindings)
      (guardHolds bindings levels guard) levels).andThen (rest.meaning levels)

end Structured

end StackScript
