import StackScript.Machine.Operand
import StackScript.Token.Search

/-! Blocks. A block reaches up to the next token in the column of the token that opens it; an
`END` there belongs to the block. A guard decides whether a conditional block is executed. A
labelled block is passed over, unless a jump goes to it. -/
namespace StackScript.Exec

variable {m : Type → Type} [Monad m]

/-- Takes the `END` of a block, if it comes next. -/
def takeEnd : Exec m Unit := do
  if (← current?).any (·.kind = .blockEnd) then
    skip 1

/-- Whether the body of a conditional block goes on. -/
def bodyContinues (opener : Token) : Exec m Bool := do
  match ← current? with
  | none => raise (.executed (.unterminatedBlock "IF" opener.position))
  | some token => return token.position.column ≠ opener.position.column

/-- Executes a conditional block, whose opening token has been taken. -/
def conditional (inner? : Option (Level m)) (opener : Token) : Exec m Unit := do
  let taken ← boolean inner? "IF"
  record (.decided opener.position.line taken)
  if taken then
    inside inner? opener.position fun inner =>
      whileTokens (bodyContinues opener) (fun _ => inner.step) ()
  else
    let machine ← get
    match endOfBlock machine.tokens machine.pc opener.position.column with
    | some stop => goTo stop
    | none => raise (.executed (.unterminatedBlock "IF" opener.position))
  takeEnd

/-- Finds the labelled block that a jump goes to: the indices of its opening token and of its
end. -/
def findTarget (label : String) (jump : Token) : Exec m (Nat × Nat) := do
  let machine ← get
  match findBlock machine.tokens machine.pc label with
  | none => raise (.executed (.missingSection label jump.position))
  | some start =>
    let opener := machine.tokens[start]?.getD jump
    match endOfBlock machine.tokens (start + 1) opener.position.column with
    | none => raise (.executed (.unterminatedBlock "SECTION" opener.position))
    | some stop => return (start, stop)

/-- Executes a jump whose guard holds. The label is recorded before its block is looked for. -/
def follow (inner? : Option (Level m)) (jump : Token) : Exec m Unit := do
  let label := jump.nameOrEmpty
  addLabel label .unknown jump.position
  let (start, stop) ← findTarget label jump
  locateLabel label start stop
  record (.jumped label start stop)
  goTo (start + 1)
  inside inner? jump.position fun inner =>
    whileTokens (return (← get).pc < stop) (fun _ => inner.step) ()
  if (← get).pc = stop then
    takeEnd

/-- Executes a jump, whose token has been taken. A label that is recorded already is refused
before the guard is evaluated. -/
def jump (inner? : Option (Level m)) (jump : Token) : Exec m Unit := do
  let label := jump.nameOrEmpty
  if (← get).labels.contains label then
    raise (.meant (.duplicateLabel label jump.position))
  let keyword ← consume
  if keyword.kind ≠ .conditional then
    raise (.written (.expectedKeyword "IF" keyword.mention keyword.position))
  if ← boolean inner? "JUMP" then
    follow inner? jump
  else
    record (.stayed label)

/-- Passes over a labelled block, whose opening token has been taken. -/
def passOver (opener : Token) : Exec m Unit := do
  let label := opener.nameOrEmpty
  let machine ← get
  let start := machine.pc - 1
  match endOfBlock machine.tokens machine.pc opener.position.column with
  | none => raise (.executed (.unterminatedBlock "SECTION" opener.position))
  | some stop =>
    addLabel label ⟨some start, some stop⟩ opener.position
    record (.passed label start stop)
    goTo stop
    takeEnd

end StackScript.Exec
