import StackScript.Event
import StackScript.Stack
import StackScript.Token.Search

/-! The machine that executes a program: the tokens, a program counter, and what the program
has left behind so far. A machine can be run again after it has stopped; it goes on from where
its counter was left. -/
namespace StackScript

/-- A program and the state of its execution. -/
structure Machine where
  tokens : Array Token
  /-- The index of the next token. -/
  pc : Nat
  stack : Stack
  bindings : Table Value
  labels : Labels
  /-- How many groups, operands, and bodies of blocks are open. -/
  depth : Nat
  /-- What has happened, the last event first. -/
  log : List Event
deriving Repr

namespace Machine

/-- How many constructs may be open at once. -/
def nestingLimit : Nat := 128

/-- A machine at the start of a program. -/
def load (tokens : Array Token) (capacity : Nat) : Machine :=
  { tokens
    pc := 0
    stack := .ofCapacity capacity
    bindings := .empty
    labels := .empty
    depth := 0
    log := [] }

/-- The next token. -/
def current? (machine : Machine) : Option Token := machine.tokens[machine.pc]?

/-- The place of the last token that was taken; a fault that has no better place names it. -/
def lastPlace (machine : Machine) : Position :=
  ((tokenBefore? machine.tokens machine.pc).map Token.position).getD .origin

/-- The number of tokens that have not been taken. -/
def remaining (machine : Machine) : Nat := machine.tokens.size - machine.pc

/-- What has happened, in order. -/
def events (machine : Machine) : List Event := machine.log.reverse

/-- The machine after one more event. -/
def record (machine : Machine) (event : Event) : Machine :=
  { machine with log := event :: machine.log }

end Machine

end StackScript
