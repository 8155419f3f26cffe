import StackScript.Machine.Run
import StackScript.Token.Reader

/-! Programs from their source text: the words of the text, the tokens of the words, and the
run of the tokens. -/
namespace StackScript.Program

/-- The tokens of a source text. -/
def tokenize (source : String) : Except Error (List Token) :=
  (Reader.read (Word.scan source)).mapError .written

/-- The events of reading a source text. -/
def readingEvents (source : String) : List Event :=
  let words := Word.scan source
  .scanned words.length ::
    match Reader.read words with
    | .ok tokens => [.parsed tokens.length]
    | .error _ => []

/-- Reads and runs a source text with an operand stack of a capacity, and gives what happened
as well. -/
def runTraced {m : Type → Type} [Monad m] [Host m] (source : String) (capacity : Nat) :
    m (Except Error Outcome × List Event) :=
  match tokenize source with
  | .error error => return (.error error, readingEvents source)
  | .ok tokens => do
    let (result, machine) ← (Machine.load tokens.toArray capacity).run
    return (result, readingEvents source ++ machine.events)

/-- Reads and runs a source text with an operand stack of a capacity. -/
def run {m : Type → Type} [Monad m] [Host m] (source : String) (capacity : Nat) :
    m (Except Error Outcome) := do
  return (← runTraced source capacity).1

end StackScript.Program
