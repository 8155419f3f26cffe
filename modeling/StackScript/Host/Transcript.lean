import StackScript.Host

/-! A host kept in memory: it hands out given lines of input and keeps what is written. -/
namespace StackScript

/-- Input still to be read, and what has been written so far. -/
structure Transcript where
  input : List String
  output : List String
  prompts : List String
deriving DecidableEq, Repr

namespace Transcript

/-- A transcript before any call. -/
def ofInput (input : List String) : Transcript := ⟨input, [], []⟩

/-- Adds a line to the output. -/
def write (line : String) (transcript : Transcript) : Transcript :=
  { transcript with output := transcript.output ++ [line] }

/-- Takes a line off the input and keeps the prompt it was asked for with. -/
def read (prompt : Option String) (transcript : Transcript) : Option String × Transcript :=
  (transcript.input.head?,
    { transcript with
      input := transcript.input.tail
      prompts := transcript.prompts ++ prompt.toList })

instance : Host (StateM Transcript) where
  writeLine line := do
    modify (write line)
    return .ok ()
  readLine prompt := do
    let line ← modifyGet (read prompt)
    return .ok line

end Transcript

end StackScript
