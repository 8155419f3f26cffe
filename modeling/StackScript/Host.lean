/-! Hosts: where a program's output goes and its input comes from. A program reaches the world
only through the two calls of its host, and either call may fail with a reason. -/
namespace StackScript

/-- The calls that a program makes, as actions of a monad. -/
class Host (m : Type → Type) where
  /-- Writes one line of output. -/
  writeLine : String → m (Except String Unit)
  /-- Shows a prompt, if there is one, and takes one line of input; `none` is its end. -/
  readLine : Option String → m (Except String (Option String))

end StackScript
