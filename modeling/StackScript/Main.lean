import StackScript.CommandLine

/-! The executable: the command line on the standard streams and the file system. -/
namespace StackScript

/-- The reason for which a file could not be read, with the code of the operating system. -/
def failureReason : IO.Error → String
  | .noFileOrDirectory _ _ _ => "No such file or directory (os error 2)"
  | .permissionDenied _ code details | .inappropriateType _ code details
  | .invalidArgument _ code details | .resourceExhausted _ code details
  | .noSuchThing _ code details | .otherError code details =>
    details ++ " (os error " ++ code.toNat.repr ++ ")"
  | error => error.toString

/-- The bytes of a stream up to its next line feed, which is included. -/
partial def takeLineBytes (stream : IO.FS.Stream) (taken : ByteArray) : IO ByteArray := do
  let next ← stream.read 1
  if next.isEmpty then
    return taken
  else if next.data[0]? = some 10 then
    return taken ++ next
  else
    takeLineBytes stream (taken ++ next)

/-- Writes text to a stream at once. -/
def writeNow (stream : IO.FS.Stream) (text : String) : IO Unit := do
  stream.putStr text
  stream.flush

instance : Console IO where
  out text := do writeNow (← IO.getStdout) text
  err text := do writeNow (← IO.getStderr) text
  log line := do writeNow (← IO.getStderr) (line ++ "\n")
  takeLine := do takeLineBytes (← IO.getStdin) .empty
  readFile path := do
    try
      return .ok (← IO.FS.readBinFile path)
    catch error =>
      return .error (failureReason error)

end StackScript

def main (arguments : List String) : IO UInt32 :=
  return (← StackScript.CommandLine.run arguments : Nat).toUInt32
