import StackScript.CommandLine.Console
import StackScript.CommandLine.Directory

/-! A console kept in memory: a directory of files, given bytes of input, and what has been
written to each output. -/
namespace StackScript

/-- A console in memory. -/
structure Terminal where
  /-- The current directory. -/
  here : Place
  /-- The bytes of input that have not been taken. -/
  input : List UInt8
  output : String
  errors : String
  logged : List String

namespace Terminal

/-- A console before anything happened, with these files in its current directory. -/
def start (files : List (String × ByteArray)) (input : List UInt8) : Terminal :=
  ⟨.ofFiles files, input, "", "", []⟩

/-- The content of the file at a path. The input can be read once. -/
def readFile (terminal : Terminal) (path : String) : Except String ByteArray × Terminal :=
  match terminal.here.follow path with
  | .error reason => (.error reason, terminal)
  | .ok place =>
    match place.entry with
    | .file content => (.ok content, terminal)
    | .input => (.ok ⟨terminal.input.toArray⟩, { terminal with input := [] })
    | .directory _ => (.error Place.isDirectory, terminal)

/-- The bytes of the first line, its line feed included, and the bytes after it. -/
def splitLine : List UInt8 → List UInt8 × List UInt8
  | [] => ([], [])
  | byte :: rest =>
    if byte = 10 then ([byte], rest)
    else
      let (line, after) := splitLine rest
      (byte :: line, after)

instance : Console (StateM Terminal) where
  out text := modify fun terminal => { terminal with output := terminal.output ++ text }
  err text := modify fun terminal => { terminal with errors := terminal.errors ++ text }
  log line := modify fun terminal => { terminal with logged := terminal.logged ++ [line] }
  takeLine := modifyGet fun terminal =>
    let (line, input) := splitLine terminal.input
    (⟨line.toArray⟩, { terminal with input })
  readFile path := modifyGet fun terminal => terminal.readFile path

end Terminal

end StackScript
