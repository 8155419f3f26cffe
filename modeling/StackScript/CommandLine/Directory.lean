/-! Directories kept in memory, and the paths that lead through them. Each name of a path is
looked up in the directory that the names before it lead to. -/
namespace StackScript

/-- What a name in a directory stands for. -/
inductive Entry where
  | file (content : ByteArray)
  /-- What is left of the input, read like a file. -/
  | input
  | directory (entries : List (String × Entry))

/-- Where a path has led to. -/
structure Place where
  entry : Entry
  /-- The directories around the entry, the innermost first. -/
  around : List Entry

namespace Place

/-- The reason for which a directory is not read. -/
def isDirectory : String := "Is a directory (os error 21)"

/-- The reason for which nothing is read where nothing is. -/
def notFound : String := "No such file or directory (os error 2)"

/-- The reason for which nothing is read inside a file. -/
def notDirectory : String := "Not a directory (os error 20)"

/-- The reason for which a name or a path is not looked up. -/
def nameTooLong : String := "File name too long (os error 36)"

/-- How many bytes a name has at most. -/
def longestName : Nat := 255

/-- How many bytes a path has at most. -/
def longestPath : Nat := 4095

/-- The directory around a place. The outermost directory lies in itself. -/
def parent (place : Place) : Place :=
  match place.around with
  | [] => place
  | entry :: around => ⟨entry, around⟩

/-- The outermost directory. -/
def root (place : Place) : Place := ⟨place.around.getLastD place.entry, []⟩

/-- Follows one name of a path. An empty name and `.` lead nowhere else. -/
def step (place : Place) (name : String) : Except String Place :=
  match place.entry with
  | .directory entries =>
    if name = "" ∨ name = "." then .ok place
    else if name = ".." then .ok place.parent
    else if longestName < name.utf8ByteSize then .error nameTooLong
    else
      match entries.lookup name with
      | some entry => .ok ⟨entry, place.entry :: place.around⟩
      | none => .error notFound
  | _ => .error notDirectory

/-- Follows a path, which starts at the outermost directory if a slash comes first. -/
def follow (place : Place) (path : String) : Except String Place :=
  if path.isEmpty then .error notFound
  else if longestPath < path.utf8ByteSize then .error nameTooLong
  else
    let start := if path.startsWith "/" then place.root else place
    (path.splitToList (· = '/')).foldlM step start

/-- The names of the directories that an outermost directory always has. -/
def commonNames : List String :=
  ["bin", "boot", "etc", "home", "lib", "media", "mnt", "opt", "proc", "root", "run", "sbin", "srv",
    "sys", "tmp", "usr", "var"]

/-- The outermost directory. Of its devices, one is empty and one gives the input. -/
def outermost : Entry :=
  .directory
    (("dev", .directory [("null", .file .empty), ("stdin", .input)]) ::
      commonNames.map fun name => (name, .directory []))

/-- A directory of files, which stands two levels below the outermost directory. -/
def ofFiles (files : List (String × ByteArray)) : Place where
  entry := .directory (files.map fun (name, content) => (name, .file content))
  around := [.directory [], outermost]

end Place

end StackScript
