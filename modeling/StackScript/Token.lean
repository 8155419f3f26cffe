import StackScript.Position
import StackScript.Number.Layout

/-! Tokens: what the words of a program are read as. A token has a kind, which decides what it
does when it is executed, a literal, which is its payload, and the place it is reported at. -/
namespace StackScript

/-- The operators that stand between two operands. -/
inductive Operator where
  | equal
  | greater
  | greaterEqual
  | less
  | lessEqual
  | and
  | or
deriving DecidableEq, Repr

namespace Operator

/-- All operators that stand between two operands. -/
def all : List Operator := [equal, greater, greaterEqual, less, lessEqual, and, or]

/-- The word an operator is written as. -/
def keyword : Operator → String
  | equal => "EQ"
  | greater => "GT"
  | greaterEqual => "GTE"
  | less => "LT"
  | lessEqual => "LTE"
  | and => "AND"
  | or => "OR"

end Operator

/-- The four operations on two values that are written in front of their operands. -/
inductive Arithmetic where
  | add
  | sub
  | mul
  | div
deriving DecidableEq, Repr

/-- The commands: what is written in front of its operands. -/
inductive Command where
  /-- Takes two values and leaves one. -/
  | arithmetic (operation : Arithmetic)
  /-- Takes a line of input. -/
  | read
  /-- Writes a line of output. -/
  | print
  /-- Ends the program. -/
  | exit
deriving DecidableEq, Repr

namespace Command

/-- All commands. -/
def all : List Command :=
  [.arithmetic .add, .arithmetic .sub, .arithmetic .mul, .arithmetic .div, read, print, exit]

/-- The word a command is written as. -/
def keyword : Command → String
  | arithmetic .add => "ADD"
  | arithmetic .sub => "SUB"
  | arithmetic .mul => "MUL"
  | arithmetic .div => "DIV"
  | read => "READ"
  | print => "PRINT"
  | exit => "EXIT"

/-- The command that a word is. -/
def ofKeyword? (text : String) : Option Command := all.find? (·.keyword = text)

end Command

/-- The types a line of input can be converted to. -/
inductive Cast where
  | string
  | number
  | boolean
deriving DecidableEq, Repr

namespace Cast

/-- All types a line of input can be converted to. -/
def all : List Cast := [string, number, boolean]

/-- The word a type is written as. -/
def keyword : Cast → String
  | string => "STR"
  | number => "NUM"
  | boolean => "BOOL"

/-- The type that a word is. -/
def ofKeyword? (text : String) : Option Cast := all.find? (·.keyword = text)

end Cast

/-- What a token is. -/
inductive TokenKind where
  | string
  | number
  | boolean
  | binary (operator : Operator)
  | not
  | leftParen
  | rightParen
  | identifier
  /-- Announces that the assignment after it declares its variable. -/
  | declare
  | assign
  /-- Stands between the value of an assignment and its target. -/
  | target
  | command (action : Command)
  | cast (type : Cast)
  | jump
  /-- Opens the block that a jump of the same label goes to. -/
  | labelled
  /-- Opens a block that a guard decides about. -/
  | conditional
  | blockEnd
deriving DecidableEq, Repr

/-- The name of a kind. All commands share one name, and so do all casts. -/
def TokenKind.name : TokenKind → String
  | string => "STRING"
  | number => "NUMBER"
  | boolean => "BOOLEAN"
  | binary .equal => "EQUAL"
  | binary .greater => "GREATER"
  | binary .greaterEqual => "GREATER_EQUAL"
  | binary .less => "LESS"
  | binary .lessEqual => "LESS_EQUAL"
  | binary .and => "AND"
  | binary .or => "OR"
  | not => "NOT"
  | leftParen => "LEFT_PAREN"
  | rightParen => "RIGHT_PAREN"
  | identifier => "IDENTIFIER"
  | declare => "VAR"
  | assign => "ASSIGN"
  | target => "TO"
  | command _ => "MACRO"
  | cast _ => "CAST"
  | jump => "JUMP"
  | labelled => "SECTION"
  | conditional => "IF"
  | blockEnd => "END"

/-- The payload of a token. -/
inductive Literal where
  | string (text : String)
  | number (value : Float)
  | boolean (flag : Bool)
  | name (text : String)
  | label (text : String)
  | keyword (text : String)
  | absent
deriving DecidableEq, Repr

/-- The text of a boolean. -/
def boolText (flag : Bool) : String := if flag then "true" else "false"

/-- The text of a payload. -/
def Literal.text : Literal → String
  | string text | name text | label text | keyword text => text
  | number value => Number.text value
  | boolean flag => boolText flag
  | absent => ""

/-- A token of a program. -/
structure Token where
  kind : TokenKind
  literal : Literal
  /-- The place the token is reported at; its column decides which block it belongs to. -/
  position : Position
deriving DecidableEq, Repr

namespace Token

/-- The name that a token carries, be it a variable's or a label's. -/
def name? (token : Token) : Option String :=
  match token.literal with
  | .name text | .label text => some text
  | _ => none

/-- The name that a token carries; a token without one carries the empty name. -/
def nameOrEmpty (token : Token) : String := token.name?.getD ""

/-- How a fault refers to a token that it did not expect. -/
def mention (token : Token) : String :=
  match token.literal with
  | .absent => token.kind.name
  | literal => literal.text

/-- The token at another place. -/
def mapPosition (move : Position → Position) (token : Token) : Token :=
  { token with position := move token.position }

@[simp] theorem map_mapPosition_id (token? : Option Token) :
    token?.map (·.mapPosition id) = token? := by
  cases token? <;> rfl

/-- Pads a text with spaces on the right until it has `width` characters. -/
def padRight (width : Nat) (text : String) : String :=
  text ++ String.ofList (List.replicate (width - text.length) ' ')

/-- Pads a text with `fill` on the left until it has `width` characters. -/
def padLeft (width : Nat) (fill : Char) (text : String) : String :=
  String.ofList (List.replicate (width - text.length) fill) ++ text

/-- The row of a token in the table of all tokens. -/
def row (token : Token) : String :=
  padRight 20 token.kind.name ++ " | " ++
    padRight 20 (padLeft 4 ' ' token.literal.text) ++ " | " ++
    padLeft 4 ' ' token.position.line.repr ++ ":" ++ padLeft 2 '0' token.position.column.repr

end Token

end StackScript
