import StackScript.Token

/-! Values: what a running program computes with. -/
namespace StackScript

/-- The value of an operand or a variable. -/
inductive Value where
  | string (text : String)
  | number (value : Float)
  | boolean (flag : Bool)
  /-- What reading past the end of the input gives. -/
  | null
deriving DecidableEq, Repr

/-- The types of values. -/
inductive ValueType where
  | string
  | number
  | boolean
  | null
deriving DecidableEq, Repr

/-- How a fault refers to a type. -/
def ValueType.name : ValueType → String
  | string => "string"
  | number => "number"
  | boolean => "boolean"
  | null => "null"

namespace Value

/-- The type of a value. -/
def type : Value → ValueType
  | string _ => .string
  | number _ => .number
  | boolean _ => .boolean
  | null => .null

/-- The text of a value, as it is printed. -/
def text : Value → String
  | string text => text
  | number value => Number.text value
  | boolean flag => boolText flag
  | null => "null"

/-- Whether two values are equal as a program sees it. Numbers compare as the arithmetic of
doubles does: not-a-number differs from itself and the two zeros are equal. -/
def equals : Value → Value → Bool
  | string left, string right => left = right
  | number left, number right => left == right
  | boolean left, boolean right => left = right
  | null, null => true
  | _, _ => false

/-- The value that a literal stands for. A name or a keyword stands for its own text. -/
def ofLiteral : Literal → Value
  | .string text | .name text | .label text | .keyword text => string text
  | .number value => .number value
  | .boolean flag => .boolean flag
  | .absent => null

/-- The boolean that a word stands for: all but two words are true. -/
def truthOfWord (word : String) : Bool := word ≠ "0" && word ≠ "False"

end Value

end StackScript
