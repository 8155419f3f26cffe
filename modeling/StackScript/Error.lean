import StackScript.Position
import StackScript.Token

/-! Faults: why a text is no program, or why a program stopped. Every cause has one
constructor with what is needed to report it; the wording stands in the `message` functions. -/
namespace StackScript

/-- Faults in how a program is written. Most are found while its words are read; a missing
keyword or identifier is found when the construct is executed. -/
inductive SyntaxError where
  | invalidString (delimiter : Char) (position : Position)
  | unterminatedString (position : Position)
  | invalidNumber (word : String) (position : Position)
  | invalidLabel (keyword : String) (label : String) (position : Position)
  | missingOperand (keyword : String) (position : Position)
  | expectedKeyword (expected : String) (found : String) (position : Position)
  | expectedIdentifier (keyword : String) (found : String) (position : Position)
deriving DecidableEq, Repr

/-- Faults in how an execution goes. -/
inductive RuntimeError where
  | unexpectedEndOfInput (position : Position)
  | unmatchedParen (position : Position)
  | unterminatedBlock (block : String) (position : Position)
  | missingSection (label : String) (position : Position)
  | nestingTooDeep (limit : Nat) (position : Position)
  | stackOverflow (capacity : Nat)
  | stackUnderflow
  | divisionByZero (position : Position)
  /-- The host could not carry out a call. -/
  | hostFailure (reason : String)
deriving DecidableEq, Repr

/-- Faults in what a program means. -/
inductive SemanticError where
  | typeMismatch (operator : String) (left : String) (right : String) (position : Position)
  | unexpectedType (operator : String) (expected : String) (found : String) (position : Position)
  | undefinedVariable (name : String) (position : Position)
  | duplicateLabel (label : String) (position : Position)
  | invalidConversion (input : String) (target : String) (position : Position)
  | invalidExitCode (value : String) (position : Position)
deriving DecidableEq, Repr

/-- Any fault. -/
inductive Error where
  | written (error : SyntaxError)
  | executed (error : RuntimeError)
  | meant (error : SemanticError)
deriving DecidableEq, Repr

namespace SyntaxError

/-- The place a fault names. -/
def position : SyntaxError → Position
  | invalidString _ position | unterminatedString position | invalidNumber _ position
  | invalidLabel _ _ position | missingOperand _ position | expectedKeyword _ _ position
  | expectedIdentifier _ _ position => position

/-- The same fault at another place. -/
def mapPosition (move : Position → Position) : SyntaxError → SyntaxError
  | invalidString delimiter position => invalidString delimiter (move position)
  | unterminatedString position => unterminatedString (move position)
  | invalidNumber word position => invalidNumber word (move position)
  | invalidLabel keyword label position => invalidLabel keyword label (move position)
  | missingOperand keyword position => missingOperand keyword (move position)
  | expectedKeyword expected found position => expectedKeyword expected found (move position)
  | expectedIdentifier keyword found position => expectedIdentifier keyword found (move position)

/-- The text of a fault. -/
def message : SyntaxError → String
  | invalidString delimiter position =>
    "Invalid string at " ++ position.text ++ ". String must start with: " ++ delimiter.toString
  | unterminatedString position => "Unterminated string starting at " ++ position.text ++ "."
  | invalidNumber word position => "Invalid number '" ++ word ++ "' at " ++ position.text ++ "."
  | invalidLabel keyword label position =>
    "Invalid " ++ keyword ++ " label '" ++ label ++ "' at " ++ position.text ++ "."
  | missingOperand keyword position =>
    "Expected a value after '" ++ keyword ++ "' at " ++ position.text ++ "."
  | expectedKeyword expected found position =>
    "Expected '" ++ expected ++ "' but found '" ++ found ++ "' at " ++ position.text ++ "."
  | expectedIdentifier keyword found position =>
    "Expected an identifier after '" ++ keyword ++ "' but found '" ++ found ++ "' at " ++
      position.text ++ "."

end SyntaxError

namespace RuntimeError

/-- The place a fault names, if it names one. -/
def position? : RuntimeError → Option Position
  | unexpectedEndOfInput position | unmatchedParen position | unterminatedBlock _ position
  | missingSection _ position | nestingTooDeep _ position | divisionByZero position =>
    some position
  | stackOverflow _ | stackUnderflow | hostFailure _ => none

/-- The same fault at another place. -/
def mapPosition (move : Position → Position) : RuntimeError → RuntimeError
  | unexpectedEndOfInput position => unexpectedEndOfInput (move position)
  | unmatchedParen position => unmatchedParen (move position)
  | unterminatedBlock block position => unterminatedBlock block (move position)
  | missingSection label position => missingSection label (move position)
  | nestingTooDeep limit position => nestingTooDeep limit (move position)
  | stackOverflow capacity => stackOverflow capacity
  | stackUnderflow => stackUnderflow
  | divisionByZero position => divisionByZero (move position)
  | hostFailure reason => hostFailure reason

/-- The text of a fault. -/
def message : RuntimeError → String
  | unexpectedEndOfInput position => "Unexpected end of input after " ++ position.text ++ "."
  | unmatchedParen position => "Unmatched parenthesis opened at " ++ position.text ++ "."
  | unterminatedBlock block position =>
    "Unterminated " ++ block ++ " block opened at " ++ position.text ++ "."
  | missingSection label position =>
    "No section '" ++ label ++ "' found after the jump at " ++ position.text ++ "."
  | nestingTooDeep limit position =>
    "Nesting deeper than " ++ limit.repr ++ " levels at " ++ position.text ++ "."
  | stackOverflow capacity =>
    "Stack overflow: capacity of " ++ capacity.repr ++ " values exceeded."
  | stackUnderflow => "Stack underflow: the operand stack is empty."
  | divisionByZero position => "Division by zero at " ++ position.text ++ "."
  | hostFailure reason => "I/O failure: " ++ reason

end RuntimeError

namespace SemanticError

/-- The place a fault names. -/
def position : SemanticError → Position
  | typeMismatch _ _ _ position | unexpectedType _ _ _ position | undefinedVariable _ position
  | duplicateLabel _ position | invalidConversion _ _ position | invalidExitCode _ position =>
    position

/-- The same fault at another place. -/
def mapPosition (move : Position → Position) : SemanticError → SemanticError
  | typeMismatch operator left right position => typeMismatch operator left right (move position)
  | unexpectedType operator expected found position =>
    unexpectedType operator expected found (move position)
  | undefinedVariable name position => undefinedVariable name (move position)
  | duplicateLabel label position => duplicateLabel label (move position)
  | invalidConversion input target position => invalidConversion input target (move position)
  | invalidExitCode value position => invalidExitCode value (move position)

/-- The text of a fault. -/
def message : SemanticError → String
  | typeMismatch operator left right position =>
    "Cannot apply '" ++ operator ++ "' to " ++ left ++ " and " ++ right ++ " at " ++
      position.text ++ "."
  | unexpectedType operator expected found position =>
    "'" ++ operator ++ "' expects " ++ expected ++ ", found " ++ found ++ " at " ++
      position.text ++ "."
  | undefinedVariable name position =>
    "Variable '" ++ name ++ "' is not defined at " ++ position.text ++ "."
  | duplicateLabel label position =>
    "Label '" ++ label ++ "' is already defined at " ++ position.text ++ "."
  | invalidConversion input target position =>
    "Cannot convert '" ++ input ++ "' to " ++ target ++ " at " ++ position.text ++ "."
  | invalidExitCode value position =>
    "Invalid exit code '" ++ value ++ "' at " ++ position.text ++ "."

end SemanticError

namespace Error

/-- The family a fault belongs to. -/
def category : Error → String
  | written _ => "Syntax"
  | executed _ => "Runtime"
  | meant _ => "Semantic"

/-- The place a fault names, if it names one. -/
def position? : Error → Option Position
  | written error => some error.position
  | executed error => error.position?
  | meant error => some error.position

/-- The same fault at another place. -/
def mapPosition (move : Position → Position) : Error → Error
  | written error => written (error.mapPosition move)
  | executed error => executed (error.mapPosition move)
  | meant error => meant (error.mapPosition move)

/-- The text of a fault, its family in front. -/
def message (error : Error) : String :=
  error.category ++ " >> " ++
    match error with
    | written error => error.message
    | executed error => error.message
    | meant error => error.message

/-- A fault that is moved nowhere is the same. -/
@[simp] theorem mapPosition_id (error : Error) : error.mapPosition id = error := by
  cases error with
  | written error => cases error <;> rfl
  | executed error => cases error <;> rfl
  | meant error => cases error <;> rfl

@[simp] theorem mapError_mapPosition_id {α : Type} (result : Except Error α) :
    result.mapError (·.mapPosition id) = result := by
  cases result with
  | error error => exact congrArg Except.error (mapPosition_id error)
  | ok value => rfl

/-- A fault that is moved stays in its family. -/
@[simp] theorem category_mapPosition (move : Position → Position) (error : Error) :
    (error.mapPosition move).category = error.category := by
  cases error <;> rfl

/-- Moving a fault moves the place that it names. -/
theorem position?_mapPosition (move : Position → Position) (error : Error) :
    (error.mapPosition move).position? = error.position?.map move := by
  cases error with
  | written error => cases error <;> rfl
  | executed error => cases error <;> rfl
  | meant error => cases error <;> rfl

end Error

end StackScript
