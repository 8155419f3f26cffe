import StackScript.Number.Numeral
import StackScript.Text.Blank
import StackScript.Value

/-! What operators compute from two values. An operator applies to some pairs of types only. -/
namespace StackScript

/-- The result of an operator between two values, unless it does not apply to their types.
Equality applies to two values of one type, the order to numbers, the connectives to booleans. -/
def Operator.apply? : Operator → Value → Value → Option Bool
  | equal, left, right => if left.type = right.type then some (left.equals right) else none
  | greater, .number left, .number right => some (decide (right < left))
  | greaterEqual, .number left, .number right => some (decide (right ≤ left))
  | less, .number left, .number right => some (decide (left < right))
  | lessEqual, .number left, .number right => some (decide (left ≤ right))
  | and, .boolean left, .boolean right => some (left && right)
  | or, .boolean left, .boolean right => some (left || right)
  | _, _, _ => none

/-- Why an arithmetic operation has no result. -/
inductive ArithmeticFault where
  /-- The operation does not apply to the types of its operands. -/
  | mismatch
  | divisionByZero
deriving DecidableEq, Repr

/-- The result of an arithmetic operation. All four apply to numbers, addition to strings
too, which it joins. -/
def Arithmetic.apply : Arithmetic → Value → Value → Except ArithmeticFault Value
  | add, .number left, .number right => .ok (.number (left + right))
  | add, .string left, .string right => .ok (.string (left ++ right))
  | sub, .number left, .number right => .ok (.number (left - right))
  | mul, .number left, .number right => .ok (.number (left * right))
  | div, .number left, .number right =>
    if right == 0.0 then .error .divisionByZero else .ok (.number (left / right))
  | _, _, _ => .error .mismatch

/-- The value of a line of input, unless it cannot be converted. White space around the line
counts only if it is kept as a string, which is also what happens if no type is asked for. -/
def Value.ofInput? (cast : Option Cast) (line : String) : Option Value :=
  match cast with
  | some .number => (Number.readFinite? (Text.trim line.toList)).map .number
  | some .boolean => some (.boolean (truthOfWord (String.ofList (Text.trim line.toList))))
  | some .string | none => some (.string line)

end StackScript
