import StackScript.Error
import StackScript.Value

/-! The operand stack: the values that tokens leave for later ones, bounded by a capacity. -/
namespace StackScript

/-- A bounded stack of values. -/
structure Stack where
  /-- The values, the top one first. -/
  values : List Value
  /-- How many values the stack may hold. -/
  capacity : Nat
deriving DecidableEq, Repr

namespace Stack

/-- The capacity of a stack for which none is asked. -/
def defaultCapacity : Nat := 32

/-- The stack without values. -/
def ofCapacity (capacity : Nat) : Stack := ⟨[], capacity⟩

/-- The number of values. -/
def size (stack : Stack) : Nat := stack.values.length

/-- Whether there are no values. -/
def isEmpty (stack : Stack) : Bool := stack.values.isEmpty

/-- The values from the bottom of the stack to its top. -/
def bottomUp (stack : Stack) : List Value := stack.values.reverse

/-- Puts a value on top, unless the stack is full. -/
def push (stack : Stack) (value : Value) : Except RuntimeError Stack :=
  if stack.size < stack.capacity then .ok { stack with values := value :: stack.values }
  else .error (.stackOverflow stack.capacity)

/-- Takes the top value off. -/
def pop (stack : Stack) : Except RuntimeError (Value × Stack) :=
  match stack.values with
  | value :: rest => .ok (value, { stack with values := rest })
  | [] => .error .stackUnderflow

/-- The top value. -/
def peek (stack : Stack) : Except RuntimeError Value :=
  match stack.values with
  | value :: _ => .ok value
  | [] => .error .stackUnderflow

/-- What is pushed comes off next and leaves the stack as it was. -/
theorem pop_of_push {stack pushed : Stack} {value : Value}
    (push : stack.push value = .ok pushed) : pushed.pop = .ok (value, stack) := by
  unfold Stack.push at push
  split at push
  · cases push
    rfl
  · cases push

/-- A push leaves the capacity alone. -/
theorem capacity_of_push {stack pushed : Stack} {value : Value}
    (push : stack.push value = .ok pushed) : pushed.capacity = stack.capacity := by
  unfold Stack.push at push
  split at push
  · cases push
    rfl
  · cases push

/-- A pop leaves the capacity alone. -/
theorem capacity_of_pop {stack rest : Stack} {value : Value}
    (pop : stack.pop = .ok (value, rest)) : rest.capacity = stack.capacity := by
  unfold Stack.pop at pop
  split at pop
  · cases pop
    rfl
  · cases pop

/-- A push fails exactly if the stack is full. -/
theorem push_eq_error_iff {stack : Stack} {value : Value} {error : RuntimeError} :
    stack.push value = .error error ↔
      stack.capacity ≤ stack.size ∧ error = .stackOverflow stack.capacity := by
  unfold Stack.push
  split
  · simp only [reduceCtorEq, false_iff, not_and]
    omega
  · simp only [Except.error.injEq]
    constructor
    · rintro rfl
      exact ⟨by omega, rfl⟩
    · rintro ⟨_, rfl⟩
      rfl

/-- A pop fails exactly if the stack holds nothing. -/
theorem pop_eq_error_iff {stack : Stack} {error : RuntimeError} :
    stack.pop = .error error ↔ stack.values = [] ∧ error = .stackUnderflow := by
  unfold Stack.pop
  split <;> simp_all [eq_comm]

end Stack

end StackScript
