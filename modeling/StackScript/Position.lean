/-! Places in a source text. Every word and token keeps the place where it starts; blocks are
closed by columns, printed lines end where a line ends, and every fault names a place. -/
namespace StackScript

/-- A place in a source text. -/
structure Position where
  /-- Counted from one; the place before every program has line zero. -/
  line : Nat
  /-- The number of characters before the place in its line. -/
  column : Nat
deriving DecidableEq, Repr, Inhabited

namespace Position

/-- The place before every program. -/
def origin : Position := ⟨0, 0⟩

/-- The same line, `count` characters further right. -/
def shift (position : Position) (count : Nat) : Position :=
  ⟨position.line, position.column + count⟩

/-- The first column of the next line. -/
def newline (position : Position) : Position := ⟨position.line + 1, 0⟩

/-- A place as faults write it, line before column. -/
def text (position : Position) : String :=
  position.line.repr ++ ":" ++ position.column.repr

@[simp] theorem line_shift (position : Position) (count : Nat) :
    (position.shift count).line = position.line := rfl

@[simp] theorem column_shift (position : Position) (count : Nat) :
    (position.shift count).column = position.column + count := rfl

@[simp] theorem shift_zero (position : Position) : position.shift 0 = position := rfl

theorem shift_shift (position : Position) (first second : Nat) :
    (position.shift first).shift second = position.shift (first + second) := by
  simp [shift, Nat.add_assoc]

end Position

end StackScript
