import StackScript.Error
import StackScript.Table

/-! The labels of a program and the blocks they name. A label is recorded when its block is
passed over or jumped to, and it is recorded once. -/
namespace StackScript

/-- Where a labelled block stands: the indices of the token that opens it and of the token that
ends it. A jump records its label before the block is found, with neither of them known. -/
structure BlockRange where
  start? : Option Nat
  stop? : Option Nat
deriving DecidableEq, Repr

/-- The range of a block that has not been found yet. -/
def BlockRange.unknown : BlockRange := ⟨none, none⟩

/-- The range of the same block when `count` tokens more stand before it. -/
def BlockRange.shift (range : BlockRange) (count : Nat) : BlockRange :=
  ⟨range.start?.map (· + count), range.stop?.map (· + count)⟩

@[simp] theorem BlockRange.shift_zero (range : BlockRange) : range.shift 0 = range := by
  simp [shift]

/-- The recorded labels. -/
structure Labels where
  table : Table BlockRange
deriving DecidableEq, Repr

namespace Labels

/-- No label recorded. -/
def empty : Labels := ⟨.empty⟩

/-- The block of a recorded label. -/
def get? (labels : Labels) (label : String) : Option BlockRange := labels.table.get? label

/-- Whether a label is recorded. -/
def contains (labels : Labels) (label : String) : Bool := labels.table.contains label

/-- The number of recorded labels. -/
def size (labels : Labels) : Nat := labels.table.size

/-- Records a label, which must be new. -/
def add (labels : Labels) (label : String) (range : BlockRange) (position : Position) :
    Except SemanticError Labels :=
  if labels.contains label then .error (.duplicateLabel label position)
  else .ok ⟨labels.table.insert label range⟩

/-- Sets the block of a label, if it is recorded. -/
def locate (labels : Labels) (label : String) (start stop : Nat) : Labels :=
  if labels.contains label then ⟨labels.table.insert label ⟨some start, some stop⟩⟩ else labels

/-- Once a range is recorded, its label has it, and all others have what they had. -/
theorem get?_insert (labels : Labels) (label other : String) (range : BlockRange) :
    get? ⟨labels.table.insert label range⟩ other =
      if label = other then some range else labels.get? other :=
  Table.get?_insert labels.table label other range

/-- Only a label that was new can be recorded. -/
theorem of_add {labels added : Labels} {label : String} {range : BlockRange} {position : Position}
    (add : labels.add label range position = .ok added) :
    labels.get? label = none ∧ added = ⟨labels.table.insert label range⟩ := by
  unfold Labels.add at add
  split at add
  · cases add
  · rename_i new
    cases add
    refine ⟨?_, rfl⟩
    simpa [get?, contains, Table.contains] using new

/-- The block of a label that was just recorded is set. -/
theorem locate_insert (labels : Labels) (label : String) (range : BlockRange) (start stop : Nat) :
    (⟨labels.table.insert label range⟩ : Labels).locate label start stop =
      ⟨(labels.table.insert label range).insert label ⟨some start, some stop⟩⟩ := by
  simp [locate, contains, Table.contains_insert]

end Labels

end StackScript
