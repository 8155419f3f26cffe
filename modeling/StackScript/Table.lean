/-! Tables from names to values, used for variables and for labels. A name has at most one
entry; the order of entries means nothing. -/
namespace StackScript

/-- A finite table from names to values. -/
structure Table (α : Type) where
  /-- The entries, the one put in last first. -/
  entries : List (String × α)
deriving DecidableEq, Repr

namespace Table

variable {α : Type}

/-- The table without entries. -/
def empty : Table α := ⟨[]⟩

/-- The value of a name. -/
def get? (table : Table α) (name : String) : Option α :=
  (table.entries.find? (·.1 = name)).map (·.2)

/-- Whether a name has a value. -/
def contains (table : Table α) (name : String) : Bool := (table.get? name).isSome

/-- Gives a name a value; a value it had before is replaced. -/
def insert (table : Table α) (name : String) (value : α) : Table α :=
  ⟨(name, value) :: table.entries.filter (·.1 ≠ name)⟩

/-- The number of names with a value. -/
def size (table : Table α) : Nat := table.entries.length

@[simp] theorem get?_empty (name : String) : (empty : Table α).get? name = none := rfl

/-- After an insertion the name has the new value, and all other names have what they had. -/
theorem get?_insert (table : Table α) (name other : String) (value : α) :
    (table.insert name value).get? other =
      if name = other then some value else table.get? other := by
  by_cases same : name = other
  · simp [get?, insert, same]
  · simp only [get?, insert, same, ↓reduceIte, decide_false, Bool.false_eq_true,
      not_false_eq_true, List.find?_cons_of_neg, List.find?_filter]
    congr 2
    funext entry
    by_cases found : entry.1 = other
    · simp [found, Ne.symm same]
    · simp [found]

@[simp] theorem get?_insert_self (table : Table α) (name : String) (value : α) :
    (table.insert name value).get? name = some value := by
  simp [get?_insert]

/-- Of two values that a name is given one after the other, the second one counts. -/
theorem insert_insert (table : Table α) (name : String) (first second : α) :
    (table.insert name first).insert name second = table.insert name second := by
  simp [insert, List.filter_filter]

theorem contains_insert (table : Table α) (name other : String) (value : α) :
    (table.insert name value).contains other = (decide (name = other) || table.contains other) := by
  simp only [contains, get?_insert]
  split <;> simp [*]

end Table

end StackScript
