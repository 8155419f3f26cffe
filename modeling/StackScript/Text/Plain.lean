/-! Plain text: what is left of a text when what only steers a terminal is taken out. A control
sequence starts with an escape character and runs to its last character; other control
characters stand alone. White space stays, and ends a sequence that has not ended. -/
namespace StackScript.Text

/-- The kind of sequence that a character stands in. -/
inductive Control where
  /-- No sequence. -/
  | none
  /-- Right after an escape character. -/
  | escape
  /-- After an escape character and marks, which one more character ends. -/
  | marked
  /-- Numbers and marks, which a letter or another character of its columns ends. -/
  | numbered
  /-- A title or another setting, which a bell ends. -/
  | setting
  /-- A string for the device. -/
  | device
deriving DecidableEq, Repr

namespace Control

/-- Whether the characters of a sequence are free, white space included. -/
def isFree : Control → Bool
  | setting | device => true
  | _ => false

/-- The sequence after a character of it that is no control character. -/
def next : Control → Char → Control
  | none, _ => none
  | escape, '[' => numbered
  | escape, ']' => setting
  | escape, 'P' | escape, 'X' | escape, '^' | escape, '_' => device
  | escape, c => if c < '0' then marked else if c ≤ '~' then none else escape
  | marked, c => if '0' ≤ c ∧ c ≤ '~' then none else marked
  | numbered, c => if '@' ≤ c ∧ c ≤ '~' then none else numbered
  | setting, _ => setting
  | device, c => if c = '\x9c' then none else device

end Control

/-- Whether a control character is white space, which plain text keeps. -/
def isLayout (c : Char) : Bool := c = '\t' || c = '\n' || c = '\x0c' || c = '\r'

/-- The plain text of characters that stand in a sequence. -/
def plainFrom : Control → List Char → List Char
  | _, [] => []
  | control, c :: rest =>
    if c = '\x1b' then plainFrom .escape rest
    else if c = '\x18' ∨ c = '\x1a' then plainFrom .none rest
    else if c < ' ' then
      if control.isFree then
        plainFrom (if control = .setting ∧ c = '\x07' then .none else control) rest
      else if isLayout c then c :: plainFrom .none rest
      else plainFrom control rest
    else if c = '\x7f' then plainFrom control rest
    else if control = .none then c :: plainFrom .none rest
    else plainFrom (control.next c) rest

/-- A text without what only steers a terminal. -/
def plain (text : String) : String := String.ofList (plainFrom .none text.toList)

/-- Text without control characters is plain. -/
theorem plainFrom_eq_self (chars : List Char) (printed : ∀ c ∈ chars, ' ' ≤ c ∧ c ≠ '\x7f') :
    plainFrom .none chars = chars := by
  induction chars with
  | nil => rfl
  | cons c rest ih =>
    have here := printed c (by simp)
    have after := ih fun d member => printed d (by simp [member])
    have visible : ¬ c < ' ' := Char.not_lt.mpr here.1
    have noEscape : c ≠ '\x1b' := fun same => visible (same ▸ by decide)
    have noCancel : c ≠ '\x18' := fun same => visible (same ▸ by decide)
    have noSubstitute : c ≠ '\x1a' := fun same => visible (same ▸ by decide)
    simp [plainFrom, noEscape, noCancel, noSubstitute, visible, here.2, after]

end StackScript.Text
