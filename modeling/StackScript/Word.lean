import StackScript.Position
import StackScript.Text.Blank

/-! Words, the pieces a source text falls into. A word is a maximal run of characters that are
not blank. A word that is a lone `#` starts a comment, which lasts to the end of its line. -/
namespace StackScript

/-- A run of characters and the place of its first one. -/
structure Word where
  /-- The characters, as they stand in the source. -/
  chars : List Char
  /-- The place of the first character. -/
  position : Position
deriving DecidableEq, Repr, Inhabited

namespace Word

/-- The word written as a string. -/
def text (word : Word) : String := String.ofList word.chars

/-- The word without its first `count` characters, at the place where the rest starts. -/
def drop (word : Word) (count : Nat) : Word :=
  ⟨word.chars.drop count, word.position.shift count⟩

/-- The first `count` characters of the word. -/
def take (word : Word) (count : Nat) : Word :=
  ⟨word.chars.take count, word.position⟩

/-- The words still to be read once `word` is put back in front of `rest`; an empty word is
not put back. -/
def putBack (word : Word) (rest : List Word) : List Word :=
  if word.chars.isEmpty then rest else word :: rest

/-- The word at another place. -/
def mapPosition (move : Position → Position) (word : Word) : Word :=
  { word with position := move word.position }

/-- Whether a place is that of one of the word's characters. -/
def covers (word : Word) (position : Position) : Bool :=
  word.position.line = position.line && word.position.column ≤ position.column &&
    position.column < word.position.column + word.chars.length

@[simp] theorem chars_drop (word : Word) (count : Nat) :
    (word.drop count).chars = word.chars.drop count := rfl

@[simp] theorem position_drop (word : Word) (count : Nat) :
    (word.drop count).position = word.position.shift count := rfl

@[simp] theorem chars_take (word : Word) (count : Nat) :
    (word.take count).chars = word.chars.take count := rfl

@[simp] theorem position_take (word : Word) (count : Nat) :
    (word.take count).position = word.position := rfl

/-- The word that starts a comment. -/
def startsComment (chars : List Char) : Bool := chars == ['#']

/-- The words of the characters that stand at `position` and after. -/
def scanFrom (position : Position) : List Char → List Word
  | [] => []
  | c :: rest =>
    if c = '\n' then
      scanFrom position.newline rest
    else if Text.isBlank c then
      scanFrom (position.shift 1) rest
    else
      let chars := c :: rest.takeWhile (!Text.isBlank ·)
      let after := rest.dropWhile (!Text.isBlank ·)
      let next := position.shift chars.length
      if startsComment chars then
        scanFrom next (after.dropWhile (· ≠ '\n'))
      else
        ⟨chars, position⟩ :: scanFrom next after
termination_by chars => chars.length
decreasing_by
  · simp
  · simp
  · have inner := (List.dropWhile_sublist (!Text.isBlank ·) (l := rest)).length_le
    have outer := (List.dropWhile_sublist (· ≠ '\n')
      (l := rest.dropWhile (!Text.isBlank ·))).length_le
    simp only [List.length_cons]
    omega
  · have inner := (List.dropWhile_sublist (!Text.isBlank ·) (l := rest)).length_le
    simp only [List.length_cons]
    omega

/-- The words of a source text in order, comments left out. -/
def scan (source : String) : List Word := scanFrom ⟨1, 0⟩ source.toList

end Word

end StackScript
