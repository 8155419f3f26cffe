import StackScript.Word

/-! Writing words at their places. A list of words that stand apart from each other in order is
written with line feeds and spaces between them; this is the opposite of scanning. -/
namespace StackScript.Word

/-- Characters that are read back as one word: some, none of them blank, and not those that
start a comment. -/
def IsPlain (chars : List Char) : Prop :=
  chars ≠ [] ∧ (∀ c ∈ chars, Text.isBlank c = false) ∧ startsComment chars = false

instance (chars : List Char) : Decidable (IsPlain chars) :=
  decidable_of_iff
    (chars ≠ [] ∧ chars.all (!Text.isBlank ·) = true ∧ startsComment chars = false)
    (by simp only [IsPlain, List.all_eq_true, Bool.not_eq_true'])

/-- Whether a word ends before another one starts, with a character between them if they stand
in one line. -/
def Precedes (first second : Word) : Prop :=
  first.position.line < second.position.line ∨
    first.position.line = second.position.line ∧
      first.position.column + first.chars.length < second.position.column

instance (first second : Word) : Decidable (Precedes first second) :=
  inferInstanceAs (Decidable (_ ∨ _))

/-- A list of words that can be written down. -/
structure WellLaid (words : List Word) : Prop where
  /-- Each word is read back as one word. -/
  plain : ∀ word ∈ words, IsPlain word.chars
  /-- Lines are counted from one. -/
  placed : ∀ word ∈ words, 1 ≤ word.position.line
  /-- The words stand in order and apart. -/
  apart : words.Pairwise Precedes

instance (words : List Word) : Decidable (WellLaid words) :=
  decidable_of_iff
    ((∀ word ∈ words, IsPlain word.chars) ∧ (∀ word ∈ words, 1 ≤ word.position.line) ∧
      words.Pairwise Precedes)
    ⟨fun ⟨plain, placed, apart⟩ => ⟨plain, placed, apart⟩,
      fun ⟨plain, placed, apart⟩ => ⟨plain, placed, apart⟩⟩

/-- The line feeds and spaces that lead from one place to a later one. -/
def gap (start target : Position) : List Char :=
  if start.line = target.line then
    List.replicate (target.column - start.column) ' '
  else
    List.replicate (target.line - start.line) '\n' ++ List.replicate target.column ' '

/-- Writes words from a place on. -/
def renderFrom (position : Position) : List Word → List Char
  | [] => []
  | word :: rest =>
    gap position word.position ++ word.chars ++
      renderFrom (word.position.shift word.chars.length) rest

/-- Writes words at their places. -/
def render (words : List Word) : String := String.ofList (renderFrom ⟨1, 0⟩ words)

end StackScript.Word
