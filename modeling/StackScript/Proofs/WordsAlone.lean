import Mathlib.Order.Basic
import StackScript.Proofs.Places
import StackScript.Proofs.RoundTrip

/-! What words are read as depends on their characters alone. Words with the same characters in the
same order, wherever they stand, are read as the same kinds and payloads in the same order, or
refused for the same reason; and what is read from a character of a word is read from the same
character of its counterpart. So spaces, line breaks and comments between the words of a text have
no say in what its tokens are. -/
namespace StackScript.WordsAlone
open Reader Places RoundTrip

/-- Two places that are equally far into words which correspond to each other. -/
def Abreast (words others : List Word) (place there : Position) : Prop :=
  ∃ word other, (word, other) ∈ words.zip others ∧
    ∃ count, place = word.position.shift count ∧ there = other.position.shift count

/-- What a text is read as, or why it is refused, without the places. -/
def unplaced (result : Except Error (List Token)) : Except Error (List (TokenKind × Literal)) :=
  (result.map (List.map content)).mapError (·.mapPosition fun _ => .origin)

section Words
variable {words others : List Word}

theorem abreast_lasting (words others : List Word) : Lasting (Abreast words others) := by
  rintro _ _ further ⟨word, other, pair, count, rfl, rfl⟩
  exact ⟨word, other, pair, count + further, Position.shift_shift _ _ _, Position.shift_shift _ _ _⟩

/-- Words with the same characters are the same words at places that correspond. -/
theorem sameWord_of_chars (same : words.map Word.chars = others.map Word.chars) :
    List.Forall₂ (SameWord (Abreast words others)) words others := by
  have chars : List.Forall₂ (fun word other => word.chars = other.chars) words others := by
    rw [← List.forall₂_eq_eq_eq, List.forall₂_map_left_iff, List.forall₂_map_right_iff] at same
    exact same
  obtain ⟨length, equal⟩ := List.forall₂_iff_zip.mp chars
  refine List.forall₂_iff_zip.mpr ⟨length, fun pair => ⟨(equal pair).symm, ?_⟩⟩
  exact ⟨_, _, pair, 0, rfl, rfl⟩

theorem read_abreast (same : words.map Word.chars = others.map Word.chars) :
    Agree (Abreast words others) (List.Forall₂ (SameToken (Abreast words others)))
      (Reader.read words) (Reader.read others) :=
  readFrom_same (abreast_lasting words others) false (sameWord_of_chars same)

end Words

section Places
variable {R : Position → Position → Prop}

theorem content_of_same {tokens others : List Token}
    (same : List.Forall₂ (SameToken R) tokens others) :
    tokens.map content = others.map content := by
  induction same with
  | nil => rfl
  | cons here _ ih =>
    rw [List.map_cons, List.map_cons, ih, content, content, here.kind, here.literal]

/-- Results that agree but for the places are the same without them. -/
theorem unplaced_of_agree {result other : Except SyntaxError (List Token)}
    (agreed : Agree R (List.Forall₂ (SameToken R)) result other) :
    unplaced (result.mapError .written) = unplaced (other.mapError .written) := by
  rcases result with error | tokens <;> rcases other with fault | others
  · obtain ⟨there, -, rfl⟩ := agreed
    cases error <;> rfl
  · exact agreed.elim
  · exact agreed.elim
  · exact congrArg Except.ok (content_of_same agreed)

end Places

/-- Words with the same characters are read alike: both lists as the same kinds and payloads in the
same order, or both refused for the same reason with the same payload, and at places that
correspond. Texts with the same words are therefore read alike up to places. -/
theorem read_depends_on_chars :
    (∀ words others : List Word, words.map Word.chars = others.map Word.chars →
      Agree (Abreast words others) (List.Forall₂ (SameToken (Abreast words others)))
        (Reader.read words) (Reader.read others)) ∧
    (∀ source other : String,
      (Word.scan source).map Word.text = (Word.scan other).map Word.text →
      unplaced (Program.tokenize source) = unplaced (Program.tokenize other)) := by
  refine ⟨fun words others same => read_abreast same, fun source other same => ?_⟩
  have chars : (Word.scan source).map Word.chars = (Word.scan other).map Word.chars := by
    have lists := congrArg (List.map String.toList) same
    simpa [Function.comp_def, Word.text] using lists
  exact unplaced_of_agree (read_abreast chars)

/-- An operator and a comment at the end of a line and a string over two lines, like the same words
in one line; and a word that is no number, like the same word at a place where none can stand. -/
theorem read_depends_on_chars_relaid :
    unplaced (Program.tokenize "NOT # or so\n  (\"a\n c\")") =
        .ok [(.not, .keyword "NOT"), (.leftParen, .absent), (.string, .string "a c"),
          (.rightParen, .absent)] ∧
      ∃ place, Reader.read [⟨"NUM".toList, ⟨0, 0⟩⟩, ⟨"1e".toList, ⟨0, 0⟩⟩] =
        .error (.invalidNumber "1e" place) := by
  constructor
  · have words : (Word.scan "NOT # or so\n  (\"a\n c\")").map Word.text =
        (Word.scan "NOT (\"a c\")").map Word.text := by cbv
    rw [read_depends_on_chars.2 _ _ words]
    cbv
  · have refused : Reader.read [⟨"NUM".toList, ⟨1, 0⟩⟩, ⟨"1e".toList, ⟨1, 4⟩⟩] =
        .error (.invalidNumber "1e" ⟨1, 4⟩) := by cbv
    have agreed := read_depends_on_chars.1 [⟨"NUM".toList, ⟨1, 0⟩⟩, ⟨"1e".toList, ⟨1, 4⟩⟩]
      [⟨"NUM".toList, ⟨0, 0⟩⟩, ⟨"1e".toList, ⟨0, 0⟩⟩] rfl
    rw [refused] at agreed
    cases read : Reader.read [⟨"NUM".toList, ⟨0, 0⟩⟩, ⟨"1e".toList, ⟨0, 0⟩⟩] with
    | ok tokens =>
      rw [read] at agreed
      exact agreed.elim
    | error fault =>
      rw [read] at agreed
      obtain ⟨place, -, rfl⟩ := agreed
      exact ⟨place, rfl⟩

end StackScript.WordsAlone
