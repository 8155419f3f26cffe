import StackScript.Program

/-! Reading cuts words into pieces and never leaves them. What is still to be read at any time are
pieces of the words that reading began with, and none of them is empty; so every token, and every
fault that stops the reading, has the place of a character of one of these words. -/
namespace StackScript.Pieces
open Reader

/-- A place is that of a character of one of the words. -/
def Placed (words : List Word) (position : Position) : Prop :=
  ∃ word ∈ words, word.covers position = true

/-- The characters of a piece, if it has any, are characters of one of the words. -/
def Inside (words : List Word) (piece : Word) : Prop :=
  ∃ word ∈ words, word.position.line = piece.position.line ∧
    word.position.column ≤ piece.position.column ∧
    piece.position.column + piece.chars.length ≤ word.position.column + word.chars.length

/-- A piece that is not empty. -/
structure Piece (words : List Word) (piece : Word) : Prop where
  solid : piece.chars ≠ []
  inside : Inside words piece

/-- A result is as it should be, or a fault is placed. -/
def Fits {α : Type} (words : List Word) (good : α → Prop) : Except SyntaxError α → Prop
  | .ok value => good value
  | .error error => Placed words error.position

/-- What one word gives: a token that is placed, if there is one, and pieces still to be read. -/
structure Cut (words : List Word) (reading : Reading) : Prop where
  token : ∀ token, reading.token? = some token → Placed words token.position
  rest : ∀ piece ∈ reading.rest, Piece words piece

section Cutting
variable {words : List Word} {piece : Word} {rest : List Word}

theorem placed_of_piece (cut : Piece words piece) : Placed words piece.position := by
  obtain ⟨solid, word, member, line, low, high⟩ := cut
  have longer : 0 < piece.chars.length := List.length_pos_iff.mpr solid
  refine ⟨word, member, ?_⟩
  simp only [Word.covers, Bool.and_eq_true, decide_eq_true_eq]
  exact ⟨⟨line, low⟩, by omega⟩

theorem inside_drop (inside : Inside words piece) {count : Nat}
    (within : count ≤ piece.chars.length) : Inside words (piece.drop count) := by
  obtain ⟨word, member, line, low, high⟩ := inside
  refine ⟨word, member, line, ?_, ?_⟩
  · exact Nat.le_trans low (Nat.le_add_right _ _)
  · simp only [Word.position_drop, Position.column_shift, Word.chars_drop, List.length_drop]
    omega

theorem piece_drop (inside : Inside words piece) {count : Nat}
    (proper : count < piece.chars.length) : Piece words (piece.drop count) := by
  refine ⟨?_, inside_drop inside (Nat.le_of_lt proper)⟩
  rw [Word.chars_drop, ne_eq, List.drop_eq_nil_iff]
  exact Nat.not_le.mpr proper

theorem piece_take (cut : Piece words piece) {count : Nat} (positive : count ≠ 0) :
    Piece words (piece.take count) := by
  obtain ⟨solid, word, member, line, low, high⟩ := cut
  refine ⟨?_, word, member, line, low, ?_⟩
  · rw [Word.chars_take, ne_eq, List.take_eq_nil_iff]
    exact fun none => none.elim positive solid
  · have shorter : (piece.chars.take count).length ≤ piece.chars.length := by
      rw [List.length_take]
      exact Nat.min_le_right _ _
    simp only [Word.position_take, Word.chars_take]
    omega

/-- What is put back of a word is a piece of it. -/
theorem pieces_putBack (inside : Inside words piece) (count : Nat)
    (others : ∀ other ∈ rest, Piece words other) :
    ∀ other ∈ (piece.drop count).putBack rest, Piece words other := by
  unfold Word.putBack
  split
  · exact others
  · rename_i filled
    rw [Word.chars_drop, List.isEmpty_iff, List.drop_eq_nil_iff, Nat.not_le] at filled
    intro other member
    rcases List.mem_cons.mp member with rfl | member
    · exact piece_drop inside filled
    · exact others other member

theorem cut_emit {kind : TokenKind} {literal : Literal} {position : Position}
    (placed : Placed words position) (others : ∀ other ∈ rest, Piece words other) :
    Cut words (.emit kind literal position rest) :=
  ⟨fun _ same => Option.some.inj same ▸ placed, others⟩

theorem cut_none (others : ∀ other ∈ rest, Piece words other) : Cut words ⟨none, rest⟩ := by
  refine ⟨?_, others⟩
  rintro token ⟨⟩

theorem fits_bind {α β : Type} {good : α → Prop} {goal : β → Prop}
    {first : Except SyntaxError α} {next : α → Except SyntaxError β} (fits : Fits words good first)
    (later : ∀ value, good value → Fits words goal (next value)) :
    Fits words goal (first.bind next) := by
  cases first with
  | error error => exact fits
  | ok value => exact later value fits

end Cutting

section Readings
variable {words : List Word} {word : Word} {rest : List Word} (cut : Piece words word)
  (others : ∀ other ∈ rest, Piece words other)

include others in
theorem takeOperand_fits {position : Position} (keyword : String) (placed : Placed words position) :
    Fits words (fun taken => Piece words taken.1 ∧ ∀ other ∈ taken.2, Piece words other)
      (takeOperand keyword position rest) := by
  cases rest with
  | nil => exact placed
  | cons next rest =>
    have first : Piece words next := others next List.mem_cons_self
    have later : ∀ other ∈ rest, Piece words other :=
      fun other member => others other (List.mem_cons_of_mem _ member)
    simp only [takeOperand]
    split
    · exact ⟨first, later⟩
    · rename_i kept
      exact ⟨piece_take first kept,
        pieces_putBack first.inside _ later⟩

/-- A string may close in a later word, of which the rest is put back. -/
theorem takeDelimited_pieces {close : Char} {opener : Word} {text : List Char}
    {left : List Word} (inside : Inside words opener) (others : ∀ other ∈ rest, Piece words other)
    (taken : takeDelimited? close opener rest = some (text, left)) :
    ∀ other ∈ left, Piece words other := by
  induction rest generalizing opener text with
  | nil =>
    unfold takeDelimited? at taken
    split at taken
    · cases taken
      exact pieces_putBack inside _ others
    · cases taken
  | cons next rest ih =>
    unfold takeDelimited? at taken
    split at taken
    · cases taken
      exact pieces_putBack inside _ others
    · simp only [Option.map_eq_some_iff, Prod.mk.injEq, Prod.exists] at taken
      obtain ⟨inner, left, found, _, rfl⟩ := taken
      exact ih (others next List.mem_cons_self).inside
        (fun other member => others other (List.mem_cons_of_mem _ member)) found

include cut others

theorem readString_fits (close : Char) : Fits words (Cut words) (readString close word rest) := by
  unfold readString
  have first : 1 ≤ word.chars.length := List.length_pos_iff.mpr cut.solid
  split
  · rename_i text left taken
    exact cut_emit (placed_of_piece cut)
      (takeDelimited_pieces (inside_drop cut.inside first) others taken)
  · exact placed_of_piece cut

/-- An operator has the place of the piece after it, or its own. -/
theorem operatorPosition_placed : Placed words (operatorPosition word rest) := by
  cases rest with
  | nil => exact placed_of_piece cut
  | cons next rest => exact placed_of_piece (others next List.mem_cons_self)

theorem readLabel_fits (kind : TokenKind) :
    Fits words (Cut words) (readLabel kind word rest) := by
  refine fits_bind (takeOperand_fits others word.text (placed_of_piece cut)) ?_
  rintro ⟨label, left⟩ ⟨operand, later⟩
  simp only
  split
  · exact cut_emit (placed_of_piece cut) later
  · exact placed_of_piece operand

theorem readAnnounced_fits (type : Cast) :
    Fits words (Cut words) (readAnnounced type word rest) := by
  have operand := takeOperand_fits others word.text (placed_of_piece cut)
  cases type with
  | string =>
    cases rest with
    | nil => exact placed_of_piece cut
    | cons opener rest =>
      have first : Piece words opener := others opener List.mem_cons_self
      simp only [readAnnounced]
      split
      · exact readString_fits first
          (fun other member => others other (List.mem_cons_of_mem _ member)) ')'
      · exact placed_of_piece first
  | number =>
    refine fits_bind operand ?_
    rintro ⟨number, left⟩ ⟨taken, later⟩
    simp only
    split
    · exact cut_emit (placed_of_piece taken) later
    · exact placed_of_piece taken
  | boolean =>
    refine fits_bind operand ?_
    rintro ⟨truth, left⟩ ⟨taken, later⟩
    exact cut_emit (placed_of_piece taken) later

theorem readKeyword_fits (afterRead : Bool) (keyword : Keyword) :
    Fits words (Cut words) (readKeyword afterRead keyword word rest) := by
  unfold readKeyword
  cases keyword with
  | cast type =>
    simp only
    split
    · exact cut_emit (placed_of_piece cut) others
    · exact readAnnounced_fits cut others type
  | binary symbol => exact cut_emit (operatorPosition_placed cut others) others
  | not => exact cut_emit (operatorPosition_placed cut others) others
  | jump => exact readLabel_fits cut others .jump
  | labelled => exact readLabel_fits cut others .labelled
  | _ => exact cut_emit (placed_of_piece cut) others

theorem splitClosing_cut : Cut words (splitClosing word rest) := by
  unfold splitClosing
  simp only
  split
  · exact cut_emit (placed_of_piece cut) others
  · rename_i kept
    refine cut_none ?_
    intro piece member
    rcases List.mem_cons.mp member with rfl | member
    · exact piece_take cut kept
    rcases List.mem_cons.mp member with rfl | member
    · exact piece_drop cut.inside (by omega)
    · exact others piece member

theorem readPlain_fits : Fits words (Cut words) (readPlain word rest) := by
  unfold readPlain
  split
  · exact readString_fits cut others '"'
  split
  · exact cut_emit (placed_of_piece cut) others
  split
  · exact cut_emit (placed_of_piece cut) (pieces_putBack cut.inside 1 others)
  split
  · exact splitClosing_cut cut others
  split
  · exact cut_emit (placed_of_piece cut) others
  · exact cut_none others

theorem readWord_fits (afterRead : Bool) :
    Fits words (Cut words) (readWord afterRead word rest) := by
  unfold readWord
  split
  · exact readKeyword_fits cut others afterRead _
  · exact readPlain_fits cut others

end Readings

/-- What one word keeps, all words keep: the words left weigh less each time. -/
theorem readFrom_fits {words rest : List Word} (afterRead : Bool)
    (pieces : ∀ piece ∈ rest, Piece words piece) :
    Fits words (fun tokens => ∀ token ∈ tokens, Placed words token.position)
      (readFrom afterRead rest) := by
  induction bound : weights rest using Nat.strongRecOn generalizing afterRead rest with
  | ind heavy ih =>
    cases rest with
    | nil =>
      rw [readFrom_nil]
      exact fun token member => absurd member (List.not_mem_nil)
    | cons word rest =>
      have once := readWord_fits (pieces word List.mem_cons_self)
        (fun other member => pieces other (List.mem_cons_of_mem _ member)) afterRead
      rw [readFrom_cons]
      cases read : readWord afterRead word rest with
      | error error =>
        rw [read] at once
        exact once
      | ok reading =>
        rw [read] at once
        have lighter : weights reading.rest < heavy := bound ▸ weights_readWord_lt read
        have later := ih _ lighter (reading.afterRead afterRead) once.rest rfl
        simp only [Except.bind]
        cases further : readFrom (reading.afterRead afterRead) reading.rest with
        | error error =>
          rw [further] at later
          exact later
        | ok tokens =>
          rw [further] at later
          intro token member
          rcases List.mem_append.mp member with first | member
          · exact once.token token (Option.mem_toList.mp first)
          · exact later token member

/-- No word of a text is empty. -/
theorem scanFrom_solid_words (position : Position) (chars : List Char) :
    ∀ word ∈ Word.scanFrom position chars, word.chars ≠ [] := by
  fun_induction Word.scanFrom position chars with
  | case1 => simp
  | case2 _ _ ih | case3 _ _ _ _ _ ih | case4 _ _ _ _ _ _ _ _ _ ih => exact ih
  | case5 position c rest _ _ chars after next _ ih =>
    intro word member
    rcases List.mem_cons.mp member with rfl | member
    · exact List.cons_ne_nil _ _
    · exact ih word member

/-- Each word of a text is a piece of itself. -/
theorem scan_pieces (source : String) : ∀ word ∈ Word.scan source, Piece (Word.scan source) word :=
  fun word member => ⟨scanFrom_solid_words _ _ word member, word, member, rfl, Nat.le_refl _,
    Nat.le_refl _⟩

/-- Every token of a text stands in one of its words, and so does the fault if it is no program. -/
theorem read_placed (source : String) :
    Fits (Word.scan source)
      (fun tokens => ∀ token ∈ tokens, Placed (Word.scan source) token.position)
      (Reader.read (Word.scan source)) :=
  readFrom_fits false (scan_pieces source)

end StackScript.Pieces
