import StackScript.Proofs.Appending
import StackScript.Proofs.Numerals

/-! Parentheses glued to a word are read as if they were written apart. Opening ones are taken off
the front of the word, one reading each; closing ones are split off its end, the last one first,
before the word itself is read. So the word meets the same words after it as if it had been written
with gaps, and this is true at any point of the reading and whatever comes after. -/
namespace StackScript.Ungluing
open Reader Numerals Appending

/-- Words of one and the same character, side by side. -/
def row (c : Char) (count : Nat) (place : Position) : List Word :=
  (List.range count).map fun index => ⟨[c], place.shift index⟩

/-- A word with parentheses at both its ends. -/
def glued (opens : Nat) (inner : List Char) (closes : Nat) (place : Position) : Word :=
  ⟨List.replicate opens '(' ++ inner ++ List.replicate closes ')', place⟩

/-- The same characters at the same places, each parenthesis a word of its own and what is between
them, if there is anything, another one. -/
def separated (opens : Nat) (inner : List Char) (closes : Nat) (place : Position) : List Word :=
  row '(' opens place ++
    (⟨inner, place.shift opens⟩ : Word).putBack (row ')' closes (place.shift (opens + inner.length)))

theorem row_succ (c : Char) (count : Nat) (place : Position) :
    row c (count + 1) place = ⟨[c], place⟩ :: row c count (place.shift 1) := by
  rw [row, List.range_succ_eq_map, List.map_cons, List.map_map]
  refine congrArg (_ :: ·) (List.map_congr_left fun index _ => ?_)
  rw [Position.shift_shift, Nat.add_comm]
  rfl

theorem row_succ_last (c : Char) (count : Nat) (place : Position) :
    row c (count + 1) place = row c count place ++ [⟨[c], place.shift count⟩] := by
  rw [row, List.range_succ, List.map_append]
  rfl

theorem separated_succ (opens : Nat) (inner : List Char) (closes : Nat) (place : Position) :
    separated (opens + 1) inner closes place =
      ⟨['('], place⟩ :: separated opens inner closes (place.shift 1) := by
  have moved (count : Nat) : place.shift (opens + 1 + count) =
      (place.shift 1).shift (opens + count) := by
    rw [Position.shift_shift, Nat.add_comm opens 1, Nat.add_assoc]
  rw [separated, row_succ, moved inner.length, ← Nat.add_zero (opens + 1), moved 0]
  rfl

section Readings
variable (afterRead : Bool) (place : Position) (rest : List Word)

variable {afterRead rest} in
/-- A word that gives no token leaves the reading to the words that it leaves. -/
theorem readFrom_of_none {word : Word} {left : List Word}
    (read : readWord afterRead word rest = .ok ⟨none, left⟩) :
    readFrom afterRead (word :: rest) = readFrom afterRead left := by
  rw [readFrom_cons, read]
  simp only [Except.bind, Reading.afterRead, Option.toList_none, List.nil_append]
  cases readFrom afterRead left <;> rfl

/-- A word without characters is passed over. -/
theorem readFrom_putBack (word : Word) :
    readFrom afterRead (word.putBack rest) = readFrom afterRead (word :: rest) := by
  unfold Word.putBack
  split
  · rename_i empty
    obtain ⟨chars, place⟩ := word
    obtain rfl : chars = [] := List.isEmpty_iff.mp empty
    have dropped : readWord afterRead ⟨[], place⟩ rest = .ok ⟨none, rest⟩ := rfl
    exact (readFrom_of_none dropped).symm
  · rfl

/-- An opening parenthesis is read first, and what is glued to it after that. -/
theorem readFrom_opening (chars : List Char) :
    readFrom afterRead (⟨'(' :: chars, place⟩ :: rest) =
      (readFrom false (⟨chars, place.shift 1⟩ :: rest)).map
        (⟨.leftParen, .absent, place⟩ :: ·) := by
  have free : Keyword.ofText? (String.ofList ('(' :: chars)) = none :=
    Keyword.ofText?_eq_none (c := '(') (by simp) rfl
  have unread : Number.readFinite? ('(' :: chars) = none :=
    readFinite?_eq_none List.mem_cons_self rfl
  have read : readWord afterRead ⟨'(' :: chars, place⟩ rest =
      .ok (.emit .leftParen .absent place ((⟨chars, place.shift 1⟩ : Word).putBack rest)) := by
    rw [readWord, Word.text, free]
    simp only [readPlain, unread]
    rfl
  rw [readFrom_cons, read]
  simp only [Except.bind, Reading.emit, readFrom_putBack]
  rfl

variable {inner : List Char}

/-- A closing parenthesis is split off what it is glued to. -/
theorem readWord_closing (filled : inner ≠ []) (closed : inner.head? ≠ some '(')
    (unquoted : inner.head? ≠ some '"') :
    readWord afterRead ⟨inner ++ [')'], place⟩ rest =
      .ok ⟨none, ⟨inner, place⟩ :: ⟨[')'], place.shift inner.length⟩ :: rest⟩ := by
  have head : (inner ++ [')']).head? = inner.head? := List.head?_append_of_ne_nil _ filled
  have last : (inner ++ [')']).getLast? = some ')' := List.getLast?_concat
  have ends : ')' ∈ inner ++ [')'] := List.mem_append_right _ List.mem_cons_self
  have free : Keyword.ofText? (String.ofList (inner ++ [')'])) = none :=
    Keyword.ofText?_eq_none (c := ')') (by simp) rfl
  have cut : splitClosing ⟨inner ++ [')'], place⟩ rest =
      ⟨none, ⟨inner, place⟩ :: ⟨[')'], place.shift inner.length⟩ :: rest⟩ := by
    simp [splitClosing, filled, Word.take, Word.drop]
  rw [readWord, Word.text, free]
  simp only [readPlain, readFinite?_eq_none ends rfl, head, closed, unquoted, last, cut,
    ↓reduceIte]

/-- What is split is read in order. -/
theorem readFrom_closing (filled : inner ≠ []) (closed : inner.head? ≠ some '(')
    (unquoted : inner.head? ≠ some '"') :
    readFrom afterRead (⟨inner ++ [')'], place⟩ :: rest) =
      readFrom afterRead (⟨inner, place⟩ :: ⟨[')'], place.shift inner.length⟩ :: rest) :=
  readFrom_of_none (readWord_closing afterRead place rest filled closed unquoted)

/-- Closing parentheses are split off one after the other, and read in the order they stand in. -/
theorem readFrom_closings (closes : Nat) (closed : inner.head? ≠ some '(')
    (unquoted : inner.head? ≠ some '"') :
    readFrom afterRead (⟨inner ++ List.replicate closes ')', place⟩ :: rest) =
      readFrom afterRead
        ((⟨inner, place⟩ : Word).putBack (row ')' closes (place.shift inner.length) ++ rest)) := by
  induction closes generalizing rest with
  | zero =>
    rw [List.replicate_zero, List.append_nil, readFrom_putBack]
    rfl
  | succ closes ih =>
    by_cases empty : inner ++ List.replicate closes ')' = []
    · obtain ⟨rfl, none⟩ := List.append_eq_nil_iff.mp empty
      obtain rfl : closes = 0 := by simpa using none
      rfl
    · have head (c : Char) (other : c ≠ ')') (starts : inner.head? ≠ some c) :
          (inner ++ List.replicate closes ')').head? ≠ some c := by
        cases inner with
        | nil =>
          cases closes with
          | zero => exact nofun
          | succ closes => simpa [List.replicate_succ] using Ne.symm other
        | cons first others => exact starts
      have split := readFrom_closing afterRead place rest empty (head '(' (by decide) closed)
        (head '"' (by decide) unquoted)
      have last : place.shift (inner ++ List.replicate closes ')').length =
          (place.shift inner.length).shift closes := by
        rw [Position.shift_shift, List.length_append, List.length_replicate]
      rw [List.replicate_succ', ← List.append_assoc, split, last, ih, row_succ_last,
        List.append_assoc, List.singleton_append]

end Readings

/-- At any point of the reading, whatever has been read and whatever is still to come, a word with
parentheses glued to both its ends is read like its pieces written apart: with the same tokens at
the same places, or with the same fault. What is between the parentheses may itself end in closing
ones; it must not begin like a group or a string. -/
theorem readFrom_glued (afterRead : Bool) (opens closes : Nat) {inner : List Char}
    (unopened : inner.head? ≠ some '(') (unquoted : inner.head? ≠ some '"') (place : Position)
    (rest : List Word) :
    readFrom afterRead (glued opens inner closes place :: rest) =
      readFrom afterRead (separated opens inner closes place ++ rest) := by
  induction opens generalizing afterRead place with
  | zero =>
    have same := readFrom_closings afterRead place rest closes unopened unquoted
    rw [putBack_append] at same
    simpa [glued, separated, row] using same
  | succ opens ih =>
    have first : glued (opens + 1) inner closes place =
        ⟨'(' :: (glued opens inner closes (place.shift 1)).chars, place⟩ := rfl
    have lone : readFrom false (⟨[], place.shift 1⟩ ::
        (separated opens inner closes (place.shift 1) ++ rest)) =
          readFrom false (separated opens inner closes (place.shift 1) ++ rest) :=
      (readFrom_putBack false _ ⟨[], place.shift 1⟩).symm
    rw [first, separated_succ, List.cons_append, readFrom_opening, readFrom_opening, lone]
    exact congrArg (Except.map _) (ih false (place.shift 1))

/-- An operator between parentheses takes the place of the one after it, and a keyword that wants a
number takes a parenthesis for it. -/
theorem readFrom_glued_keywords :
    readFrom true [⟨"((NOT))".toList, ⟨3, 2⟩⟩, ⟨"x".toList, ⟨4, 0⟩⟩] = .ok
        [⟨.leftParen, .absent, ⟨3, 2⟩⟩, ⟨.leftParen, .absent, ⟨3, 3⟩⟩,
          ⟨.not, .keyword "NOT", ⟨3, 7⟩⟩, ⟨.rightParen, .absent, ⟨3, 7⟩⟩,
          ⟨.rightParen, .absent, ⟨3, 8⟩⟩, ⟨.identifier, .name "x", ⟨4, 0⟩⟩] ∧
      readFrom false [⟨"(NUM)".toList, ⟨1, 0⟩⟩] = .error (.invalidNumber ")" ⟨1, 4⟩) := by
  have operator : readFrom true (glued 2 "NOT".toList 2 ⟨3, 2⟩ :: [⟨"x".toList, ⟨4, 0⟩⟩]) = _ :=
    readFrom_glued true 2 2 (by decide) (by decide) ⟨3, 2⟩ _
  have operand : readFrom false [glued 1 "NUM".toList 1 ⟨1, 0⟩] = _ :=
    readFrom_glued false 1 1 (by decide) (by decide) ⟨1, 0⟩ _
  exact ⟨operator.trans (by cbv), operand.trans (by cbv)⟩

end StackScript.Ungluing
