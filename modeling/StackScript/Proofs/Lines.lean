import StackScript.Word

/-! Scanning a text line by line. No word reaches over the end of a line, so the words of a text
are those of its lines, each line scanned by itself. -/
namespace StackScript.Lines
open Word

/-- The lines of a text. A line feed at the end of the text starts no line. -/
def linesOf : List Char → List (List Char)
  | [] => []
  | c :: rest =>
    if c = '\n' then
      [] :: linesOf rest
    else
      match linesOf rest with
      | [] => [[c]]
      | line :: lines => (c :: line) :: lines

/-- The text of some lines, with a line feed at its end or without one. -/
def written (closed : Bool) : List (List Char) → List Char
  | [] => []
  | [line] => line ++ if closed then ['\n'] else []
  | line :: next :: lines => line ++ '\n' :: written closed (next :: lines)

/-- The words of some lines, the first of which has a number. -/
def scanLines : Nat → List (List Char) → List Word
  | _, [] => []
  | number, line :: lines => scanFrom ⟨number, 0⟩ line ++ scanLines (number + 1) lines

theorem linesOf_plain (chars : List Char) : ∀ line ∈ linesOf chars, '\n' ∉ line := by
  fun_induction linesOf chars with
  | case1 => simp
  | case2 rest ih => simpa using ih
  | case3 c rest other empty ih =>
    intro line member
    simp only [List.mem_singleton] at member
    simpa [member] using Ne.symm other
  | case4 c rest other line lines split ih =>
    intro anyLine member
    rcases List.mem_cons.mp member with rfl | later
    · have inner := ih line (by rw [split]; exact List.mem_cons_self)
      simpa [Ne.symm other] using inner
    · exact ih anyLine (by rw [split]; exact List.mem_cons_of_mem _ later)

/-- Every text is the text of its lines. -/
theorem written_linesOf (chars : List Char) : ∃ closed, written closed (linesOf chars) = chars := by
  fun_induction linesOf chars with
  | case1 => exact ⟨false, rfl⟩
  | case2 rest ih =>
    obtain ⟨closed, same⟩ := ih
    cases split : linesOf rest with
    | nil =>
      rw [split] at same
      exact ⟨true, by rw [← same]; rfl⟩
    | cons line lines =>
      rw [split] at same
      exact ⟨closed, by rw [← same]; rfl⟩
  | case3 c rest other split ih =>
    obtain ⟨closed, same⟩ := ih
    rw [split] at same
    exact ⟨false, by rw [← same]; rfl⟩
  | case4 c rest other line lines split ih =>
    obtain ⟨closed, same⟩ := ih
    rw [split] at same
    refine ⟨closed, ?_⟩
    rw [← same]
    cases lines <;> rfl

section Cuts
variable {p : Char → Bool} (stops : p '\n' = false) (line rest : List Char)
include stops

theorem takeWhile_cut : (line ++ '\n' :: rest).takeWhile p = line.takeWhile p := by
  induction line with
  | nil => simp [stops]
  | cons c line ih =>
    simp only [List.cons_append, List.takeWhile_cons, ih]

theorem dropWhile_cut : (line ++ '\n' :: rest).dropWhile p = line.dropWhile p ++ '\n' :: rest := by
  induction line with
  | nil => simp [stops]
  | cons c line ih =>
    simp only [List.cons_append, List.dropWhile_cons, ih]
    split <;> rfl

end Cuts

theorem dropWhile_plain {line : List Char} (plain : '\n' ∉ line) :
    line.dropWhile (· ≠ '\n') = [] := by
  induction line with
  | nil => rfl
  | cons c line ih =>
    simp only [List.mem_cons, not_or] at plain
    rw [List.dropWhile_cons, if_pos (by simpa using Ne.symm plain.1), ih plain.2]

theorem scanFrom_nil (position : Position) : scanFrom position [] = [] := by
  rw [scanFrom]

theorem scanFrom_newline (position : Position) (rest : List Char) :
    scanFrom position ('\n' :: rest) = scanFrom position.newline rest := by
  rw [scanFrom]
  simp

theorem scanFrom_blank {c : Char} (other : c ≠ '\n') (blank : Text.isBlank c = true)
    (position : Position) (rest : List Char) :
    scanFrom position (c :: rest) = scanFrom (position.shift 1) rest := by
  rw [scanFrom, if_neg other, if_pos blank]

theorem scanFrom_solid {c : Char} (solid : ¬ Text.isBlank c = true) (position : Position)
    (rest : List Char) :
    scanFrom position (c :: rest) =
      let chars := c :: rest.takeWhile (!Text.isBlank ·)
      let after := rest.dropWhile (!Text.isBlank ·)
      let next := position.shift chars.length
      if startsComment chars then scanFrom next (after.dropWhile (· ≠ '\n'))
      else ⟨chars, position⟩ :: scanFrom next after := by
  have other : c ≠ '\n' := by
    rintro rfl
    exact solid rfl
  rw [scanFrom, if_neg other, if_neg solid]

/-- What stops before the end of a line drops no end of a line. -/
theorem count_dropWhile {p : Char → Bool} (stops : p '\n' = false) (text : List Char) :
    (text.dropWhile p).count '\n' = text.count '\n' := by
  induction text with
  | nil => rfl
  | cons c text ih =>
    rw [List.dropWhile_cons]
    split
    · rename_i dropped
      have other : c ≠ '\n' := by
        rintro rfl
        rw [stops] at dropped
        cases dropped
      rw [ih, List.count_cons_of_ne other]
    · rfl

/-- No word and no comment reaches over the end of a line: what stands after it is scanned as a
text of its own, as many lines further down. -/
theorem scanFrom_append (position : Position) (text rest : List Char) :
    scanFrom position (text ++ '\n' :: rest) =
      scanFrom position text ++ scanFrom ⟨position.line + text.count '\n' + 1, 0⟩ rest := by
  have taken (text : List Char) : (text ++ '\n' :: rest).takeWhile (!Text.isBlank ·) =
      text.takeWhile (!Text.isBlank ·) := takeWhile_cut (by decide) text rest
  have left (text : List Char) : (text ++ '\n' :: rest).dropWhile (!Text.isBlank ·) =
      text.dropWhile (!Text.isBlank ·) ++ '\n' :: rest := dropWhile_cut (by decide) text rest
  have counted (text : List Char) : (text.dropWhile (!Text.isBlank ·)).count '\n' =
      text.count '\n' := count_dropWhile (by decide) text
  fun_induction scanFrom position text with
  | case1 position => exact scanFrom_newline position rest
  | case2 position text ih =>
    have further : position.line + 1 + text.count '\n' + 1 =
        position.line + (text.count '\n' + 1) + 1 := by omega
    rw [List.cons_append, scanFrom_newline, ih, List.count_cons_self, ← further]
    rfl
  | case3 position c text other blank ih =>
    rw [List.cons_append, scanFrom_blank other blank, ih, List.count_cons_of_ne other]
    rfl
  | case4 position c text other solid chars after next comment ih =>
    have cut : (after ++ '\n' :: rest).dropWhile (· ≠ '\n') =
        after.dropWhile (· ≠ '\n') ++ '\n' :: rest := dropWhile_cut (by decide) after rest
    rw [List.cons_append, scanFrom_solid solid, taken, left]
    simp only
    rw [if_pos comment, cut, ih, count_dropWhile (by decide), counted,
      List.count_cons_of_ne other]
    rfl
  | case5 position c text other solid chars after next word ih =>
    rw [List.cons_append, scanFrom_solid solid, taken, left]
    simp only
    rw [if_neg word, ih, counted, List.count_cons_of_ne other]
    rfl

theorem scanFrom_line {line : List Char} (plain : '\n' ∉ line) (position : Position)
    (rest : List Char) :
    scanFrom position (line ++ '\n' :: rest) =
      scanFrom position line ++ scanFrom position.newline rest := by
  rw [scanFrom_append, List.count_eq_zero_of_not_mem plain]
  rfl

theorem scanFrom_written {lines : List (List Char)} (plain : ∀ line ∈ lines, '\n' ∉ line)
    (closed : Bool) (number : Nat) :
    scanFrom ⟨number, 0⟩ (written closed lines) = scanLines number lines := by
  fun_induction written closed lines generalizing number with
  | case1 => exact scanFrom_nil _
  | case2 line =>
    have only : '\n' ∉ line := plain line List.mem_cons_self
    simp only [scanLines, List.append_nil]
    cases closed with
    | false => simp
    | true =>
      simp only [↓reduceIte]
      rw [scanFrom_line only, scanFrom_nil, List.append_nil]
  | case3 line next lines ih =>
    rw [scanFrom_line (plain line List.mem_cons_self)]
    simp only [scanLines]
    congr 1
    exact ih (fun other member => plain other (List.mem_cons_of_mem _ member)) (number + 1)

/-- The words of a text are those of its lines. -/
theorem scan_eq_scanLines (source : String) : scan source = scanLines 1 (linesOf source.toList) := by
  obtain ⟨closed, same⟩ := written_linesOf source.toList
  rw [scan, ← scanFrom_written (linesOf_plain _) closed 1, same]

theorem scanLines_append (number : Nat) (lines others : List (List Char)) :
    scanLines number (lines ++ others) =
      scanLines number lines ++ scanLines (number + lines.length) others := by
  induction lines generalizing number with
  | nil => rfl
  | cons line lines ih =>
    have index : number + 1 + lines.length = number + (lines.length + 1) := by omega
    simp only [List.cons_append, scanLines, List.length_cons, List.append_assoc, ih, index]

/-- A line at another place has the same words, moved alike. -/
theorem scanFrom_moved {line : List Char} (plain : '\n' ∉ line) {position there : Position}
    {move : Position → Position}
    (moves : ∀ count, move (position.shift count) = there.shift count) :
    scanFrom there line = (scanFrom position line).map (·.mapPosition move) := by
  have further {position there : Position} (count : Nat)
      (moves : ∀ count, move (position.shift count) = there.shift count) (more : Nat) :
      move ((position.shift count).shift more) = (there.shift count).shift more := by
    rw [Position.shift_shift, Position.shift_shift, moves]
  fun_induction scanFrom position line generalizing there with
  | case1 position =>
    rw [scanFrom_nil]
    rfl
  | case2 position line => simp at plain
  | case3 position c line other blank ih =>
    simp only [List.mem_cons, not_or] at plain
    rw [scanFrom_blank other blank]
    exact ih plain.2 (further 1 moves)
  | case4 position c line other solid chars after next comment =>
    rename_i ih
    simp only [List.mem_cons, not_or] at plain
    have inner : '\n' ∉ after := fun member => plain.2 (List.dropWhile_subset _ member)
    rw [scanFrom_solid solid]
    simp only
    rw [if_pos comment]
    exact ih (fun member => inner (List.dropWhile_subset _ member)) (further _ moves)
  | case5 position c line other solid chars after next word =>
    rename_i ih
    simp only [List.mem_cons, not_or] at plain
    have inner : '\n' ∉ after := fun member => plain.2 (List.dropWhile_subset _ member)
    have here : move position = there := moves 0
    rw [scanFrom_solid solid]
    simp only
    rw [if_neg word, List.map_cons, ih inner (further _ moves), Word.mapPosition, here]

theorem scanFrom_indented (position : Position) (count : Nat) (line : List Char) :
    scanFrom position (List.replicate count ' ' ++ line) = scanFrom (position.shift count) line := by
  induction count generalizing position with
  | zero => rfl
  | succ count ih =>
    rw [List.replicate_succ, List.cons_append, scanFrom_blank (by decide) (by decide), ih,
      Position.shift_shift, Nat.add_comm]

end StackScript.Lines
