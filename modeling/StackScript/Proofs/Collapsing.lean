import Mathlib.Data.List.Infix
import StackScript.Proofs.RoundTrip
import StackScript.Proofs.Runs

/-! A string keeps its text but for the blanks. Scanning tears the text into words and reading joins
them again, so every run of blanks becomes one space, also at the ends of the text, and every other
character stays: keywords, numbers and the delimiters of other strings mean nothing inside. A `#`
between two blanks is the one thing that a string cannot hold. -/
namespace StackScript.Collapsing
open Reader Lines RoundTrip Runs

/-- The text with one space for every run of blanks. -/
def collapse : List Char → List Char
  | [] => []
  | c :: rest =>
    if c ∈ blanks then ' ' :: collapse (rest.dropWhile (· ∈ blanks)) else c :: collapse rest
termination_by chars => chars.length
decreasing_by
  · have shorter := (List.dropWhile_sublist (· ∈ blanks) (l := rest)).length_le
    simp only [List.length_cons]
    omega
  · simp

/-- The string with one space for every run of blanks. -/
def collapsed (text : String) : String := String.ofList (collapse text.toList)

/-- No `#` has a blank on both sides. -/
def Uncommented (chars : List Char) : Prop :=
  ∀ left ∈ blanks, ∀ right ∈ blanks, ¬ [left, '#', right] <:+: chars

instance (chars : List Char) : Decidable (Uncommented chars) :=
  decidable_of_iff
    ((blanks.all fun left => blanks.all fun right => ¬ [left, '#', right] <:+: chars) = true)
    (by simp only [Uncommented, List.all_eq_true, decide_eq_true_eq])

section Comments
variable {chars part : List Char} {c : Char}

theorem Uncommented.of_infix (free : Uncommented chars) (inside : part <:+: chars) :
    Uncommented part :=
  fun left first right last found => free left first right last (found.trans inside)

/-- It does not matter which blank stands in front. -/
theorem Uncommented.of_blank (blank : c ∈ blanks) (free : Uncommented (c :: chars)) :
    Uncommented (' ' :: chars) := by
  intro left first right last found
  rcases List.infix_cons_iff.mp found with front | later
  · refine free c blank right last ⟨[], ?_⟩
    obtain ⟨-, rest, shape⟩ := List.cons_prefix_cons.mp front
    exact ⟨rest, congrArg (c :: ·) shape⟩
  · exact free left first right last (later.trans (List.suffix_cons _ _).isInfix)

/-- What stands behind a run of blanks still has a blank in front of it. -/
theorem Uncommented.dropWhile (blank : c ∈ blanks) (free : Uncommented (c :: chars)) :
    Uncommented (' ' :: chars.dropWhile (· ∈ blanks)) := by
  induction chars generalizing c with
  | nil => exact free.of_blank blank
  | cons d chars ih =>
    by_cases more : d ∈ blanks
    · rw [List.dropWhile_cons_of_pos (by simpa using more)]
      exact ih more (free.of_infix (List.suffix_cons _ _).isInfix)
    · rw [List.dropWhile_cons_of_neg (by simpa using more)]
      exact free.of_blank blank

/-- A delimiter in front of a text is no blank and no `#`. -/
theorem Uncommented.opened (solid : c ∉ blanks) (other : c ≠ '#') (free : Uncommented chars) :
    Uncommented (' ' :: c :: chars) := by
  intro left first right last found
  rcases List.infix_cons_iff.mp found with front | later
  · obtain ⟨-, next⟩ := List.cons_prefix_cons.mp front
    exact other (List.cons_prefix_cons.mp next).1.symm
  rcases List.infix_cons_iff.mp later with front | later
  · exact solid ((List.cons_prefix_cons.mp front).1 ▸ first)
  · exact free left first right last later

end Comments

section Scanning

/-- Blanks in front of a text only move the place where its words begin. -/
theorem scanFrom_dropWhile (position : Position) (text rest : List Char) :
    ∃ place, Word.scanFrom position (text ++ rest) =
      Word.scanFrom place (text.dropWhile (· ∈ blanks) ++ rest) := by
  induction text generalizing position with
  | nil => exact ⟨position, rfl⟩
  | cons c text ih =>
    by_cases blank : c ∈ blanks
    · rw [List.dropWhile_cons_of_pos (by simpa using blank), List.cons_append]
      by_cases line : c = '\n'
      · rw [line, scanFrom_newline]
        exact ih _
      · rw [scanFrom_blank line (mem_blanks_iff.mp blank)]
        exact ih _
    · rw [List.dropWhile_cons_of_neg (by simpa using blank)]
      exact ⟨position, rfl⟩

/-- A character that does not close a string is the first one of its text. -/
theorem takeDelimited_cons {close c : Char} (other : c ≠ close) (chars : List Char)
    (place : Position) (words : List Word) :
    takeDelimited? close ⟨c :: chars, place⟩ words =
      (takeDelimited? close ⟨chars, place.shift 1⟩ words).map fun taken =>
        (c :: taken.1, taken.2) := by
  unfold takeDelimited?
  by_cases ends : close ∈ chars
  · have held : close ∈ c :: chars := List.mem_cons_of_mem _ ends
    have left (count : Nat) : (⟨c :: chars, place⟩ : Word).drop (count + 1) =
        (⟨chars, place.shift 1⟩ : Word).drop count := by
      simp only [Word.drop, List.drop_succ_cons, Position.shift_shift, Nat.add_comm]
    simp only [held, ends, ↓reduceIte, Option.map_some, ne_eq, other, not_false_eq_true,
      decide_true, List.takeWhile_cons_of_pos, List.length_cons, left]
  · have goesOn : close ∉ c :: chars := by
      simpa [Ne.symm other] using ends
    simp only [goesOn, ends, ↓reduceIte]
    cases words with
    | nil => rfl
    | cons next words =>
      simp only [Option.map_map]
      rfl

variable {close : Char} {text : List Char}

/-- The text of a string is taken as it was meant. The front is the part of the current word that was
read before; the text goes on in this word and in the words after it, up to the delimiter. -/
theorem takeDelimited_collapse (solid : close ∉ blanks) (mark : close ≠ '#')
    (unclosed : close ∉ text) {front : List Char} (firm : ∀ c ∈ front, c ∉ blanks)
    (starts : ∀ c ∈ (front ++ text).head?, c ∉ blanks)
    (free : Uncommented (' ' :: (front ++ text))) (position : Position) :
    ∃ tail words, Word.scanFrom position (front ++ text ++ [close]) =
        ⟨front ++ tail, position⟩ :: words ∧
      takeDelimited? close ⟨tail, position.shift front.length⟩ words =
        some (collapse text, []) := by
  fun_induction collapse text generalizing front position with
  | case1 =>
    have plain : Word.IsPlain (front ++ [close]) := by
      refine plain_of_mem ?_ (List.mem_append_right front List.mem_cons_self) mark
      refine List.forall_mem_append.mpr ⟨fun c member => isBlank_eq_false (firm c member), ?_⟩
      exact List.forall_mem_singleton.mpr (isBlank_eq_false solid)
    refine ⟨[close], [], ?_, ?_⟩
    · have alone : Word.scanFrom position (front ++ [close] ++ []) = _ :=
        scanFrom_plain plain position nofun
      rw [scanFrom_nil] at alone
      simpa using alone
    · simp [takeDelimited?, Word.putBack]
  | case2 c rest blank ih =>
    have plain : Word.IsPlain front := by
      refine ⟨?_, fun d member => isBlank_eq_false (firm d member), beq_eq_false_iff_ne.mpr ?_⟩
      · rintro rfl
        exact starts c rfl blank
      · rintro rfl
        exact free ' ' (by decide) c blank ⟨[], rest, rfl⟩
    have behind : Uncommented (c :: rest) := free.of_infix ⟨' ' :: front, [], by simp⟩
    have inner : close ∉ rest.dropWhile (· ∈ blanks) := fun member =>
      unclosed (List.mem_cons_of_mem _ (List.dropWhile_subset _ member))
    have first : ∀ d ∈ (rest.dropWhile (· ∈ blanks)).head?, d ∉ blanks := by
      intro d head
      have stopped := List.head?_dropWhile_not (· ∈ blanks) rest
      rw [Option.mem_def.mp head] at stopped
      simpa using stopped
    obtain ⟨place, skipped⟩ := scanFrom_dropWhile (position.shift front.length) (c :: rest) [close]
    rw [List.dropWhile_cons_of_pos (by simpa using blank)] at skipped
    obtain ⟨tail, words, scanned, taken⟩ :=
      ih inner (List.forall_mem_nil _) first (behind.dropWhile blank) place
    -- The word ends here, and the text goes on in the next one.
    refine ⟨[], ⟨tail, place⟩ :: words, ?_, ?_⟩
    · rw [List.append_assoc, scanFrom_plain plain position, skipped, List.append_nil]
      · exact congrArg (_ :: ·) scanned
      · rintro d ⟨⟩
        exact mem_blanks_iff.mp blank
    · unfold takeDelimited?
      simp only [List.not_mem_nil, ↓reduceIte]
      exact congrArg (Option.map _) taken
  | case3 c rest other ih =>
    simp only [List.mem_cons, not_or] at unclosed
    have longer : front ++ [c] ++ rest = front ++ c :: rest := by simp
    have all : ∀ d ∈ front ++ [c], d ∉ blanks :=
      List.forall_mem_append.mpr ⟨firm, List.forall_mem_singleton.mpr other⟩
    obtain ⟨tail, words, scanned, taken⟩ :=
      ih unclosed.2 all (longer ▸ starts) (longer ▸ free) position
    refine ⟨c :: tail, words, ?_, ?_⟩
    · rw [← longer, scanned, List.append_assoc, List.singleton_append]
    · rw [takeDelimited_cons (Ne.symm unclosed.1), Position.shift_shift]
      rw [List.length_append, List.length_singleton] at taken
      rw [taken]
      rfl

/-- A text between two delimiters is scanned as words that are read as one string. -/
theorem readString_collapse (opening : Char) (starts : opening ∉ blanks ∧ opening ≠ '#')
    (ends : close ∉ blanks ∧ close ≠ '#') (unclosed : close ∉ text) (free : Uncommented text)
    (position : Position) :
    ∃ opener words, Word.scanFrom position (opening :: (text ++ [close])) = opener :: words ∧
      opener.chars.head? = some opening ∧
      readString close opener words =
        .ok (.emit .string (.string (String.ofList (collapse text))) position []) := by
  obtain ⟨tail, words, scanned, taken⟩ := takeDelimited_collapse ends.1 ends.2 unclosed
    (List.forall_mem_singleton.mpr starts.1) (by rintro c ⟨⟩; exact starts.1)
    (free.opened starts.1 starts.2) position
  refine ⟨_, words, scanned, rfl, ?_⟩
  have inside : (⟨[opening] ++ tail, position⟩ : Word).drop 1 =
      ⟨tail, position.shift [opening].length⟩ := rfl
  rw [readString, inside, taken]

end Scanning

/-- Words that one reading takes up are that reading's token. -/
theorem read_of_emit {word : Word} {words : List Word} {kind : TokenKind} {literal : Literal}
    {position : Position}
    (read : readWord false word words = .ok (.emit kind literal position [])) :
    Reader.read (word :: words) = .ok [⟨kind, literal, position⟩] := by
  rw [Reader.read, readFrom_cons, read]
  simp only [Except.bind, Reading.emit, readFrom_nil]
  rfl

/-- A text between quotes, or between the parentheses that `STR` announces, is one string with one
space for every run of blanks of the text and all its other characters. The text must not hold the
delimiter that closes it, and no `#` with blanks around it; all else may stand in it. -/
theorem tokenize_delimited {text : String} (free : Uncommented text.toList) :
    ('"' ∉ text.toList → Program.tokenize ("\"" ++ text ++ "\"") =
      .ok [⟨.string, .string (collapsed text), ⟨1, 0⟩⟩]) ∧
    (')' ∉ text.toList → Program.tokenize ("STR (" ++ text ++ ")") =
      .ok [⟨.string, .string (collapsed text), ⟨1, 4⟩⟩]) := by
  constructor
  · intro unclosed
    obtain ⟨opener, words, scanned, head, read⟩ :=
      readString_collapse '"' (by decide) (by decide) unclosed free ⟨1, 0⟩
    have source : ("\"" ++ text ++ "\"").toList = '"' :: (text.toList ++ ['"']) := by simp
    have unreserved : Keyword.ofText? opener.text = none :=
      Keyword.ofText?_eq_none (by simpa [Word.text] using List.mem_of_mem_head? head) rfl
    have first : readWord false opener words = readString '"' opener words := by
      rw [readWord, unreserved]
      simp only [readPlain, head, ↓reduceIte]
    rw [Program.tokenize, Word.scan, source, scanned, read_of_emit (first.trans read)]
    rfl
  · intro unclosed
    obtain ⟨opener, words, scanned, head, read⟩ :=
      readString_collapse '(' (by decide) (by decide) unclosed free ⟨1, 4⟩
    have source : ("STR (" ++ text ++ ")").toList =
        (Keyword.cast .string).spelling.toList ++ ' ' :: '(' :: (text.toList ++ [')']) := by
      simp [Keyword.spelling, Cast.keyword]
    have announced : Word.scan ("STR (" ++ text ++ ")") =
        ⟨(Keyword.cast .string).spelling.toList, ⟨1, 0⟩⟩ :: opener :: words := by
      rw [Word.scan, source, scanFrom_plain (plain_spelling _) _ (by rintro c ⟨⟩; rfl),
        scanFrom_blank (by decide) (by decide)]
      exact congrArg (_ :: ·) scanned
    have first : readWord false ⟨(Keyword.cast .string).spelling.toList, ⟨1, 0⟩⟩
        (opener :: words) = readString ')' opener words := by
      rw [readWord_keyword]
      simp only [readKeyword, readAnnounced, head, ↓reduceIte, Bool.false_eq_true]
    rw [Program.tokenize, announced, read_of_emit (first.trans read)]
    rfl

/-- Blanks at both ends, a keyword, a number, delimiters of the other kind and a `#` that begins a
line; and a text of blanks only. -/
theorem tokenize_delimited_blanks :
    Program.tokenize ("\"" ++ "\t IF (é 7)\r\n#1 " ++ "\"") =
        .ok [⟨.string, .string " IF (é 7) #1 ", ⟨1, 0⟩⟩] ∧
      Program.tokenize ("STR (" ++ " \x0c\n" ++ ")") = .ok [⟨.string, .string " ", ⟨1, 4⟩⟩] := by
  have mixed : Uncommented "\t IF (é 7)\r\n#1 ".toList := by decide +kernel
  have empty : Uncommented " \x0c\n".toList := by decide +kernel
  have kept : collapsed "\t IF (é 7)\r\n#1 " = " IF (é 7) #1 " := by cbv
  have space : collapsed " \x0c\n" = " " := by cbv
  constructor
  · rw [(tokenize_delimited mixed).1 (by decide), kept]
  · rw [(tokenize_delimited empty).2 (by decide), space]

end StackScript.Collapsing
