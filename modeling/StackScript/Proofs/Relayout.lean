import StackScript.Host.Transcript
import StackScript.Program
import StackScript.Proofs.AlignedWalk
import StackScript.Proofs.Lines
import StackScript.Proofs.Places

/-! A program laid out anew. Moving all lines to the right by the same number of spaces and putting
lines without words before, between and after them changes the places that faults name, and
nothing else: places are only ever compared with each other, columns for blocks and lines for
printed values. -/
namespace StackScript.Relayout
open Exec Walk Progress StackScript.Alignment Lines Places

/-- Whether a line has no word: blanks, and perhaps a lone `#` with the rest of the line. -/
def isFiller (line : List Char) : Bool :=
  !line.contains '\n' &&
    match line.dropWhile Text.isBlank with
    | [] => true
    | '#' :: rest => rest.head?.all Text.isBlank
    | _ => false

/-- Lines from the one with a number on, each moved to the right, with filler before them and
after the last one. -/
def relaid (indent : Nat) (filler : Nat → List (List Char)) :
    Nat → List (List Char) → List (List Char)
  | number, [] => filler number
  | number, line :: lines =>
    filler number ++ (List.replicate indent ' ' ++ line) :: relaid indent filler (number + 1) lines

/-- The number that a line has afterwards. -/
def renumber (filler : Nat → List (List Char)) : Nat → Nat
  | 0 => 0
  | number + 1 => renumber filler number + (filler (number + 1)).length + 1

/-- The place that a place has afterwards. -/
def replace (indent : Nat) (filler : Nat → List (List Char)) (position : Position) : Position :=
  ⟨renumber filler position.line, position.column + indent⟩

/-- A text laid out anew. -/
def relaidText (indent : Nat) (filler : Nat → List (List Char)) (closed : Bool) (source : String) :
    String :=
  String.ofList (written closed (relaid indent filler 1 (linesOf source.toList)))

section Scanning
variable {indent : Nat} {filler : Nat → List (List Char)}

theorem plain_of_isFiller {line : List Char} (fills : isFiller line = true) : '\n' ∉ line := by
  simp only [isFiller, Bool.and_eq_true, Bool.not_eq_true', List.contains_eq_mem,
    decide_eq_false_iff_not] at fills
  exact fills.1

/-- Filler has no words. -/
theorem scanFrom_filler {line : List Char} (fills : isFiller line = true) (position : Position) :
    Word.scanFrom position line = [] := by
  have plain := plain_of_isFiller fills
  induction line generalizing position with
  | nil => exact scanFrom_nil position
  | cons c rest ih =>
    simp only [List.mem_cons, not_or] at plain
    simp only [isFiller, Bool.and_eq_true, List.dropWhile_cons] at fills
    by_cases blank : Text.isBlank c = true
    · rw [scanFrom_blank (Ne.symm plain.1) blank]
      refine ih ?_ _ plain.2
      simp only [blank, ↓reduceIte] at fills
      simp only [isFiller, Bool.and_eq_true]
      exact ⟨by simpa using plain.2, fills.2⟩
    · simp only [blank, Bool.false_eq_true, ↓reduceIte] at fills
      -- What is not blank here is the lone `#`, and the comment takes the rest.
      have lone : c = '#' ∧ rest.head?.all Text.isBlank = true := by
        have shape := fills.2
        split at shape
        · simp_all
        · simp_all
        · cases shape
      obtain ⟨rfl, ends⟩ := lone
      have chars : rest.takeWhile (!Text.isBlank ·) = [] := by
        cases rest with
        | nil => rfl
        | cons next rest =>
          have stops : Text.isBlank next = true := by simpa using ends
          simp [stops]
      have inner : '\n' ∉ rest.dropWhile (!Text.isBlank ·) :=
        fun member => plain.2 (List.dropWhile_subset _ member)
      rw [scanFrom_solid blank, chars]
      simp only
      rw [if_pos (by decide), dropWhile_plain inner, scanFrom_nil]

theorem scanLines_filler {lines : List (List Char)}
    (fills : ∀ line ∈ lines, isFiller line = true) (number : Nat) : scanLines number lines = [] := by
  induction lines generalizing number with
  | nil => rfl
  | cons line lines ih =>
    have rest := ih (fun other member => fills other (List.mem_cons_of_mem _ member)) (number + 1)
    rw [scanLines, scanFrom_filler (fills line List.mem_cons_self), rest, List.append_nil]

theorem replace_shift (place : Position) (count : Nat) :
    replace indent filler (place.shift count) = (replace indent filler place).shift count := by
  simp only [replace, Position.shift, Position.mk.injEq, true_and]
  omega

/-- The words of lines laid out anew are the words of the lines, each at its new place. -/
theorem scanLines_relaid (fills : ∀ number, ∀ line ∈ filler number, isFiller line = true)
    {lines : List (List Char)} (plain : ∀ line ∈ lines, '\n' ∉ line) (number : Nat) :
    scanLines (renumber filler number + 1) (relaid indent filler (number + 1) lines) =
      (scanLines (number + 1) lines).map (·.mapPosition (replace indent filler)) := by
  induction lines generalizing number with
  | nil => exact scanLines_filler (fills _) _
  | cons line lines ih =>
    have here : renumber filler number + 1 + (filler (number + 1)).length =
        renumber filler (number + 1) := by
      rw [renumber]
      omega
    have moves (count : Nat) : replace indent filler ((⟨number + 1, 0⟩ : Position).shift count) =
        ((⟨renumber filler (number + 1), 0⟩ : Position).shift indent).shift count := by
      rw [replace_shift]
      rfl
    rw [relaid, scanLines_append, scanLines_filler (fills _), List.nil_append, here, scanLines,
      scanLines, List.map_append, scanFrom_indented,
      scanFrom_moved (plain line List.mem_cons_self) moves,
      ih (fun other member => plain other (List.mem_cons_of_mem _ member)) (number + 1)]

theorem relaid_plain (fills : ∀ number, ∀ line ∈ filler number, isFiller line = true)
    {lines : List (List Char)} (plain : ∀ line ∈ lines, '\n' ∉ line) (number : Nat) :
    ∀ line ∈ relaid indent filler number lines, '\n' ∉ line := by
  induction lines generalizing number with
  | nil => exact fun line member => plain_of_isFiller (fills number line member)
  | cons line lines ih =>
    intro other member
    rw [relaid, List.mem_append, List.mem_cons] at member
    rcases member with filled | rfl | later
    · exact plain_of_isFiller (fills number other filled)
    · have inner := plain line List.mem_cons_self
      simp [List.mem_append, List.mem_replicate, inner]
    · exact ih (fun next member => plain next (List.mem_cons_of_mem _ member)) _ other later

theorem scan_relaidText (fills : ∀ number, ∀ line ∈ filler number, isFiller line = true)
    (closed : Bool) (source : String) :
    Word.scan (relaidText indent filler closed source) =
      (Word.scan source).map (·.mapPosition (replace indent filler)) := by
  have plain := linesOf_plain source.toList
  rw [scan_eq_scanLines source, ← scanLines_relaid fills plain 0]
  rw [Word.scan, relaidText, String.toList_ofList]
  exact scanFrom_written (relaid_plain fills plain 1) closed 1

/-- The tokens of a text laid out anew are the tokens of the text, each at its new place. -/
theorem tokenize_relaidText (fills : ∀ number, ∀ line ∈ filler number, isFiller line = true)
    (closed : Bool) (source : String) :
    Program.tokenize (relaidText indent filler closed source) =
      ((Program.tokenize source).map (List.map (·.mapPosition (replace indent filler)))).mapError
        (·.mapPosition (replace indent filler)) := by
  unfold Program.tokenize
  rw [scan_relaidText fills, read_moved replace_shift]
  cases Reader.read (Word.scan source) <;> rfl

end Scanning

section Renumbering
variable (indent : Nat) (filler : Nat → List (List Char))

theorem renumber_lt {number later : Nat} (less : number < later) :
    renumber filler number < renumber filler later := by
  induction later with
  | zero => omega
  | succ later ih =>
    rw [renumber]
    rcases Nat.lt_succ_iff_lt_or_eq.mp less with earlier | rfl
    · have := ih earlier
      omega
    · omega

theorem renumber_inj {number other : Nat} :
    renumber filler number = renumber filler other ↔ number = other := by
  constructor
  · intro same
    rcases Nat.lt_trichotomy number other with less | equal | greater
    · have := renumber_lt filler less
      omega
    · exact equal
    · have := renumber_lt filler greater
      omega
  · rintro rfl
    rfl

/-- A line is found again under its new number. -/
theorem getElem?_relaid {lines : List (List Char)} {index : Nat} {line : List Char}
    (held : lines[index]? = some line) (number : Nat) :
    (relaid indent filler (number + 1) lines)[renumber filler (number + index + 1) -
      renumber filler number - 1]? = some (List.replicate indent ' ' ++ line) := by
  induction lines generalizing number index with
  | nil => cases held
  | cons first lines ih =>
    have step : renumber filler (number + 1) =
        renumber filler number + (filler (number + 1)).length + 1 := rfl
    cases index with
    | zero =>
      cases held
      have place : renumber filler (number + 0 + 1) - renumber filler number - 1 =
          (filler (number + 1)).length := by
        rw [Nat.add_zero]
        omega
      rw [place, relaid, List.getElem?_append_right (Nat.le_refl _), Nat.sub_self]
      rfl
    | succ index =>
      have later := ih held (number + 1)
      have beyond : renumber filler (number + 1) < renumber filler (number + 1 + index + 1) :=
        renumber_lt filler (by omega)
      have sum : number + (index + 1) + 1 = number + 1 + index + 1 := by omega
      have place : renumber filler (number + (index + 1) + 1) - renumber filler number - 1 =
          (filler (number + 1)).length +
            (renumber filler (number + 1 + index + 1) - renumber filler (number + 1) - 1 + 1) := by
        rw [sum]
        omega
      rw [place, relaid, List.getElem?_append_right (Nat.le_add_right _ _), Nat.add_sub_cancel_left,
        List.getElem?_cons_succ]
      exact later

end Renumbering

/-- The same tokens at other places. -/
def moving (program : Array Token) (move : Position → Position) : Alignment where
  program := program
  image := program.map (·.mapPosition move)
  offset := 0
  start := 1
  move := move
  cut := False
  excused _ := False
  Labelled labels others := others = labels
  Logged _ _ := True

theorem moving_lawful (program : Array Token) {move : Position → Position}
    (column : ∀ first second,
      (move first).column = (move second).column ↔ first.column = second.column)
    (line : ∀ first second, (move first).line = (move second).line ↔ first.line = second.line) :
    (moving program move).Lawful where
  start_pos := Nat.one_pos
  token := by
    intro index token _ held
    change (program.map _)[index]? = _
    rw [Array.getElem?_map]
    exact congrArg _ held
  operand := by
    intro index token _ _ _
    change variableBefore (program.map (·.mapPosition move)) index =
      (variableBefore program index).map (·.mapPosition move)
    cases index with
    | zero => rfl
    | succ before =>
      simp only [variableBefore, tokenBefore?, Array.getElem?_map]
      cases program[before]? with
      | none => rfl
      | some token =>
        by_cases named : token.kind = .identifier <;> simp [Option.filter, Token.mapPosition, named]
  column := column
  line := line
  whole _ := Array.size_map
  excuse cut := cut.elim
  apart cut := cut.elim
  closed cut := cut.elim
  contains := by
    rintro labels _ rfl label
    rfl
  added := by
    rintro labels _ label range rfl _ _
    simp only [moving, BlockRange.shift_zero]
  logged _ _ := trivial

section Running
variable {σ : Type} [Host (StateM σ)]

theorem run_eq (source : String) (capacity : Nat) (host : σ) :
    (Program.run source capacity : StateM σ (Except Error Outcome)).run host =
      match Program.tokenize source with
      | .error error => (.error error, host)
      | .ok tokens =>
        ((call (Machine.load tokens.toArray capacity) host).1.1,
          (call (Machine.load tokens.toArray capacity) host).2) := by
  unfold Program.run Program.runTraced
  cases Program.tokenize source <;> rfl

/-- Tokens at other places run alike. -/
theorem call_moving (tokens : List Token) {move : Position → Position}
    (column : ∀ first second,
      (move first).column = (move second).column ↔ first.column = second.column)
    (line : ∀ first second, (move first).line = (move second).line ↔ first.line = second.line)
    (capacity : Nat) (host : σ) :
    let ended := call (Machine.load tokens.toArray capacity) host
    let other := call (Machine.load (tokens.map (·.mapPosition move)).toArray capacity) host
    other.1.1 = ended.1.1.mapError (·.mapPosition move) ∧ other.2 = ended.2 := by
  have near : (moving tokens.toArray move).Near (Machine.load tokens.toArray capacity)
      (Machine.load (tokens.map (·.mapPosition move)).toArray capacity) :=
    { tokens := rfl
      twinTokens := by simp [moving, Machine.load]
      counter := rfl
      near := Nat.le_refl _
      within := Nat.zero_le _
      values := rfl
      capacity := .inl rfl
      bindings := rfl
      labels := rfl
      depth := rfl
      log := trivial }
  rcases call_alike (moving_lawful _ column line) host id near with ⟨_, _, excused⟩ | same
  · exact excused.elim
  · exact ⟨same.1, same.2.1⟩

/-- Laying a text out anew changes nothing about its run but the place that a fault names, and
that place is where the line went. -/
theorem run_relaidText (indent : Nat) {filler : Nat → List (List Char)}
    (fills : ∀ number, ∀ line ∈ filler number, isFiller line = true) (closed : Bool)
    (source : String) (capacity : Nat) (host : σ) :
    let ended := (Program.run source capacity : StateM σ (Except Error Outcome)).run host
    let other := (Program.run (relaidText indent filler closed source) capacity :
      StateM σ (Except Error Outcome)).run host
    other.1 = ended.1.mapError (·.mapPosition (replace indent filler)) ∧ other.2 = ended.2 ∧
      ∀ index line, (linesOf source.toList)[index]? = some line →
        (relaid indent filler 1 (linesOf source.toList))[renumber filler (index + 1) - 1]? =
          some (List.replicate indent ' ' ++ line) := by
  intro ended other
  have column (first second : Position) : (replace indent filler first).column =
      (replace indent filler second).column ↔ first.column = second.column :=
    Nat.add_right_cancel_iff
  have line (first second : Position) : (replace indent filler first).line =
      (replace indent filler second).line ↔ first.line = second.line :=
    renumber_inj filler
  have agreed : other.1 = ended.1.mapError (·.mapPosition (replace indent filler)) ∧
      other.2 = ended.2 := by
    simp only [ended, other, run_eq, tokenize_relaidText fills]
    cases Program.tokenize source with
    | error error => exact ⟨rfl, rfl⟩
    | ok tokens => exact call_moving tokens column line capacity host
  refine ⟨agreed.1, agreed.2, ?_⟩
  intro index text held
  have found := getElem?_relaid indent filler held 0
  rw [Nat.zero_add index] at found
  exact found

end Running

/-- A comment and a blank line before the first line, and nothing else. -/
def remarks : Nat → List (List Char)
  | 1 => ["# about".toList, " ".toList]
  | _ => []

theorem remarks_fill (number : Nat) : ∀ line ∈ remarks number, isFiller line = true := by
  unfold remarks
  split
  · decide
  · simp

theorem run_relaidText_remarks :
    ((Program.run "PRINT total" 4 : StateM Transcript (Except Error Outcome)).run
        (Transcript.ofInput [])).1 = .error (.meant (.undefinedVariable "total" ⟨1, 6⟩)) ∧
      relaidText 2 remarks true "PRINT total" = "# about\n \n  PRINT total\n" ∧
      ((Program.run (relaidText 2 remarks true "PRINT total") 4 :
        StateM Transcript (Except Error Outcome)).run (Transcript.ofInput [])).1 =
          .error (.meant (.undefinedVariable "total" ⟨3, 8⟩)) := by
  have tokens : Program.tokenize "PRINT total" = .ok
      [⟨.command .print, .keyword "PRINT", ⟨1, 0⟩⟩, ⟨.identifier, .name "total", ⟨1, 6⟩⟩] := by
    cbv
  have plain : ((Program.run "PRINT total" 4 : StateM Transcript (Except Error Outcome)).run
      (Transcript.ofInput [])).1 = .error (.meant (.undefinedVariable "total" ⟨1, 6⟩)) := by
    rw [run_eq, tokens]
    decide +kernel
  refine ⟨plain, by cbv, ?_⟩
  rw [(run_relaidText 2 remarks_fill true "PRINT total" 4 (Transcript.ofInput [])).1, plain]
  rfl

end StackScript.Relayout
