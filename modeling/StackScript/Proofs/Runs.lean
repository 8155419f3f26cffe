import StackScript.Proofs.Lines
import StackScript.Word.Layout

/-! The words of a text are the runs of its lines. A run is a stretch of a line without blanks that
cannot be made longer; a run that is a lone `#` starts a comment and hides every run after it.
Scanning finds each run that is not hidden, with its characters, its line and its column, and
finds them in order. -/
namespace StackScript.Runs
open Word Lines

/-- The characters that divide words. -/
def blanks : List Char := [' ', '\t', '\r', '\n', '\x0c']

/-- A stretch of a line that starts in a column, has no blank and stands between blanks or the ends
of the line. -/
structure Run (line : List Char) (column : Nat) (chars : List Char) : Prop where
  some : chars ≠ []
  solid : ∀ c ∈ chars, c ∉ blanks
  stands : ∃ before after, line = before ++ chars ++ after ∧ before.length = column ∧
    (∀ c ∈ before.getLast?, c ∈ blanks) ∧ ∀ c ∈ after.head?, c ∈ blanks

/-- A run of a line that is no part of a comment. -/
structure WordAt (line : List Char) (column : Nat) (chars : List Char) : Prop where
  run : Run line column chars
  marks : chars ≠ ['#']
  uncommented : ∀ earlier < column, ¬ Run line earlier ['#']

/-- A word of a text: what it is and where it stands in which line, counted from one. -/
def IsWordOf (source : String) (word : Word) : Prop :=
  ∃ index line, (linesOf source.toList)[index]? = some line ∧
    word.position.line = index + 1 ∧ WordAt line word.position.column word.chars

theorem mem_blanks_iff {c : Char} : c ∈ blanks ↔ Text.isBlank c = true := by
  simp [blanks, Text.isBlank, or_assoc]

theorem isBlank_eq_false {c : Char} (other : c ∉ blanks) : Text.isBlank c = false := by
  rwa [mem_blanks_iff, Bool.not_eq_true] at other

section Lists
variable {line chars word after : List Char} {column : Nat}

theorem not_run_nil : ¬ Run [] column chars := by
  rintro ⟨some, -, before, after, shape, -⟩
  have empty : before ++ chars ++ after = [] := shape.symm
  simp only [List.append_eq_nil_iff] at empty
  exact some empty.1.2

/-- A blank in front of a line moves its runs by one column. -/
theorem run_blank {c : Char} (blank : c ∈ blanks) :
    Run (c :: line) column chars ↔ ∃ inner, column = inner + 1 ∧ Run line inner chars := by
  constructor
  · rintro ⟨some, solid, before, after, shape, rfl, left, right⟩
    cases before with
    | nil =>
      obtain ⟨first, others, rfl⟩ := List.exists_cons_of_ne_nil some
      obtain ⟨rfl, -⟩ := List.cons.inj shape
      exact absurd blank (solid c List.mem_cons_self)
    | cons d before =>
      obtain ⟨-, shape⟩ := List.cons.inj shape
      refine ⟨before.length, rfl, some, solid, before, after, shape, rfl, ?_, right⟩
      intro e last
      exact left e (by simp [List.getLast?_cons, Option.mem_def.mp last])
  · rintro ⟨inner, rfl, some, solid, before, after, rfl, rfl, left, right⟩
    refine ⟨some, solid, c :: before, after, rfl, rfl, ?_, right⟩
    intro e last
    cases ends : before.getLast? with
    | none =>
      rw [List.getLast?_cons, ends] at last
      exact Option.some.inj last ▸ blank
    | some final =>
      rw [List.getLast?_cons, ends] at last
      exact Option.some.inj last ▸ left final ends

/-- Two stretches without blanks that begin a text and are followed by a blank are the same. -/
theorem eq_of_solid {tail : List Char} (solid : ∀ c ∈ chars, c ∉ blanks)
    (firm : ∀ c ∈ word, c ∉ blanks) (right : ∀ c ∈ tail.head?, c ∈ blanks)
    (ends : ∀ c ∈ after.head?, c ∈ blanks) (same : word ++ after = chars ++ tail) :
    chars = word := by
  induction word generalizing chars with
  | nil =>
    cases chars with
    | nil => rfl
    | cons c chars =>
      rw [List.nil_append] at same
      exact absurd (ends c (by rw [same]; rfl)) (solid c List.mem_cons_self)
  | cons d word ih =>
    cases chars with
    | nil =>
      rw [List.nil_append] at same
      exact absurd (right d (by rw [← same]; rfl)) (firm d List.mem_cons_self)
    | cons c chars =>
      obtain ⟨rfl, later⟩ := List.cons.inj same
      rw [ih (fun e member => solid e (List.mem_cons_of_mem _ member))
        (fun e member => firm e (List.mem_cons_of_mem _ member)) later]

/-- The runs of a line that begins with one: this one, and those of the rest of the line. -/
theorem run_word (some : word ≠ []) (firm : ∀ c ∈ word, c ∉ blanks)
    (ends : ∀ c ∈ after.head?, c ∈ blanks) :
    Run (word ++ after) column chars ↔ column = 0 ∧ chars = word ∨
      ∃ inner, column = word.length + inner ∧ Run after inner chars := by
  constructor
  · rintro ⟨filled, solid, before, tail, shape, rfl, left, right⟩
    rw [List.append_assoc, List.append_eq_append_iff] at shape
    rcases shape with ⟨gap, rfl, rfl⟩ | ⟨piece, rfl, same⟩
    · refine .inr ⟨gap.length, List.length_append, filled, solid, gap, tail,
        (List.append_assoc _ _ _).symm, rfl, ?_, right⟩
      intro c last
      exact left c (by simp [List.getLast?_append, Option.mem_def.mp last])
    · -- What stands before the run is a part of the word, which has no blank.
      cases shape : before.getLast? with
      | none =>
        rw [List.getLast?_eq_none_iff] at shape
        subst shape
        exact .inl ⟨rfl, eq_of_solid solid firm right ends same.symm⟩
      | some last =>
        have member : last ∈ before ++ piece :=
          List.mem_append_left _ (List.mem_of_getLast? shape)
        exact absurd (left last shape) (firm last member)
  · rintro (⟨rfl, rfl⟩ | ⟨inner, rfl, filled, solid, before, tail, rfl, rfl, left, right⟩)
    · exact ⟨some, firm, [], after, rfl, rfl, by simp, ends⟩
    · refine ⟨filled, solid, word ++ before, tail, by simp only [List.append_assoc],
        List.length_append, ?_, right⟩
      cases before with
      | nil =>
        obtain ⟨c, others, rfl⟩ := List.exists_cons_of_ne_nil filled
        exact absurd (ends c rfl) (solid c List.mem_cons_self)
      | cons d before =>
        intro c last
        refine left c ?_
        simpa [List.getLast?_append, List.getLast?_cons] using last

theorem wordAt_blank {c : Char} (blank : c ∈ blanks) :
    WordAt (c :: line) column chars ↔ ∃ inner, column = inner + 1 ∧ WordAt line inner chars := by
  constructor
  · rintro ⟨run, marks, uncommented⟩
    obtain ⟨inner, rfl, behind⟩ := (run_blank blank).mp run
    refine ⟨inner, rfl, behind, marks, fun earlier before comment => ?_⟩
    exact uncommented (earlier + 1) (by omega) ((run_blank blank).mpr ⟨earlier, rfl, comment⟩)
  · rintro ⟨inner, rfl, run, marks, uncommented⟩
    refine ⟨(run_blank blank).mpr ⟨inner, rfl, run⟩, marks, fun earlier before comment => ?_⟩
    obtain ⟨earlier, rfl, behind⟩ := (run_blank blank).mp comment
    exact uncommented earlier (by omega) behind

theorem wordAt_word (some : word ≠ []) (firm : ∀ c ∈ word, c ∉ blanks)
    (ends : ∀ c ∈ after.head?, c ∈ blanks) (plain : word ≠ ['#']) :
    WordAt (word ++ after) column chars ↔ column = 0 ∧ chars = word ∨
      ∃ inner, column = word.length + inner ∧ WordAt after inner chars := by
  have split {column : Nat} {chars : List Char} : Run (word ++ after) column chars ↔ _ :=
    run_word some firm ends
  constructor
  · rintro ⟨run, marks, uncommented⟩
    rcases split.mp run with first | ⟨inner, rfl, behind⟩
    · exact .inl first
    · refine .inr ⟨inner, rfl, behind, marks, fun earlier before comment => ?_⟩
      exact uncommented (word.length + earlier) (by omega) (split.mpr (.inr ⟨earlier, rfl, comment⟩))
  · rintro (⟨rfl, rfl⟩ | ⟨inner, rfl, run, marks, uncommented⟩)
    · exact ⟨split.mpr (.inl ⟨rfl, rfl⟩), plain, fun earlier before => absurd before (by omega)⟩
    · refine ⟨split.mpr (.inr ⟨inner, rfl, run⟩), marks, fun earlier before comment => ?_⟩
      rcases split.mp comment with ⟨-, same⟩ | ⟨earlier, rfl, behind⟩
      · exact plain same.symm
      · exact uncommented earlier (by omega) behind

/-- A line that begins with a lone `#` has no words. -/
theorem not_wordAt_comment (ends : ∀ c ∈ after.head?, c ∈ blanks) :
    ¬ WordAt (['#'] ++ after) column chars := by
  rintro ⟨run, marks, uncommented⟩
  have split {column : Nat} {chars : List Char} : Run (['#'] ++ after) column chars ↔ _ :=
    run_word (List.cons_ne_nil _ _) (List.forall_mem_singleton.mpr (by decide)) ends
  rcases split.mp run with ⟨-, same⟩ | ⟨inner, rfl, -⟩
  · exact marks same
  · exact uncommented 0 (Nat.add_pos_left Nat.one_pos inner) (split.mpr (.inl ⟨rfl, rfl⟩))

end Lists

section Scanning

theorem solid_takeWhile {c : Char} (solid : ¬ Text.isBlank c = true) (rest : List Char) :
    ∀ d ∈ c :: rest.takeWhile (!Text.isBlank ·), d ∉ blanks := by
  intro d member
  rw [mem_blanks_iff]
  rcases List.mem_cons.mp member with rfl | member
  · exact solid
  · have all : (rest.takeWhile (!Text.isBlank ·)).all (!Text.isBlank ·) = true := List.all_takeWhile
    simpa using List.all_eq_true.mp all d member

theorem blank_dropWhile (rest : List Char) :
    ∀ c ∈ (rest.dropWhile (!Text.isBlank ·)).head?, c ∈ blanks := by
  intro c first
  rw [mem_blanks_iff]
  have stopped := List.head?_dropWhile_not (!Text.isBlank ·) rest
  rw [Option.mem_def.mp first] at stopped
  simpa using stopped

/-- Scanning a line finds its words. -/
theorem mem_scanFrom_iff {line : List Char} (plain : '\n' ∉ line) (position : Position)
    (word : Word) :
    word ∈ scanFrom position line ↔
      ∃ column, word.position = position.shift column ∧ WordAt line column word.chars := by
  fun_induction scanFrom position line with
  | case1 position =>
    constructor
    · intro member
      exact absurd member List.not_mem_nil
    · rintro ⟨column, -, stands⟩
      exact absurd stands.run not_run_nil
  | case2 position line => simp at plain
  | case3 position c line other blank ih =>
    simp only [List.mem_cons, not_or] at plain
    rw [ih plain.2]
    simp only [wordAt_blank (mem_blanks_iff.mpr blank), Position.shift_shift]
    constructor
    · rintro ⟨column, placed, stands⟩
      exact ⟨column + 1, by rw [placed, Nat.add_comm], column, rfl, stands⟩
    · rintro ⟨_, placed, column, rfl, stands⟩
      exact ⟨column, by rw [placed, Nat.add_comm], stands⟩
  | case4 position c line other solid chars after next comment ih =>
    simp only [List.mem_cons, not_or] at plain
    have inner : '\n' ∉ after := fun member => plain.2 (List.dropWhile_subset _ member)
    have shape : c :: line = ['#'] ++ after := by
      rw [← beq_iff_eq.mp comment]
      exact congrArg (c :: ·) List.takeWhile_append_dropWhile.symm
    rw [dropWhile_plain inner, scanFrom_nil, shape]
    constructor
    · intro member
      exact absurd member List.not_mem_nil
    · rintro ⟨column, -, stands⟩
      exact absurd stands (not_wordAt_comment (blank_dropWhile line))
  | case5 position c line other solid chars after next marks ih =>
    simp only [List.mem_cons, not_or] at plain
    have inner : '\n' ∉ after := fun member => plain.2 (List.dropWhile_subset _ member)
    have shape : c :: line = chars ++ after :=
      congrArg (c :: ·) List.takeWhile_append_dropWhile.symm
    have lone : chars ≠ ['#'] := fun same => marks (beq_iff_eq.mpr same)
    have split (column : Nat) : WordAt (chars ++ after) column word.chars ↔ _ :=
      wordAt_word (List.cons_ne_nil _ _) (solid_takeWhile solid line) (blank_dropWhile line) lone
    rw [List.mem_cons, ih inner, shape]
    simp only [split, next, Position.shift_shift]
    constructor
    · rintro (rfl | ⟨column, placed, stands⟩)
      · exact ⟨0, rfl, .inl ⟨rfl, rfl⟩⟩
      · exact ⟨_, placed, .inr ⟨column, rfl, stands⟩⟩
    · rintro ⟨_, placed, ⟨rfl, same⟩ | ⟨column, rfl, stands⟩⟩
      · left
        rw [← same, ← position.shift_zero, ← placed]
      · exact .inr ⟨column, placed, stands⟩

theorem mem_scanLines_iff (number : Nat) (lines : List (List Char)) (word : Word) :
    word ∈ scanLines number lines ↔ ∃ index line, lines[index]? = some line ∧
      word ∈ scanFrom ⟨number + index, 0⟩ line := by
  induction lines generalizing number with
  | nil => simp [scanLines]
  | cons first lines ih =>
    rw [scanLines, List.mem_append, ih]
    constructor
    · rintro (here | ⟨index, line, known, there⟩)
      · exact ⟨0, first, rfl, here⟩
      · exact ⟨index + 1, line, known, by rwa [Nat.add_comm index 1, ← Nat.add_assoc]⟩
    · rintro ⟨index, line, known, found⟩
      cases index with
      | zero =>
        obtain rfl : first = line := Option.some.inj known
        exact .inl found
      | succ index =>
        exact .inr ⟨index, line, known, by rwa [Nat.add_assoc, Nat.add_comm 1 index]⟩

/-- Scanning a text finds the words of its lines and nothing else. -/
theorem mem_scan_iff (source : String) (word : Word) :
    word ∈ scan source ↔ IsWordOf source word := by
  rw [scan_eq_scanLines, mem_scanLines_iff]
  refine exists_congr fun index => exists_congr fun line => and_congr_right fun known => ?_
  have plain : '\n' ∉ line := linesOf_plain _ line (List.mem_of_getElem? known)
  rw [mem_scanFrom_iff plain]
  constructor
  · rintro ⟨column, placed, stands⟩
    rw [placed]
    exact ⟨Nat.add_comm 1 index, by simpa [Position.shift] using stands⟩
  · rintro ⟨number, stands⟩
    refine ⟨word.position.column, ?_, stands⟩
    simp [Position.shift, Nat.add_comm 1 index, ← number]

end Scanning

section Order

/-- A word does not start before a place. -/
def NotBefore (position : Position) (word : Word) : Prop :=
  position.line < word.position.line ∨
    position.line = word.position.line ∧ position.column ≤ word.position.column

theorem NotBefore.mono {position later : Position} {word : Word} (after : NotBefore later word)
    (line : position.line = later.line) (column : position.column ≤ later.column) :
    NotBefore position word := by
  unfold NotBefore at after ⊢
  omega

theorem NotBefore.of_newline {position : Position} {word : Word}
    (after : NotBefore position.newline word) : NotBefore position word := by
  simp only [NotBefore, Position.newline] at after ⊢
  omega

theorem scanFrom_notBefore (position : Position) (chars : List Char) :
    ∀ word ∈ scanFrom position chars, NotBefore position word := by
  fun_induction scanFrom position chars with
  | case1 => simp
  | case2 position rest ih => exact fun word member => (ih word member).of_newline
  | case3 position c rest other blank ih =>
    exact fun word member => (ih word member).mono rfl (Nat.le_add_right _ _)
  | case4 position c rest other solid chars after next comment ih =>
    exact fun word member => (ih word member).mono rfl (Nat.le_add_right _ _)
  | case5 position c rest other solid chars after next marks ih =>
    refine List.forall_mem_cons.mpr ⟨.inr ⟨rfl, Nat.le_refl _⟩, fun word member => ?_⟩
    exact (ih word member).mono rfl (Nat.le_add_right _ _)

/-- After a blank, the next word starts one column further right or in a later line. -/
theorem notBefore_of_blank {position : Position} {rest : List Char}
    (ends : ∀ c ∈ rest.head?, c ∈ blanks) :
    ∀ word ∈ scanFrom position rest, NotBefore (position.shift 1) word := by
  cases rest with
  | nil => simp [scanFrom_nil]
  | cons c rest =>
    have blank : Text.isBlank c = true := mem_blanks_iff.mp (ends c rfl)
    by_cases line : c = '\n'
    · subst line
      rw [scanFrom_newline]
      exact fun word member => NotBefore.of_newline (scanFrom_notBefore _ _ word member)
    · rw [scanFrom_blank line blank]
      exact scanFrom_notBefore _ _

/-- The words of a text stand in order and apart from each other. -/
theorem scanFrom_pairwise (position : Position) (chars : List Char) :
    (scanFrom position chars).Pairwise Precedes := by
  fun_induction scanFrom position chars with
  | case1 => exact .nil
  | case2 _ _ ih | case3 _ _ _ _ _ ih | case4 _ _ _ _ _ _ _ _ _ ih => exact ih
  | case5 position c rest other solid chars after next marks ih =>
    refine .cons (fun word member => ?_) ih
    exact notBefore_of_blank (blank_dropWhile rest) word member

theorem precedes_irrefl (word : Word) : ¬ Precedes word word := by
  unfold Precedes
  omega

end Order

/-- Scanning lists the words of a text: every run of one of its lines that is not a lone `#` and does
not come after one, with the characters, the line and the column of the run. It lists nothing
else, lists the words in order, and lists none of them twice. -/
theorem scan_lists_words (source : String) :
    (∀ word, word ∈ scan source ↔ IsWordOf source word) ∧
      (scan source).Pairwise Precedes ∧ (scan source).Nodup := by
  have ordered : (scan source).Pairwise Precedes := scanFrom_pairwise _ _
  refine ⟨mem_scan_iff source, ordered, ordered.imp fun first => ?_⟩
  rintro rfl
  exact precedes_irrefl _ first

example : (scan "é\u00a0#b\t# c\n\x0b x#\r\n#").map (fun word => (word.text, word.position)) =
    [("é\u00a0#b", ⟨1, 0⟩), ("\x0b", ⟨2, 0⟩), ("x#", ⟨2, 2⟩)] := by
  cbv

end StackScript.Runs
