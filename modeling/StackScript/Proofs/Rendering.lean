import StackScript.Proofs.RoundTrip
import StackScript.Proofs.Runs

/-! Scanning undoes writing. The words of a text are well laid, words that are well laid are
scanned back from the text they are written as, and so these are the only lists of words that
scanning gives. Written with single spaces between them, words keep their characters though not
their places. -/
namespace StackScript.Rendering
open Word Lines Runs RoundTrip

section Places
variable {position : Position} {word : Word}

/-- The next word starts behind a word and a blank. -/
theorem notBefore_of_precedes {first second : Word} (apart : Precedes first second) :
    NotBefore ((first.position.shift first.chars.length).shift 1) second := apart

theorem notBefore_of_shift (after : NotBefore (position.shift 1) word) :
    NotBefore position word :=
  after.mono rfl (Nat.le_add_right _ _)

theorem notBefore_of_placed (placed : 1 ≤ word.position.line) : NotBefore ⟨1, 0⟩ word := by
  rcases Nat.lt_or_eq_of_le placed with below | first
  · exact .inl below
  · exact .inr ⟨first, Nat.zero_le _⟩

end Places

section Gaps

theorem scanFrom_lineFeeds (position : Position) (count : Nat) (rest : List Char) :
    scanFrom position (List.replicate (count + 1) '\n' ++ rest) =
      scanFrom ⟨position.line + (count + 1), 0⟩ rest := by
  induction count generalizing position with
  | zero => exact scanFrom_newline position rest
  | succ count ih =>
    have further : position.newline.line + (count + 1) = position.line + (count + 1 + 1) := by
      simp only [Position.newline]
      omega
    rw [List.replicate_succ, List.cons_append, scanFrom_newline, ih, further]

/-- A gap leads to the place of the next word. -/
theorem scanFrom_gap {position : Position} {word : Word} (after : NotBefore position word)
    (rest : List Char) :
    scanFrom position (gap position word.position ++ rest) = scanFrom word.position rest := by
  rcases after with below | ⟨line, column⟩
  · obtain ⟨count, lines⟩ : ∃ count, word.position.line - position.line = count + 1 :=
      ⟨word.position.line - position.line - 1, by omega⟩
    have reached : position.line + (count + 1) = word.position.line := by omega
    rw [gap, if_neg (Nat.ne_of_lt below), lines, List.append_assoc, scanFrom_lineFeeds,
      scanFrom_indented, reached, Position.shift, Nat.zero_add]
  · rw [gap, if_pos line, scanFrom_indented, Position.shift, line, Nat.add_sub_cancel' column]

/-- A gap that is not empty begins with a blank. -/
theorem head_gap {position : Position} {word : Word} (after : NotBefore (position.shift 1) word)
    (rest : List Char) :
    ∀ c ∈ (gap position word.position ++ rest).head?, Text.isBlank c = true := by
  simp only [NotBefore, Position.line_shift, Position.column_shift] at after
  rcases after with below | ⟨line, column⟩
  · obtain ⟨count, lines⟩ : ∃ count, word.position.line - position.line = count + 1 :=
      ⟨word.position.line - position.line - 1, by omega⟩
    rw [gap, if_neg (Nat.ne_of_lt below), lines]
    rintro c ⟨⟩
    rfl
  · obtain ⟨count, spaces⟩ : ∃ count, word.position.column - position.column = count + 1 :=
      ⟨word.position.column - position.column - 1, by omega⟩
    rw [gap, if_pos line, spaces]
    rintro c ⟨⟩
    rfl

theorem head_renderFrom {position : Position} {words : List Word}
    (after : ∀ word ∈ words, NotBefore (position.shift 1) word) :
    ∀ c ∈ (renderFrom position words).head?, Text.isBlank c = true := by
  cases words with
  | nil => exact nofun
  | cons word words =>
    rw [renderFrom, List.append_assoc]
    exact head_gap (after word List.mem_cons_self) _

end Gaps

/-- Words that stand in order are scanned back wherever the writing of them begins. -/
theorem scanFrom_renderFrom {words : List Word} (plain : ∀ word ∈ words, IsPlain word.chars)
    (apart : words.Pairwise Precedes) {position : Position}
    (after : ∀ word ∈ words, NotBefore position word) :
    scanFrom position (renderFrom position words) = words := by
  induction words generalizing position with
  | nil => exact scanFrom_nil position
  | cons word words ih =>
    obtain ⟨first, later⟩ := List.pairwise_cons.mp apart
    have behind : ∀ other ∈ words,
        NotBefore ((word.position.shift word.chars.length).shift 1) other :=
      fun other member => notBefore_of_precedes (first other member)
    rw [renderFrom, List.append_assoc, scanFrom_gap (after word List.mem_cons_self),
      scanFrom_plain (plain word List.mem_cons_self) _ (head_renderFrom behind),
      ih (fun other member => plain other (List.mem_cons_of_mem _ member)) later
        (fun other member => notBefore_of_shift (behind other member))]

theorem scan_render {words : List Word} (laid : WellLaid words) : scan (render words) = words := by
  rw [scan, render, String.toList_ofList]
  exact scanFrom_renderFrom laid.plain laid.apart
    fun word member => notBefore_of_placed (laid.placed word member)

/-- What stands in a line as a word is read back as one. -/
theorem plain_of_wordAt {line chars : List Char} {column : Nat} (stands : WordAt line column chars) :
    IsPlain chars := by
  refine ⟨stands.run.some, fun c member => ?_, beq_eq_false_iff_ne.mpr stands.marks⟩
  exact isBlank_eq_false (stands.run.solid c member)

/-- The words of a text can be written down. -/
theorem wellLaid_scan (source : String) : WellLaid (scan source) where
  plain word member := by
    obtain ⟨index, line, -, -, stands⟩ := (mem_scan_iff source word).mp member
    exact plain_of_wordAt stands
  placed word member := by
    obtain ⟨index, line, -, number, -⟩ := (mem_scan_iff source word).mp member
    omega
  apart := scanFrom_pairwise _ _

/-- The texts of words, with single spaces between them. -/
def joined (words : List Word) : String := " ".intercalate (words.map Word.text)

theorem scan_joined {words : List Word} (plain : ∀ word ∈ words, IsPlain word.chars) :
    (scan (joined words)).map Word.text = words.map Word.text := by
  have source : (joined words).toList = spaced (words.map Word.chars) := by
    rw [joined, String.toList_intercalate, List.map_map]
    exact congrArg spaced (List.map_congr_left fun word _ => String.toList_ofList)
  have same : (scan (joined words)).map Word.chars = words.map Word.chars := by
    rw [scan, source]
    refine scanFrom_spaced (fun chars member => ?_) _
    obtain ⟨word, inside, rfl⟩ := List.mem_map.mp member
    exact plain word inside
  have texts := congrArg (List.map String.ofList) same
  rwa [List.map_map, List.map_map] at texts

/-- Scanning and writing are inverse to each other on the words that are well laid, and the words of
a text are. Words joined by single spaces are scanned as the same words. -/
theorem scan_undoes_render :
    (∀ source, WellLaid (scan source)) ∧
    (∀ words, WellLaid words →
      scan (render words) = words ∧ (scan (joined words)).map Word.text = words.map Word.text) ∧
    (∀ source, scan (render (scan source)) = scan source ∧
      (scan (joined (scan source))).map Word.text = (scan source).map Word.text) := by
  have back {words : List Word} (laid : WellLaid words) :
      scan (render words) = words ∧ (scan (joined words)).map Word.text = words.map Word.text :=
    ⟨scan_render laid, scan_joined laid.plain⟩
  exact ⟨wellLaid_scan, fun _ => back, fun source => back (wellLaid_scan source)⟩

/-- Two words in one line with the least gap between them, the first of them at a distance from
its line's start, and one that begins like a comment three lines below. -/
def scattered : List Word :=
  [⟨"é#".toList, ⟨2, 3⟩⟩, ⟨"x".toList, ⟨2, 6⟩⟩, ⟨"##".toList, ⟨5, 0⟩⟩]

theorem scan_undoes_render_scattered :
    WellLaid scattered ∧ render scattered = "\n   é# x\n\n\n##" ∧
      scan "\n   é# x\n\n\n##" = scattered ∧
      (scan "é# x ##").map Word.text = ["é#", "x", "##"] := by
  have laid : WellLaid scattered := by decide
  have text : render scattered = "\n   é# x\n\n\n##" := by decide
  have line : joined scattered = "é# x ##" := by decide
  obtain ⟨places, texts⟩ := scan_undoes_render.2.1 scattered laid
  exact ⟨laid, text, text ▸ places, line ▸ texts⟩

end StackScript.Rendering
