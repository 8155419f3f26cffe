import StackScript.Proofs.ReadingSteps
import StackScript.Proofs.Ungluing

/-! Reading ends, and tokens are paid for with characters. What is put back and what was never
touched are one list of words, and no step makes its characters more; a step that adds a token makes
them fewer, so there are never more tokens than characters. That alone does not end the loop: a
word may be cut in two without losing a character, and a word may have none. What goes down at
every step are the weights of the words, which bound the number of steps. -/
namespace StackScript.Consumption
open Reader ReadingSteps Ungluing

/-- The number of characters of all words together. -/
def characters : List Word → Nat
  | [] => 0
  | word :: rest => word.chars.length + characters rest

@[simp] theorem characters_nil : characters [] = 0 := rfl

@[simp] theorem characters_cons (word : Word) (rest : List Word) :
    characters (word :: rest) = word.chars.length + characters rest := rfl

/-- The weights are at most two for each character and one for each word. -/
theorem weights_le (words : List Word) : weights words ≤ 2 * characters words + words.length := by
  induction words with
  | nil => exact Nat.le_refl 0
  | cons word rest ih =>
    simp only [weights_cons, characters_cons, List.length_cons, weight]
    omega

section Steps
variable {stage next : Stage} {words left : List Word}

theorem characters_remains (remains : Remains words left) : characters left ≤ characters words := by
  induction remains with
  | rest => exact Nat.le_add_left _ _
  | skip _ _ ih => exact Nat.le_trans ih (Nat.le_add_left _ _)
  | cut _ _ =>
    simp only [characters_cons, Word.chars_drop, List.length_drop]
    omega

/-- What is left of some of the words, once a character of theirs is taken, has fewer characters
than all of them. The word itself must have one: the words that it takes with it may be empty. -/
theorem characters_token {word first : Word} {rest others : List Word} (solid : word.chars ≠ [])
    (suffix : first :: others <:+ word :: rest) (remains : Remains (first.drop 1 :: others) left) :
    characters left < characters (word :: rest) := by
  have long : 0 < word.chars.length := List.length_pos_iff.mpr solid
  rcases List.suffix_cons_iff.mp suffix with same | later
  · obtain ⟨rfl, rfl⟩ := List.cons.inj same
    have fewer := characters_remains remains
    simp only [characters_cons, Word.chars_drop, List.length_drop] at fewer ⊢
    omega
  · have fewer := characters_remains (remains_of_suffix later (remains_of_drop remains))
    simp only [characters_cons]
    omega

/-- A step adds no token and no character, or adds a token and takes a character at least. -/
theorem step_consumes (step : Step stage next) :
    next.tokens = stage.tokens ∧ characters next.words ≤ characters stage.words ∨
      ∃ token, next.tokens = stage.tokens ++ [token] ∧
        characters next.words < characters stage.words := by
  obtain ⟨read⟩ := step
  cases takes_of_reads (readWord_reads read) with
  | nothing => exact .inl ⟨List.append_nil _, Nat.le_add_left _ _⟩
  | apart _ long =>
    refine .inl ⟨List.append_nil _, ?_⟩
    simp only [characters_cons, Word.chars_take, List.length_take, Word.chars_drop,
      List.length_drop]
    omega
  | sign is =>
    have long : 0 < _ := List.length_pos_iff.mpr (solid_of_sign is)
    exact .inr ⟨_, rfl, Nat.lt_add_of_pos_left long⟩
  | token solid suffix remains => exact .inr ⟨_, rfl, characters_token solid suffix remains⟩

/-- Along the loop, the tokens and the characters left do not become more together. -/
theorem leads_consumes (leads : Leads stage next) :
    next.tokens.length + characters next.words ≤ stage.tokens.length + characters stage.words := by
  induction leads with
  | refl => exact Nat.le_refl _
  | tail _ step ih =>
    refine Nat.le_trans ?_ ih
    rcases step_consumes step with ⟨same, fewer⟩ | ⟨token, more, fewer⟩
    · rw [same]
      exact Nat.add_le_add_left fewer _
    · rw [more, List.length_append, List.length_singleton]
      omega

/-- A run of the loop is no longer than the weights of the words that it starts with. -/
theorem length_le_weights {stages : List Stage} (run : List.IsChain Step (stage :: stages)) :
    stages.length ≤ weights stage.words := by
  induction stages generalizing stage with
  | nil => exact Nat.zero_le _
  | cons next stages ih =>
    obtain ⟨step, later⟩ := List.isChain_cons_cons.mp run
    have lighter := weights_of_step step
    have rest := ih later
    rw [List.length_cons]
    omega

end Steps

/-- Reading any words, empty ones and such with blanks in them too, takes a bounded number of steps.
It ends with no words left, and then there are at most as many tokens as there were characters, or
at a word that is refused. On the way the characters never become more, and every token takes at
least one of them; yet cutting off a closing parenthesis takes none and leaves a word more. -/
theorem reading_consumes (words : List Word) :
    (∀ stages, List.IsChain Step (⟨[], words⟩ :: stages) →
      stages.length ≤ 2 * characters words + words.length) ∧
    (∀ stage next, Leads ⟨[], words⟩ stage → Step stage next →
      next.tokens = stage.tokens ∧ characters next.words ≤ characters stage.words ∨
        ∃ token, next.tokens = stage.tokens ++ [token] ∧
          characters next.words < characters stage.words) ∧
    (match Reader.read words with
      | .ok tokens => Leads ⟨[], words⟩ ⟨tokens, []⟩ ∧ tokens.length ≤ characters words
      | .error error => ∃ tokens word rest, Leads ⟨[], words⟩ ⟨tokens, word :: rest⟩ ∧
          readWord (endsInRead tokens) word rest = .error error) ∧
    (∀ (tokens : List Token) (inner : List Char) (place : Position) (rest : List Word),
      inner ≠ [] → inner.head? ≠ some '(' → inner.head? ≠ some '"' →
      let glued : Word := ⟨inner ++ [')'], place⟩
      let pieces : List Word := [⟨inner, place⟩, ⟨[')'], place.shift inner.length⟩]
      Step ⟨tokens, glued :: rest⟩ ⟨tokens, pieces ++ rest⟩ ∧
        characters (pieces ++ rest) = characters (glued :: rest)) := by
  refine ⟨?_, fun _ _ _ => step_consumes, ?_, ?_⟩
  · intro stages run
    exact Nat.le_trans (length_le_weights run) (weights_le words)
  · have ends := loop_ends ⟨[], words⟩
    rw [result_start] at ends
    cases read : Reader.read words with
    | error error =>
      rw [read] at ends
      exact ends
    | ok tokens =>
      rw [read] at ends
      exact ⟨ends, by simpa using leads_consumes ends⟩
  · intro tokens inner place rest filled unopened unquoted glued pieces
    have read := readWord_closing (endsInRead tokens) place rest filled unopened unquoted
    have step := Step.read read
    rw [Option.toList_none, List.append_nil] at step
    refine ⟨step, ?_⟩
    simp only [glued, pieces, List.cons_append, List.nil_append, characters_cons,
      List.length_append, List.length_singleton]
    omega

end StackScript.Consumption
