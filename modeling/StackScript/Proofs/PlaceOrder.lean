import StackScript.Proofs.Pieces
import StackScript.Proofs.ReadingSteps

/-! The tokens of a text stand in its order. The loop keeps the words still to be read apart and in
order, and every token that it has read in front of all of them; so the next token comes after the
others. Operators are the exception: an operator is reported at the word after it, and shares that
place with the token that is read from there, if one is. No other two tokens share a place. -/
namespace StackScript.PlaceOrder
open Reader ReadingSteps Pieces

/-- Whether a token is a comparison or a logical operator. -/
def isSign : TokenKind → Bool
  | .binary _ | .not => true
  | _ => false

/-- The order of places: by lines, and in a line by columns. -/
def Before (place later : Position) : Prop :=
  place.line < later.line ∨ place.line = later.line ∧ place.column < later.column

/-- A place is behind all tokens, unless it is that of the last one and this one is an operator. -/
def Clears (tokens : List Token) (place : Position) : Prop :=
  ∀ before token after, tokens = before ++ token :: after →
    Before token.position place ∨
      token.position = place ∧ after = [] ∧ isSign token.kind = true

/-- Each token is behind those before it, in this sense. -/
def Ordered (tokens : List Token) : Prop :=
  ∀ before token after, tokens = before ++ token :: after → Clears before token.position

/-- A word ends where another one starts, or before that. -/
def EndsBefore (first second : Word) : Prop :=
  first.position.line < second.position.line ∨
    first.position.line = second.position.line ∧
      first.position.column + first.chars.length ≤ second.position.column

section Tokens
variable {tokens : List Token} {token : Token} {place later : Position}

theorem clears_nil (place : Position) : Clears [] place := by
  intro before token after shape
  simp at shape

theorem clears_before (clears : Clears tokens place) (before : Before place later) :
    ∀ token ∈ tokens, Before token.position later := by
  intro token member
  obtain ⟨front, after, shape⟩ := List.append_of_mem member
  rcases clears front token after shape with earlier | ⟨same, -⟩
  · unfold Before at earlier before ⊢
    omega
  · exact same ▸ before

theorem clears_mono (clears : Clears tokens place) (before : Before place later) :
    Clears tokens later := by
  intro front token after shape
  exact .inl (clears_before clears before token (shape ▸ List.mem_append_cons_self))

theorem ordered_concat (ordered : Ordered tokens) (clears : Clears tokens token.position) :
    Ordered (tokens ++ [token]) := by
  intro before other after shape
  rcases split_concat shape with ⟨rfl, rfl, -⟩ | ⟨others, earlier⟩
  · exact clears
  · exact ordered before other others earlier

/-- With a token more, a place is still behind all of them if it is behind a place that was, and
behind the token too or shared with it. -/
theorem clears_concat (clears : Clears tokens place) (before : Before place later)
    (last : Before token.position later ∨ token.position = later ∧ isSign token.kind = true) :
    Clears (tokens ++ [token]) later := by
  intro front other after shape
  rcases split_concat shape with ⟨rfl, rfl, rfl⟩ | ⟨others, earlier⟩
  · rcases last with strictly | ⟨same, sign⟩
    · exact .inl strictly
    · exact .inr ⟨same, rfl, sign⟩
  · exact .inl (clears_before clears before other (earlier ▸ List.mem_append_cons_self))

end Tokens

section Words
variable {word first : Word} {words others rest left : List Word}

theorem before_of_endsBefore {second : Word} (solid : first.chars ≠ [])
    (ends : EndsBefore first second) : Before first.position second.position := by
  have long : 0 < first.chars.length := List.length_pos_iff.mpr solid
  unfold EndsBefore at ends
  unfold Before
  omega

theorem endsBefore_drop {second : Word} {count : Nat} (proper : count < first.chars.length)
    (ends : EndsBefore first second) : EndsBefore (first.drop count) second := by
  simp only [EndsBefore, Word.position_drop, Position.line_shift, Position.column_shift,
    Word.chars_drop, List.length_drop] at ends ⊢
  omega

theorem endsBefore_take {second : Word} (count : Nat) (ends : EndsBefore first second) :
    EndsBefore (first.take count) second := by
  simp only [EndsBefore, Word.position_take, Word.chars_take, List.length_take] at ends ⊢
  omega

theorem before_shift (place : Position) {count : Nat} (some : count ≠ 0) :
    Before place (place.shift count) :=
  .inr ⟨rfl, Nat.lt_add_of_pos_right (Nat.pos_of_ne_zero some)⟩

/-- What is left of words that stand apart stands apart. -/
theorem apart_of_remains (remains : Remains words left) (apart : words.Pairwise EndsBefore) :
    left.Pairwise EndsBefore := by
  induction remains with
  | rest => exact (List.pairwise_cons.mp apart).2
  | skip _ _ ih => exact ih (List.pairwise_cons.mp apart).2
  | cut _ proper =>
    obtain ⟨front, later⟩ := List.pairwise_cons.mp apart
    exact List.pairwise_cons.mpr
      ⟨fun other member => endsBefore_drop proper (front other member), later⟩

/-- What is left of words behind a place is behind it. -/
theorem behind_of_remains {place : Position} (remains : Remains words left)
    (behind : ∀ word ∈ words, Before place word.position) :
    ∀ piece ∈ left, Before place piece.position := by
  induction remains with
  | rest => exact (List.forall_mem_cons.mp behind).2
  | skip _ _ ih => exact ih (List.forall_mem_cons.mp behind).2
  | @cut word words count _ =>
    obtain ⟨front, later⟩ := List.forall_mem_cons.mp behind
    refine List.forall_mem_cons.mpr ⟨?_, later⟩
    simp only [Before, Word.position_drop, Position.line_shift, Position.column_shift] at front ⊢
    omega

/-- Once a character of a word is taken, all that is left is behind the place of the word. -/
theorem before_of_remains (solid : first.chars ≠ []) (apart : (first :: others).Pairwise EndsBefore)
    (remains : Remains (first.drop 1 :: others) left) :
    ∀ piece ∈ left, Before first.position piece.position := by
  refine behind_of_remains remains (List.forall_mem_cons.mpr ⟨?_, fun other member => ?_⟩)
  · exact before_shift first.position Nat.one_ne_zero
  · exact before_of_endsBefore solid ((List.pairwise_cons.mp apart).1 other member)

/-- An operator is reported at its own place or at the next word, which is the first one left. -/
theorem operatorPosition_cases (word : Word) (rest : List Word) :
    rest = [] ∧ operatorPosition word rest = word.position ∨
      ∃ next others, rest = next :: others ∧ operatorPosition word rest = next.position := by
  cases rest with
  | nil => exact .inl ⟨rfl, rfl⟩
  | cons next others => exact .inr ⟨next, others, rfl, rfl⟩

end Words

/-- At a stage of the loop, words stand apart in order, and so do the tokens before the words. -/
structure InOrder (stage : Stage) : Prop where
  firm : ∀ word ∈ stage.words, Firm word
  apart : stage.words.Pairwise EndsBefore
  ordered : Ordered stage.tokens
  clear : ∀ word ∈ stage.words, Clears stage.tokens word.position

section Steps
variable {tokens : List Token} {word : Word} {rest : List Word}

theorem inOrder_rest (order : InOrder ⟨tokens, word :: rest⟩) : InOrder ⟨tokens, rest⟩ where
  firm := (List.forall_mem_cons.mp order.firm).2
  apart := (List.pairwise_cons.mp order.apart).2
  ordered := order.ordered
  clear := (List.forall_mem_cons.mp order.clear).2

theorem inOrder_apart {count : Nat} (order : InOrder ⟨tokens, word :: rest⟩) (some : count ≠ 0)
    (long : word.chars.length = count + 1) :
    InOrder ⟨tokens, word.take count :: word.drop count :: rest⟩ := by
  obtain ⟨solid, firm⟩ := List.forall_mem_cons.mp order.firm
  obtain ⟨front, apart⟩ := List.pairwise_cons.mp order.apart
  obtain ⟨here, clear⟩ := List.forall_mem_cons.mp order.clear
  have proper : count < word.chars.length := by omega
  have cut : EndsBefore (word.take count) (word.drop count) := by
    refine .inr ⟨rfl, ?_⟩
    rw [Word.position_take, Word.chars_take, List.length_take, Word.position_drop,
      Position.column_shift]
    omega
  refine ⟨?_, ?_, order.ordered, ?_⟩
  · exact List.forall_mem_cons.mpr
      ⟨firm_take solid some, List.forall_mem_cons.mpr ⟨firm_drop solid proper, firm⟩⟩
  · refine List.pairwise_cons.mpr ⟨List.forall_mem_cons.mpr ⟨cut, ?_⟩, ?_⟩
    · exact fun other member => endsBefore_take count (front other member)
    · exact List.pairwise_cons.mpr
        ⟨fun other member => endsBefore_drop proper (front other member), apart⟩
  · refine List.forall_mem_cons.mpr ⟨here, List.forall_mem_cons.mpr ⟨?_, clear⟩⟩
    exact clears_mono here (before_shift word.position some)

theorem inOrder_sign {kind : TokenKind} {literal : Literal}
    (order : InOrder ⟨tokens, word :: rest⟩) (is : Sign word kind literal) :
    InOrder ⟨tokens ++ [⟨kind, literal, operatorPosition word rest⟩], rest⟩ := by
  obtain ⟨firm, apart, -, clear⟩ := inOrder_rest order
  have here : Clears tokens word.position := order.clear word List.mem_cons_self
  have behind : ∀ other ∈ rest, Before word.position other.position := fun other member =>
    before_of_endsBefore (order.firm word List.mem_cons_self).1
      ((List.pairwise_cons.mp order.apart).1 other member)
  have sign : isSign kind = true := by cases is <;> rfl
  rcases operatorPosition_cases word rest with ⟨rfl, placed⟩ | ⟨next, others, rfl, placed⟩
  · rw [placed]
    exact ⟨firm, apart, ordered_concat order.ordered here, nofun⟩
  · rw [placed]
    obtain ⟨first, further⟩ := List.pairwise_cons.mp apart
    refine ⟨firm, apart, ordered_concat order.ordered (clear next List.mem_cons_self), ?_⟩
    intro other member
    refine clears_concat here (behind other member) ?_
    -- The operator shares its place with the next word and with no other.
    rcases List.mem_cons.mp member with rfl | member
    · exact .inr ⟨rfl, sign⟩
    · exact .inl (before_of_endsBefore (firm next List.mem_cons_self).1 (first other member))

theorem inOrder_token {kind : TokenKind} {literal : Literal} {first : Word}
    {others left : List Word} (order : InOrder ⟨tokens, word :: rest⟩)
    (suffix : first :: others <:+ word :: rest) (remains : Remains (first.drop 1 :: others) left) :
    InOrder ⟨tokens ++ [⟨kind, literal, first.position⟩], left⟩ := by
  have member : first ∈ word :: rest := suffix.subset List.mem_cons_self
  have whole : Remains (word :: rest) left := remains_of_suffix suffix (remains_of_drop remains)
  have behind := before_of_remains (order.firm first member).1
    (order.apart.sublist suffix.sublist) remains
  refine ⟨firm_of_remains whole order.firm, apart_of_remains whole order.apart,
    ordered_concat order.ordered (order.clear first member), ?_⟩
  intro piece left
  exact clears_concat (order.clear first member) (behind piece left) (.inl (behind piece left))

/-- Every step keeps words and tokens in order. -/
theorem inOrder_step {stage next : Stage} (step : Step stage next) (order : InOrder stage) :
    InOrder next := by
  obtain ⟨read⟩ := step
  cases takes_of_reads (readWord_reads read) with
  | nothing =>
    simp only [Option.toList_none, List.append_nil]
    exact inOrder_rest order
  | apart some long =>
    simp only [Option.toList_none, List.append_nil]
    exact inOrder_apart order some long
  | sign is => exact inOrder_sign order is
  | token _ suffix remains => exact inOrder_token order suffix remains

theorem inOrder_first (source : String) : InOrder (.first source) where
  firm := firm_of_leads .refl
  apart := by
    refine (Rendering.wellLaid_scan source).apart.imp fun precedes => ?_
    unfold Word.Precedes at precedes
    unfold EndsBefore
    omega
  ordered := by
    intro before token after shape
    simp [Stage.first] at shape
  clear := fun word _ => clears_nil word.position

/-- What is read as an operator is its keyword, and nothing but an operator is read so. -/
theorem sign_of_reads {afterRead : Bool} {reading : Reading} {token : Token}
    (reads : Reads afterRead word rest reading) (emits : reading.token? = some token)
    (sign : isSign token.kind = true) :
    token.literal = .keyword word.text ∧ token.position = operatorPosition word rest := by
  cases reads with
  | sign is =>
    cases emits
    refine ⟨?_, rfl⟩
    cases is with
    | binary spelled | not spelled => exact congrArg Literal.keyword spelled.symm
  | whole is =>
    cases emits
    cases is <;> cases sign
  | operand is =>
    cases emits
    cases is with
    | label _ opens => rcases opens with ⟨-, rfl⟩ | ⟨-, rfl⟩ <;> cases sign
    | number | boolean => cases sign
  | quoted | announced | opening =>
    cases emits
    cases sign
  | closing | dropped => cases emits

end Steps

/-- Every token of a text stands in one of its words. Of two tokens the second one stands behind the
first, unless the first is an operator and the second comes right after it: then they may share a
place. For an operator is reported at the piece of a word that comes after it, and at its own place
only where nothing comes. -/
theorem tokenize_in_order {source : String} {tokens : List Token}
    (read : Program.tokenize source = .ok tokens) :
    (∀ token ∈ tokens, ∃ word ∈ Word.scan source, word.covers token.position = true) ∧
    (∀ (before between after : List Token) (first second : Token),
      tokens = before ++ first :: (between ++ second :: after) →
      Before first.position second.position ∨
        first.position = second.position ∧ between = [] ∧ isSign first.kind = true) ∧
    (∀ (before after : List Token) (token : Token),
      tokens = before ++ token :: after → isSign token.kind = true →
      ∃ word rest, Leads (.first source) ⟨before, word :: rest⟩ ∧
        token.literal = .keyword word.text ∧
        (rest = [] → token.position = word.position) ∧
        ∀ next others, rest = next :: others → token.position = next.position) := by
  have ends := leads_of_tokenize read
  refine ⟨?_, ?_, ?_⟩
  · have placed := read_placed source
    rw [read_of_tokenize read] at placed
    exact placed
  · intro before between after first second shape
    have order : InOrder ⟨tokens, []⟩ := leads_keeps inOrder_step ends (inOrder_first source)
    refine order.ordered (before ++ first :: between) second after ?_ before first between rfl
    rw [shape, List.append_assoc, List.cons_append]
  · intro before after token shape sign
    obtain ⟨word, rest, reading, leads, here, emits⟩ := emitted ends shape
    obtain ⟨literal, placed⟩ := sign_of_reads (readWord_reads here) emits sign
    refine ⟨word, rest, leads, literal, ?_, ?_⟩
    · rintro rfl
      exact placed
    · rintro next others rfl
      exact placed

/-- Operators at a word that is cut in two, at a word of the next line, and at the end. -/
def shared : List Token :=
  [⟨.binary .and, .keyword "AND", ⟨1, 4⟩⟩, ⟨.leftParen, .absent, ⟨1, 4⟩⟩,
    ⟨.leftParen, .absent, ⟨1, 5⟩⟩, ⟨.not, .keyword "NOT", ⟨2, 1⟩⟩,
    ⟨.identifier, .name "x", ⟨2, 1⟩⟩, ⟨.rightParen, .absent, ⟨2, 2⟩⟩,
    ⟨.binary .or, .keyword "OR", ⟨2, 4⟩⟩]

theorem tokenize_in_order_shared :
    Program.tokenize "AND ((NOT\n x) OR" = .ok shared ∧
      (∀ token ∈ shared, ∃ word ∈ Word.scan "AND ((NOT\n x) OR",
        word.covers token.position = true) ∧
      ∀ (before between after : List Token) (first second : Token),
        shared = before ++ first :: (between ++ second :: after) →
        Before first.position second.position ∨
          first.position = second.position ∧ between = [] ∧ isSign first.kind = true := by
  have read : Program.tokenize "AND ((NOT\n x) OR" = .ok shared := by cbv
  obtain ⟨placed, ordered, -⟩ := tokenize_in_order read
  exact ⟨read, placed, ordered⟩

end StackScript.PlaceOrder
