import Mathlib.Order.Basic
import StackScript.Proofs.ReadingSteps

/-! Every token of a text is well formed: its kind and its payload belong together, strings hold
words joined by single spaces, names are names and not reserved, and a cast stands right after
`READ`. Conversely a type that comes up right after `READ` is a cast and nothing else. The loop
makes tokens out of words and of pieces of words; what carries the argument is that all of them are
firm, so that a string never holds two spaces in a row. -/
namespace StackScript.TokenForms
open Reader ReadingSteps

section Strings
variable {word : Word} {rest left : List Word} {close : Char} {text : List Char}

/-- A space between two texts, the first without spaces and the second not beginning with one. -/
theorem singleSpaced_join {front later : List Char} (unspaced : ' ' ∉ front)
    (single : SingleSpaced later) (starts : later.head? ≠ some ' ') :
    SingleSpaced (front ++ ' ' :: later) := by
  induction front with
  | nil =>
    intro double
    rcases List.infix_cons_iff.mp double with first | inner
    · obtain ⟨-, second⟩ := List.cons_prefix_cons.mp first
      obtain ⟨others, shape⟩ := second
      rw [← shape] at starts
      exact starts rfl
    · exact single inner
  | cons c front ih =>
    rw [List.mem_cons, not_or] at unspaced
    intro double
    rcases List.infix_cons_iff.mp double with first | inner
    · exact unspaced.1 (List.cons_prefix_cons.mp first).1
    · exact ih unspaced.2 inner

theorem singleSpaced_of_notMem (unspaced : ' ' ∉ text) : SingleSpaced text :=
  fun double => unspaced (double.subset List.mem_cons_self)

/-- The text of a string as far as it is taken from words without blanks: it holds spaces and no
other blanks, no two of them in a row, and not its delimiter; and it begins with a space only if
the first word is empty. -/
structure Joined (close : Char) (word : Word) (text : List Char) : Prop where
  spaces : ∀ c ∈ text, Text.isBlank c = true → c = ' '
  single : SingleSpaced text
  unclosed : close ∉ text
  starts : word.chars ≠ [] → text.head? ≠ some ' '

theorem joined_takeWhile (solid : ∀ c ∈ word.chars, Text.isBlank c = false) :
    Joined close word (word.chars.takeWhile (· ≠ close)) := by
  have inside : ∀ c ∈ word.chars.takeWhile (· ≠ close), Text.isBlank c = false :=
    fun c member => solid c (List.takeWhile_subset _ member)
  have unspaced : ' ' ∉ word.chars.takeWhile (· ≠ close) := by
    intro member
    cases inside ' ' member
  refine ⟨?_, singleSpaced_of_notMem unspaced, ?_, ?_⟩
  · intro c member blank
    rw [inside c member] at blank
    cases blank
  · have before : (word.chars.takeWhile (· ≠ close)).all (· ≠ close) = true := List.all_takeWhile
    intro member
    simpa using List.all_eq_true.mp before close member
  · intro _ first
    exact unspaced (List.mem_of_mem_head? first)

theorem joined_append (other : close ≠ ' ') (solid : ∀ c ∈ word.chars, Text.isBlank c = false)
    (goesOn : close ∉ word.chars) {next : Word} (firm : Firm next)
    (later : Joined close next text) : Joined close word (word.chars ++ ' ' :: text) := by
  have unspaced : ' ' ∉ word.chars := by
    intro member
    cases solid ' ' member
  refine ⟨?_, singleSpaced_join unspaced later.single (later.starts firm.1), ?_, ?_⟩
  · intro c member blank
    rcases List.mem_append.mp member with front | member
    · rw [solid c front] at blank
      cases blank
    · rcases List.mem_cons.mp member with same | member
      · exact same
      · exact later.spaces c member blank
  · simp [goesOn, other, later.unclosed]
  · intro filled first
    rw [List.head?_append_of_ne_nil _ filled] at first
    exact unspaced (List.mem_of_mem_head? first)

theorem joined_takeDelimited (other : close ≠ ' ')
    (solid : ∀ c ∈ word.chars, Text.isBlank c = false) (firm : ∀ piece ∈ rest, Firm piece)
    (taken : takeDelimited? close word rest = some (text, left)) : Joined close word text := by
  induction rest generalizing word text with
  | nil =>
    unfold takeDelimited? at taken
    split at taken
    · cases taken
      exact joined_takeWhile solid
    · cases taken
  | cons next rest ih =>
    unfold takeDelimited? at taken
    split at taken
    · cases taken
      exact joined_takeWhile solid
    · rename_i goesOn
      simp only [Option.map_eq_some_iff, Prod.mk.injEq, Prod.exists] at taken
      obtain ⟨inner, left, found, rfl, rfl⟩ := taken
      obtain ⟨first, others⟩ := List.forall_mem_cons.mp firm
      exact joined_append other solid goesOn first (ih first.2 others found)

/-- The text between two delimiters is the text of a string. -/
theorem stringText_of_taken {opener : Word} (delimits : close = '"' ∨ close = ')')
    (firm : ∀ piece ∈ opener :: rest, Firm piece)
    (taken : takeDelimited? close (opener.drop 1) rest = some (text, left)) :
    StringText (String.ofList text) := by
  obtain ⟨first, others⟩ := List.forall_mem_cons.mp firm
  have other : close ≠ ' ' := by
    rcases delimits with rfl | rfl <;> decide
  have joined := joined_takeDelimited other
    (fun c member => first.2 c (List.mem_of_mem_drop member)) others taken
  rw [StringText, String.toList_ofList]
  refine ⟨joined.spaces, joined.single, ?_⟩
  rcases delimits with rfl | rfl
  · exact .inl joined.unclosed
  · exact .inr joined.unclosed

end Strings

section Tokens
variable {afterRead : Bool} {word : Word} {rest : List Word} {reading : Reading} {token : Token}

theorem wellFormed_whole {kind : TokenKind} {literal : Literal}
    (is : Whole afterRead word kind literal) (position : Position) :
    Token.WellFormed ⟨kind, literal, position⟩ := by
  cases is with
  | number read => exact Number.isFinite_of_readFinite? read
  | identifier free => exact free
  | boolean | conditional | blockEnd | rightParen => exact trivial
  | _ => rfl

theorem wellFormed_operand {operand : Word} {kind : TokenKind} {literal : Literal}
    {position : Position} (is : Operand word operand kind literal position) :
    Token.WellFormed ⟨kind, literal, position⟩ := by
  cases is with
  | label _ opens named =>
    rcases opens with ⟨-, rfl⟩ | ⟨-, rfl⟩
    · simpa [Token.WellFormed] using named
    · simpa [Token.WellFormed] using named
  | number _ read => exact Number.isFinite_of_readFinite? read
  | boolean => exact trivial

/-- Whatever is read from firm words is well formed. -/
theorem wellFormed_of_reads (reads : Reads afterRead word rest reading)
    (firm : ∀ piece ∈ word :: rest, Firm piece) (emits : reading.token? = some token) :
    token.WellFormed := by
  cases reads with
  | whole is =>
    cases emits
    exact wellFormed_whole is _
  | sign is =>
    cases emits
    cases is <;> rfl
  | operand is =>
    cases emits
    exact wellFormed_operand is
  | quoted _ taken =>
    cases emits
    exact stringText_of_taken (.inl rfl) firm taken
  | announced _ follows _ taken =>
    subst follows
    cases emits
    exact stringText_of_taken (.inr rfl) (List.forall_mem_cons.mp firm).2 taken
  | opening =>
    cases emits
    exact trivial
  | closing | dropped => cases emits

/-- A cast is read right after `READ` only. -/
theorem afterRead_of_cast (reads : Reads afterRead word rest reading) {type : Cast}
    (emits : reading.token? = some token) (kind : token.kind = .cast type) : afterRead = true := by
  cases reads with
  | whole is =>
    cases emits
    cases is with
    | cast after => exact after
    | _ => cases kind
  | sign is =>
    cases emits
    cases is <;> cases kind
  | operand is =>
    cases emits
    cases is with
    | label _ opens => rcases opens with ⟨-, rfl⟩ | ⟨-, rfl⟩ <;> cases kind
    | _ => cases kind
  | quoted | announced | opening =>
    cases emits
    cases kind
  | closing | dropped => cases emits

/-- A type is read as a cast right after `READ`. -/
theorem readWord_cast {type : Cast} (spelled : word.text = type.keyword) :
    readWord true word rest =
      .ok (.emit (.cast type) (.keyword type.keyword) word.position rest) := by
  have reserved : Keyword.ofText? word.text = some (.cast type) := by
    rw [spelled]
    exact Keyword.ofText?_spelling (.cast type)
  rw [readWord, reserved]
  rfl

end Tokens

/-- Every token of a text pairs its kind with the payload that belongs to it, and a cast has `READ`
in front of it. A type that is read while `READ` is the last token is the cast that comes next in
the text, and nothing else. -/
theorem tokenize_wellFormed {source : String} {tokens : List Token}
    (read : Program.tokenize source = .ok tokens) :
    (∀ token ∈ tokens, token.WellFormed) ∧
    (∀ (before after : List Token) (token : Token) (type : Cast),
      tokens = before ++ token :: after → token.kind = .cast type → endsInRead before = true) ∧
    (∀ (before : List Token) (word : Word) (rest : List Word) (type : Cast),
      Leads (.first source) ⟨before, word :: rest⟩ → endsInRead before = true →
      word.text = type.keyword →
      before ++ [⟨.cast type, .keyword type.keyword, word.position⟩] <+: tokens) := by
  have ends := leads_of_tokenize read
  refine ⟨?_, ?_, ?_⟩
  · intro token member
    obtain ⟨before, after, shape⟩ := List.append_of_mem member
    obtain ⟨word, rest, reading, leads, here, emits⟩ := emitted ends shape
    exact wellFormed_of_reads (readWord_reads here) (firm_of_leads leads) emits
  · intro before after token type shape kind
    obtain ⟨word, rest, reading, -, here, emits⟩ := emitted ends shape
    exact afterRead_of_cast (readWord_reads here) emits kind
  · intro before word rest type leads after spelled
    have here : readWord (endsInRead before) word rest = _ := after ▸ readWord_cast spelled
    exact tokens_of_step ends leads (.read here)

-- The names that no variable has.
example : Keyword.all.map Keyword.spelling =
    ["STR", "NUM", "BOOL", "True", "False", "EQ", "GT", "GTE", "LT", "LTE", "AND", "OR", "NOT",
      "VAR", "ASSIGN", "TO", "IF", "END", "JUMP", "SECTION", "ADD", "SUB", "MUL", "DIV", "READ",
      "PRINT", "EXIT"] := by
  decide

/-- A cast, the same type glued to a parenthesis, and a string with a quote in it. -/
def announced : List Token :=
  [⟨.command .read, .keyword "READ", ⟨1, 0⟩⟩, ⟨.cast .string, .keyword "STR", ⟨1, 5⟩⟩,
    ⟨.leftParen, .absent, ⟨1, 9⟩⟩, ⟨.string, .string "a \" b", ⟨1, 14⟩⟩,
    ⟨.command .read, .keyword "READ", ⟨1, 22⟩⟩, ⟨.rightParen, .absent, ⟨1, 26⟩⟩]

theorem tokenize_wellFormed_announced :
    Program.tokenize "READ STR (STR (a \" b) READ)" = .ok announced ∧
      (∀ token ∈ announced, token.WellFormed) ∧
      [⟨.command .read, .keyword "READ", ⟨1, 0⟩⟩, ⟨.cast .string, .keyword "STR", ⟨1, 5⟩⟩] <+:
        announced := by
  have read : Program.tokenize "READ STR (STR (a \" b) READ)" = .ok announced := by cbv
  have scanned : Stage.first "READ STR (STR (a \" b) READ)" =
      ⟨[], ⟨"READ".toList, ⟨1, 0⟩⟩ :: ⟨"STR".toList, ⟨1, 5⟩⟩ :: [⟨"(STR".toList, ⟨1, 9⟩⟩,
        ⟨"(a".toList, ⟨1, 14⟩⟩, ⟨"\"".toList, ⟨1, 17⟩⟩, ⟨"b)".toList, ⟨1, 19⟩⟩,
        ⟨"READ)".toList, ⟨1, 22⟩⟩]⟩ := by
    cbv
  have asks (rest : List Word) : Leads ⟨[], ⟨"READ".toList, ⟨1, 0⟩⟩ :: rest⟩
      ⟨[⟨.command .read, .keyword "READ", ⟨1, 0⟩⟩], rest⟩ := by
    have taken : readWord (endsInRead []) ⟨"READ".toList, ⟨1, 0⟩⟩ rest =
        .ok (.emit (.command .read) (.keyword "READ") ⟨1, 0⟩ rest) := rfl
    exact .single (.read taken)
  obtain ⟨paired, -, casts⟩ := tokenize_wellFormed read
  exact ⟨read, paired, casts _ ⟨"STR".toList, ⟨1, 5⟩⟩ _ .string (scanned ▸ asks _) rfl rfl⟩

end StackScript.TokenForms
