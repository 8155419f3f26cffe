import Mathlib.Logic.Relation
import StackScript.Proofs.Rendering

/-! Reading as a loop. A stage of the loop has the tokens read so far and the words, or pieces of
words, still to be read; a step reads one more of them. The loop ends where no words are left or
where a word is refused, and the tokens of a text are those of its last stage, each of them added by
one step. What a step can be is said once, in `Reads`, and what it leaves of the words in
`Remains`. -/
namespace StackScript.ReadingSteps
open Reader Relation Rendering

/-- The tokens read so far and the words still to be read. -/
structure Stage where
  tokens : List Token
  words : List Word

/-- Whether the token read last is `READ`. -/
def endsInRead (tokens : List Token) : Bool :=
  tokens.getLast?.any (·.kind = .command .read)

/-- The stage before anything of a text is read. -/
def Stage.first (source : String) : Stage := ⟨[], Word.scan source⟩

/-- One more word is read. -/
inductive Step : Stage → Stage → Prop where
  | read {tokens : List Token} {word : Word} {rest : List Word} {reading : Reading}
      (read : readWord (endsInRead tokens) word rest = .ok reading) :
      Step ⟨tokens, word :: rest⟩ ⟨tokens ++ reading.token?.toList, reading.rest⟩

/-- Any number of words are read. -/
def Leads : Stage → Stage → Prop := ReflTransGen Step

/-- What the reading gives from a stage on. -/
def Stage.result (stage : Stage) : Except SyntaxError (List Token) :=
  (readFrom (endsInRead stage.tokens) stage.words).map (stage.tokens ++ ·)

section Loop
variable {stage next : Stage}

theorem endsInRead_concat (tokens : List Token) (token : Token) :
    endsInRead (tokens ++ [token]) = decide (token.kind = .command .read) := by
  simp [endsInRead]

/-- The flag that reading passes along tells what the last token is. -/
theorem afterRead_endsInRead (tokens : List Token) (reading : Reading) :
    reading.afterRead (endsInRead tokens) = endsInRead (tokens ++ reading.token?.toList) := by
  unfold Reading.afterRead
  cases reading.token? with
  | none => simp
  | some token => exact (endsInRead_concat tokens token).symm

@[simp] theorem result_nil (tokens : List Token) : Stage.result ⟨tokens, []⟩ = .ok tokens := by
  simp [Stage.result, Except.map]

theorem result_start (words : List Word) : Stage.result ⟨[], words⟩ = Reader.read words := by
  simp only [Stage.result, List.nil_append]
  cases known : readFrom (endsInRead []) words <;> exact known.symm

/-- A step does not change what the reading gives in the end. -/
theorem result_of_step (step : Step stage next) : stage.result = next.result := by
  obtain ⟨read⟩ := step
  rename_i tokens word rest reading
  simp only [Stage.result]
  rw [readFrom_cons, read, ← afterRead_endsInRead]
  simp only [Except.bind]
  cases readFrom (reading.afterRead (endsInRead tokens)) reading.rest with
  | error error => rfl
  | ok later => simp [Except.map]

theorem result_of_leads (leads : Leads stage next) : stage.result = next.result := by
  induction leads with
  | refl => rfl
  | tail _ step ih => exact ih.trans (result_of_step step)

theorem weights_of_step (step : Step stage next) : weights next.words < weights stage.words := by
  obtain ⟨read⟩ := step
  exact weights_readWord_lt read

/-- The loop ends: it comes to a stage without words, which has all tokens, or to a word that is
refused. -/
theorem loop_ends (stage : Stage) :
    match stage.result with
    | .ok tokens => Leads stage ⟨tokens, []⟩
    | .error error => ∃ tokens word rest, Leads stage ⟨tokens, word :: rest⟩ ∧
        readWord (endsInRead tokens) word rest = .error error := by
  -- Neither the words nor their characters need to be fewer after a step; the weights are.
  induction bound : weights stage.words using Nat.strongRecOn generalizing stage with
  | ind heavy ih =>
    obtain ⟨tokens, words⟩ := stage
    cases words with
    | nil =>
      rw [result_nil]
      exact .refl
    | cons word rest =>
      cases read : readWord (endsInRead tokens) word rest with
      | error error =>
        have refused : Stage.result ⟨tokens, word :: rest⟩ = .error error := by
          simp only [Stage.result, readFrom_cons, read]
          rfl
        rw [refused]
        exact ⟨tokens, word, rest, .refl, read⟩
      | ok reading =>
        have step := Step.read read
        have later := ih _ (bound ▸ weights_of_step step) _ rfl
        rw [result_of_step step]
        split at later
        · exact .head step later
        · obtain ⟨last, refused, left, leads, stuck⟩ := later
          exact ⟨last, refused, left, .head step leads, stuck⟩

theorem leads_of_result {tokens : List Token} (result : stage.result = .ok tokens) :
    Leads stage ⟨tokens, []⟩ := by
  have ends := loop_ends stage
  rwa [result] at ends

theorem read_of_tokenize {source : String} {tokens : List Token}
    (read : Program.tokenize source = .ok tokens) :
    Reader.read (Word.scan source) = .ok tokens := by
  change (Reader.read (Word.scan source)).mapError Error.written = .ok tokens at read
  cases known : Reader.read (Word.scan source) <;> rw [known] at read <;> cases read
  rfl

/-- What is read of a text are the tokens of the last stage. -/
theorem leads_of_tokenize {source : String} {tokens : List Token}
    (read : Program.tokenize source = .ok tokens) : Leads (.first source) ⟨tokens, []⟩ := by
  refine leads_of_result ?_
  rw [Stage.first, result_start, read_of_tokenize read]

/-- Tokens that are read stay. -/
theorem tokens_of_leads (leads : Leads stage next) : stage.tokens <+: next.tokens := by
  induction leads with
  | refl => exact List.prefix_rfl
  | tail _ step ih =>
    obtain ⟨read⟩ := step
    exact ih.trans (List.prefix_append _ _)

/-- At any stage on the way, the tokens that come next are those that the text has next. -/
theorem tokens_of_step {start : Stage} {tokens : List Token} (ends : Leads start ⟨tokens, []⟩)
    (leads : Leads start stage) (step : Step stage next) : next.tokens <+: tokens := by
  have result : next.result = .ok tokens := by
    rw [← result_of_step step, ← result_of_leads leads, result_of_leads ends, result_nil]
  exact tokens_of_leads (leads_of_result result)

/-- Where a token stands among tokens of which the last one is known. -/
theorem split_concat {tokens before after : List Token} {last token : Token}
    (shape : tokens ++ [last] = before ++ token :: after) :
    before = tokens ∧ token = last ∧ after = [] ∨
      ∃ others, tokens = before ++ token :: others := by
  rcases List.eq_nil_or_concat after with rfl | ⟨others, final, rfl⟩
  · obtain ⟨rfl, same⟩ := List.append_inj' shape rfl
    exact .inl ⟨rfl, (List.cons.inj same).1.symm, rfl⟩
  · rw [List.concat_eq_append, ← List.cons_append, ← List.append_assoc] at shape
    exact .inr ⟨others, (List.append_inj' shape rfl).1⟩

/-- Every token was added by a step, at the stage that had the tokens before it. -/
theorem emitted {words : List Word} (leads : Leads ⟨[], words⟩ stage) {before after : List Token}
    {token : Token} (shape : stage.tokens = before ++ token :: after) :
    ∃ word rest reading, Leads ⟨[], words⟩ ⟨before, word :: rest⟩ ∧
      readWord (endsInRead before) word rest = .ok reading ∧ reading.token? = some token := by
  induction leads generalizing after with
  | refl => simp at shape
  | tail leads step ih =>
    obtain ⟨read⟩ := step
    rename_i tokens word rest reading
    simp only at shape ih
    cases added : reading.token? with
    | none => exact ih (by rw [← shape, added, Option.toList_none, List.append_nil])
    | some last =>
      rw [added, Option.toList_some] at shape
      -- The last step added it, or it was there before.
      rcases split_concat shape with ⟨rfl, rfl, -⟩ | ⟨others, earlier⟩
      · exact ⟨word, rest, reading, leads, read, added⟩
      · exact ih earlier

/-- What every step keeps holds at every later stage. -/
theorem leads_keeps {P : Stage → Prop} (kept : ∀ {stage next}, Step stage next → P stage → P next)
    (leads : Leads stage next) (holds : P stage) : P next := by
  induction leads with
  | refl => exact holds
  | tail _ step ih => exact kept step ih

end Loop

section Steps

/-- What a word is a token as, if it is one by itself. -/
inductive Whole (afterRead : Bool) (word : Word) : TokenKind → Literal → Prop where
  | cast {type : Cast} (after : afterRead = true) (spelled : word.text = type.keyword) :
      Whole afterRead word (.cast type) (.keyword type.keyword)
  | boolean {flag : Bool} (spelled : word.text = (Keyword.boolean flag).spelling) :
      Whole afterRead word .boolean (.boolean flag)
  | declare (spelled : word.text = Keyword.declare.spelling) :
      Whole afterRead word .declare (.keyword Keyword.declare.spelling)
  | assign (spelled : word.text = Keyword.assign.spelling) :
      Whole afterRead word .assign (.keyword Keyword.assign.spelling)
  | target (spelled : word.text = Keyword.target.spelling) :
      Whole afterRead word .target (.keyword Keyword.target.spelling)
  | conditional (spelled : word.text = Keyword.conditional.spelling) :
      Whole afterRead word .conditional .absent
  | blockEnd (spelled : word.text = Keyword.blockEnd.spelling) :
      Whole afterRead word .blockEnd .absent
  | command {action : Command} (spelled : word.text = action.keyword) :
      Whole afterRead word (.command action) (.keyword action.keyword)
  | number {value : Float} (read : Number.readFinite? word.chars = some value) :
      Whole afterRead word .number (.number value)
  | rightParen (closes : word.chars = [')']) : Whole afterRead word .rightParen .absent
  | identifier (free : VariableName word.text) : Whole afterRead word .identifier (.name word.text)

/-- What a word is as a comparison or a logical operator. -/
inductive Sign (word : Word) : TokenKind → Literal → Prop where
  | binary {operator : Operator} (spelled : word.text = operator.keyword) :
      Sign word (.binary operator) (.keyword operator.keyword)
  | not (spelled : word.text = Keyword.not.spelling) :
      Sign word .not (.keyword Keyword.not.spelling)

/-- What a keyword and its operand are together, and where the token stands. -/
inductive Operand (word operand : Word) : TokenKind → Literal → Position → Prop where
  | label {keyword : Keyword} {kind : TokenKind} (spelled : word.text = keyword.spelling)
      (opens : keyword = .jump ∧ kind = .jump ∨ keyword = .labelled ∧ kind = .labelled)
      (named : isIdentifier (labelChars kind operand.chars) = true) :
      Operand word operand kind (.label (String.ofList (labelChars kind operand.chars)))
        word.position
  | number {value : Float} (spelled : word.text = (Keyword.cast .number).spelling)
      (read : Number.readFinite? operand.chars = some value) :
      Operand word operand .number (.number value) operand.position
  | boolean (spelled : word.text = (Keyword.cast .boolean).spelling) :
      Operand word operand .boolean (.boolean (Value.truthOfWord operand.text)) operand.position

/-- All that the reading of a word can be. -/
inductive Reads (afterRead : Bool) (word : Word) (rest : List Word) : Reading → Prop where
  | whole {kind : TokenKind} {literal : Literal} (is : Whole afterRead word kind literal) :
      Reads afterRead word rest (.emit kind literal word.position rest)
  | sign {kind : TokenKind} {literal : Literal} (is : Sign word kind literal) :
      Reads afterRead word rest (.emit kind literal (operatorPosition word rest) rest)
  | operand {operand : Word} {left : List Word} {kind : TokenKind} {literal : Literal}
      {position : Position} (is : Operand word operand kind literal position)
      (taken : takeOperand word.text word.position rest = .ok (operand, left)) :
      Reads afterRead word rest (.emit kind literal position left)
  | quoted {text : List Char} {left : List Word} (opens : word.chars.head? = some '"')
      (taken : takeDelimited? '"' (word.drop 1) rest = some (text, left)) :
      Reads afterRead word rest
        (.emit .string (.string (String.ofList text)) word.position left)
  | announced {opener : Word} {others left : List Word} {text : List Char}
      (spelled : word.text = (Keyword.cast .string).spelling) (follows : rest = opener :: others)
      (opens : opener.chars.head? = some '(')
      (taken : takeDelimited? ')' (opener.drop 1) others = some (text, left)) :
      Reads afterRead word rest
        (.emit .string (.string (String.ofList text)) opener.position left)
  | opening (opens : word.chars.head? = some '(') :
      Reads afterRead word rest
        (.emit .leftParen .absent word.position ((word.drop 1).putBack rest))
  | closing {count : Nat} (closes : word.chars.getLast? = some ')') (some : count ≠ 0)
      (long : word.chars.length = count + 1) :
      Reads afterRead word rest ⟨none, word.take count :: word.drop count :: rest⟩
  | dropped : Reads afterRead word rest ⟨none, rest⟩

variable {afterRead : Bool} {word : Word} {rest : List Word} {reading : Reading}

theorem readString_reads {close : Char} {opener : Word}
    (read : readString close opener rest = .ok reading) :
    ∃ text left, takeDelimited? close (opener.drop 1) rest = some (text, left) ∧
      reading = .emit .string (.string (String.ofList text)) opener.position left := by
  unfold readString at read
  split at read
  · rename_i text left taken
    cases read
    exact ⟨text, left, taken, rfl⟩
  · cases read

theorem readLabel_reads {keyword : Keyword} {kind : TokenKind}
    (spelled : word.text = keyword.spelling)
    (opens : keyword = .jump ∧ kind = .jump ∨ keyword = .labelled ∧ kind = .labelled)
    (read : readLabel kind word rest = .ok reading) : Reads afterRead word rest reading := by
  unfold readLabel at read
  cases taken : takeOperand word.text word.position rest with
  | error error => simp [taken, bind, Except.bind] at read
  | ok pair =>
    simp only [taken, bind, Except.bind] at read
    split at read
    · rename_i named
      cases read
      exact .operand (.label spelled opens named) taken
    · cases read

theorem readAnnounced_reads {type : Cast} (spelled : word.text = (Keyword.cast type).spelling)
    (read : readAnnounced type word rest = .ok reading) : Reads afterRead word rest reading := by
  unfold readAnnounced at read
  cases type with
  | string =>
    cases rest with
    | nil => cases read
    | cons opener others =>
      simp only at read
      split at read
      · rename_i opens
        obtain ⟨text, left, taken, rfl⟩ := readString_reads read
        exact .announced spelled rfl opens taken
      · cases read
  | number =>
    cases taken : takeOperand word.text word.position rest with
    | error error => simp [taken, bind, Except.bind] at read
    | ok pair =>
      simp only [taken, bind, Except.bind] at read
      split at read
      · rename_i value known
        cases read
        exact .operand (.number spelled known) taken
      · cases read
  | boolean =>
    cases taken : takeOperand word.text word.position rest with
    | error error => simp [taken, bind, Except.bind] at read
    | ok pair =>
      simp only [taken, bind, Except.bind] at read
      cases read
      exact .operand (.boolean spelled) taken

theorem readKeyword_reads {keyword : Keyword} (spelled : word.text = keyword.spelling)
    (read : readKeyword afterRead keyword word rest = .ok reading) :
    Reads afterRead word rest reading := by
  unfold readKeyword at read
  cases keyword with
  | cast type =>
    simp only at read
    split at read
    · rename_i after
      cases read
      exact .whole (.cast after spelled)
    · exact readAnnounced_reads spelled read
  | boolean flag => cases read; exact .whole (.boolean spelled)
  | binary operator => cases read; exact .sign (.binary spelled)
  | not => cases read; exact .sign (.not spelled)
  | declare => cases read; exact .whole (.declare spelled)
  | assign => cases read; exact .whole (.assign spelled)
  | target => cases read; exact .whole (.target spelled)
  | conditional => cases read; exact .whole (.conditional spelled)
  | blockEnd => cases read; exact .whole (.blockEnd spelled)
  | jump => exact readLabel_reads spelled (.inl ⟨rfl, rfl⟩) read
  | labelled => exact readLabel_reads spelled (.inr ⟨rfl, rfl⟩) read
  | command action => cases read; exact .whole (.command spelled)

theorem splitClosing_reads (closes : word.chars.getLast? = some ')') :
    Reads afterRead word rest (splitClosing word rest) := by
  have filled : word.chars ≠ [] := by
    intro empty
    rw [empty] at closes
    cases closes
  have long : 0 < word.chars.length := List.length_pos_iff.mpr filled
  unfold splitClosing
  simp only
  split
  · rename_i lone
    obtain ⟨c, single⟩ := List.length_eq_one_iff.mp (show word.chars.length = 1 by omega)
    rw [single] at closes
    obtain rfl : c = ')' := Option.some.inj closes
    exact .whole (.rightParen single)
  · rename_i some
    exact .closing closes some (by omega)

theorem readPlain_reads (free : Keyword.ofText? word.text = none)
    (read : readPlain word rest = .ok reading) : Reads afterRead word rest reading := by
  unfold readPlain at read
  split at read
  · rename_i opens
    obtain ⟨text, left, taken, rfl⟩ := readString_reads read
    exact .quoted opens taken
  split at read
  · rename_i known
    cases read
    exact .whole (.number known)
  split at read
  · rename_i opens
    cases read
    exact .opening opens
  split at read
  · rename_i closes
    cases read
    exact splitClosing_reads closes
  split at read
  · rename_i named
    cases read
    exact .whole (.identifier ⟨by rwa [Word.text, String.toList_ofList], free⟩)
  · cases read
    exact .dropped

/-- Whatever a word is read as, it is one of these. -/
theorem readWord_reads (read : readWord afterRead word rest = .ok reading) :
    Reads afterRead word rest reading := by
  unfold readWord at read
  split at read
  · rename_i keyword reserved
    exact readKeyword_reads (Keyword.spelling_of_ofText? reserved).symm read
  · rename_i free
    exact readPlain_reads free read

end Steps

section Words

/-- What is left of words once the first of them, and maybe more, have been taken: the words that
follow, and in front of them a piece of the last word taken unless it is used up. -/
inductive Remains : List Word → List Word → Prop where
  | rest (word : Word) (words : List Word) : Remains (word :: words) words
  | skip (word : Word) {words left : List Word} (later : Remains words left) :
      Remains (word :: words) left
  | cut {word : Word} (words : List Word) {count : Nat} (proper : count < word.chars.length) :
      Remains (word :: words) (word.drop count :: words)

variable {word : Word} {rest left : List Word}

theorem remains_putBack (word : Word) (count : Nat) (rest : List Word) :
    Remains (word :: rest) ((word.drop count).putBack rest) := by
  unfold Word.putBack
  split
  · exact .rest word rest
  · rename_i filled
    rw [Word.chars_drop, List.isEmpty_iff, List.drop_eq_nil_iff, Nat.not_le] at filled
    exact .cut rest filled

theorem drop_drop (word : Word) (first second : Nat) :
    (word.drop first).drop second = word.drop (first + second) := by
  simp only [Word.drop, List.drop_drop, Position.shift_shift]

/-- What is left of a piece of a word is left of the word. -/
theorem remains_of_drop {count : Nat} (remains : Remains (word.drop count :: rest) left) :
    Remains (word :: rest) left := by
  cases remains with
  | rest => exact .rest word rest
  | skip _ later => exact .skip word later
  | cut _ proper =>
    rw [Word.chars_drop, List.length_drop] at proper
    rw [drop_drop]
    exact .cut rest (by omega)

/-- The text of a string ends in the word that holds its delimiter. -/
theorem remains_takeDelimited {close : Char} {text : List Char}
    (taken : takeDelimited? close word rest = some (text, left)) :
    Remains (word :: rest) left := by
  induction rest generalizing word text with
  | nil =>
    unfold takeDelimited? at taken
    split at taken
    · cases taken
      exact remains_putBack word _ []
    · cases taken
  | cons next rest ih =>
    unfold takeDelimited? at taken
    split at taken
    · cases taken
      exact remains_putBack word _ _
    · simp only [Option.map_eq_some_iff, Prod.mk.injEq, Prod.exists] at taken
      obtain ⟨inner, left, found, _, rfl⟩ := taken
      exact .skip word (ih found)

/-- An operand is the front of the next word, all of which is taken if it is empty. -/
theorem remains_takeOperand {keyword : String} {position : Position} {operand : Word}
    (taken : takeOperand keyword position rest = .ok (operand, left)) :
    ∃ first others, rest = first :: others ∧ operand.position = first.position ∧
      Remains (first.drop 1 :: others) left := by
  cases rest with
  | nil => cases taken
  | cons first others =>
    refine ⟨first, others, rfl, ?_⟩
    simp only [takeOperand] at taken
    split at taken
    · cases taken
      exact ⟨rfl, .rest _ _⟩
    · rename_i kept
      cases taken
      obtain ⟨count, some⟩ := Nat.exists_eq_succ_of_ne_zero kept
      refine ⟨rfl, ?_⟩
      rw [some, Nat.succ_eq_one_add, ← drop_drop]
      exact remains_putBack _ count others

theorem remains_of_suffix {words others : List Word} (suffix : others <:+ words)
    (remains : Remains others left) : Remains words left := by
  obtain ⟨front, rfl⟩ := suffix
  induction front with
  | nil => exact remains
  | cons word front ih => exact .skip word ih

theorem solid_of_spelled (keyword : Keyword) (spelled : word.text = keyword.spelling) :
    word.chars ≠ [] := by
  intro empty
  have filled : ∀ keyword ∈ Keyword.all, keyword.spelling ≠ "" := by decide
  refine filled keyword (Keyword.mem_all keyword) ?_
  rw [← spelled, Word.text, empty]

theorem solid_of_whole {afterRead : Bool} {kind : TokenKind} {literal : Literal}
    (is : Whole afterRead word kind literal) : word.chars ≠ [] := by
  cases is with
  | @cast type _ spelled => exact solid_of_spelled (.cast type) spelled
  | @command action spelled => exact solid_of_spelled (.command action) spelled
  | boolean spelled | declare spelled | assign spelled | target spelled | conditional spelled
  | blockEnd spelled => exact solid_of_spelled _ spelled
  | number read =>
    intro empty
    rw [empty] at read
    cases read
  | rightParen closes => simp [closes]
  | identifier free =>
    intro empty
    have named := free.1
    rw [Word.text, empty] at named
    cases named

theorem solid_of_sign {kind : TokenKind} {literal : Literal} (is : Sign word kind literal) :
    word.chars ≠ [] := by
  cases is with
  | @binary operator spelled => exact solid_of_spelled (.binary operator) spelled
  | not spelled => exact solid_of_spelled _ spelled

theorem solid_of_head {c : Char} (opens : word.chars.head? = some c) : word.chars ≠ [] := by
  intro empty
  rw [empty] at opens
  cases opens

/-- What a reading does to the words, whatever the token is. A token that is no operator stands
where a word begins, the first one or the one that it announces, and takes at least a character
there. -/
inductive Takes (word : Word) (rest : List Word) : Reading → Prop where
  | nothing : Takes word rest ⟨none, rest⟩
  | apart {count : Nat} (some : count ≠ 0) (long : word.chars.length = count + 1) :
      Takes word rest ⟨none, word.take count :: word.drop count :: rest⟩
  | sign {kind : TokenKind} {literal : Literal} (is : Sign word kind literal) :
      Takes word rest (.emit kind literal (operatorPosition word rest) rest)
  | token {kind : TokenKind} {literal : Literal} {first : Word} {others left : List Word}
      (solid : word.chars ≠ []) (suffix : first :: others <:+ word :: rest)
      (remains : Remains (first.drop 1 :: others) left) :
      Takes word rest (.emit kind literal first.position left)

theorem takes_of_reads {afterRead : Bool} {reading : Reading}
    (reads : Reads afterRead word rest reading) : Takes word rest reading := by
  cases reads with
  | whole is => exact .token (solid_of_whole is) List.suffix_rfl (.rest _ _)
  | sign is => exact .sign is
  | operand is taken =>
    obtain ⟨first, others, rfl, placed, remains⟩ := remains_takeOperand taken
    cases is with
    | label spelled =>
      exact .token (solid_of_spelled _ spelled) List.suffix_rfl (.skip _ (remains_of_drop remains))
    | number spelled | boolean spelled =>
      rw [placed]
      exact .token (solid_of_spelled _ spelled) (List.suffix_cons _ _) remains
  | quoted opens taken =>
    exact .token (solid_of_head opens) List.suffix_rfl (remains_takeDelimited taken)
  | announced spelled follows _ taken =>
    subst follows
    exact .token (solid_of_spelled _ spelled) (List.suffix_cons _ _) (remains_takeDelimited taken)
  | opening opens =>
    refine .token (solid_of_head opens) List.suffix_rfl ?_
    exact remains_putBack (word.drop 1) 0 rest
  | closing _ some long => exact .apart some long
  | dropped => exact .nothing

/-- A word that is not empty and has no blank in it. -/
def Firm (word : Word) : Prop :=
  word.chars ≠ [] ∧ ∀ c ∈ word.chars, Text.isBlank c = false

theorem firm_drop {count : Nat} (firm : Firm word) (proper : count < word.chars.length) :
    Firm (word.drop count) := by
  refine ⟨?_, fun c member => firm.2 c (List.mem_of_mem_drop member)⟩
  rw [Word.chars_drop, ne_eq, List.drop_eq_nil_iff, Nat.not_le]
  exact proper

theorem firm_take {count : Nat} (firm : Firm word) (some : count ≠ 0) : Firm (word.take count) := by
  refine ⟨?_, fun c member => firm.2 c (List.mem_of_mem_take member)⟩
  rw [Word.chars_take, ne_eq, List.take_eq_nil_iff]
  exact fun none => none.elim some firm.1

theorem firm_of_remains {words : List Word} (remains : Remains words left)
    (firm : ∀ word ∈ words, Firm word) : ∀ word ∈ left, Firm word := by
  induction remains with
  | rest => exact (List.forall_mem_cons.mp firm).2
  | skip _ _ ih => exact ih (List.forall_mem_cons.mp firm).2
  | cut _ proper =>
    obtain ⟨first, others⟩ := List.forall_mem_cons.mp firm
    exact List.forall_mem_cons.mpr ⟨firm_drop first proper, others⟩

/-- Words are cut into pieces that are firm again. -/
theorem firm_of_step {stage next : Stage} (step : Step stage next)
    (firm : ∀ word ∈ stage.words, Firm word) : ∀ word ∈ next.words, Firm word := by
  obtain ⟨read⟩ := step
  cases takes_of_reads (readWord_reads read) with
  | nothing | sign => exact (List.forall_mem_cons.mp firm).2
  | apart some long =>
    obtain ⟨first, others⟩ := List.forall_mem_cons.mp firm
    refine List.forall_mem_cons.mpr ⟨firm_take first some, ?_⟩
    exact List.forall_mem_cons.mpr ⟨firm_drop first (by omega), others⟩
  | token _ suffix remains =>
    exact firm_of_remains (remains_of_suffix suffix (remains_of_drop remains)) firm

/-- All that is ever to be read of a text is firm. -/
theorem firm_of_leads {source : String} {stage : Stage} (leads : Leads (.first source) stage) :
    ∀ word ∈ stage.words, Firm word := by
  refine leads_keeps (P := fun stage => ∀ word ∈ stage.words, Firm word) firm_of_step leads ?_
  intro word member
  have plain := (wellLaid_scan source).plain word member
  exact ⟨plain.1, plain.2.1⟩

end Words

end StackScript.ReadingSteps
