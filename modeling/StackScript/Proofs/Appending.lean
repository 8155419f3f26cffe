import Mathlib.Order.Basic
import StackScript.Program
import StackScript.Proofs.Lines
import StackScript.Proofs.Places

/-! Lines that are added below a text change nothing about the tokens above them. Reading looks
ahead in three ways only: a keyword takes the word after it, a string takes words up to its end, and
an operator is reported at the word after it; and it looks back to see whether `READ` came last.
Where a text does not end in the middle of one of these, what follows is read as a text of its
own. -/
namespace StackScript.Appending
open Reader Lines Places

/-- The same place, `count` lines further down. -/
def lower (count : Nat) (position : Position) : Position :=
  ⟨position.line + count, position.column⟩

/-- Whether what comes next has a say in how a token is reported, or is read differently because
of it. -/
def awaits : TokenKind → Bool
  | .command .read | .binary _ | .not => true
  | _ => false

/-- Whether a fault says that the words came to an end too early. -/
def runsOut : SyntaxError → Bool
  | .missingOperand _ _ | .unterminatedString _ => true
  | _ => false

section Scanning

/-- Lines further down have the same words, moved alike. -/
theorem scanLines_lower {lines : List (List Char)} (plain : ∀ line ∈ lines, '\n' ∉ line)
    (number count : Nat) :
    scanLines (number + count) lines =
      (scanLines number lines).map (·.mapPosition (lower count)) := by
  induction lines generalizing number with
  | nil => rfl
  | cons line lines ih =>
    have next : number + count + 1 = number + 1 + count := by omega
    have later := ih (fun other member => plain other (List.mem_cons_of_mem _ member)) (number + 1)
    have here : Word.scanFrom ⟨number + count, 0⟩ line =
        (Word.scanFrom ⟨number, 0⟩ line).map (·.mapPosition (lower count)) :=
      scanFrom_moved (plain line List.mem_cons_self) fun _ => rfl
    rw [scanLines, scanLines, next, later, List.map_append, here]

theorem scanFrom_lower (chars : List Char) (number count : Nat) :
    Word.scanFrom ⟨number + count, 0⟩ chars =
      (Word.scanFrom ⟨number, 0⟩ chars).map (·.mapPosition (lower count)) := by
  obtain ⟨closed, same⟩ := written_linesOf chars
  have plain := linesOf_plain chars
  rw [← same, scanFrom_written plain, scanFrom_written plain, scanLines_lower plain]

/-- The words of a text with lines added are the words of the text and those of the lines. -/
theorem scan_append (text lines : String) :
    Word.scan (text ++ "\n" ++ lines) =
      Word.scan text ++
        (Word.scan lines).map (·.mapPosition (lower (text.toList.count '\n' + 1))) := by
  have chars : (text ++ "\n" ++ lines).toList = text.toList ++ '\n' :: lines.toList := by simp
  rw [Word.scan, chars, scanFrom_append, Word.scan, Word.scan, ← scanFrom_lower, Nat.add_assoc]

end Scanning

section Reading

/-- The same reading with more words to come. -/
def extend (reading : Reading) (more : List Word) : Reading :=
  { reading with rest := reading.rest ++ more }

/-- What reading does when there are more words to come: the same, unless the words ran out. -/
def Extends (more : List Word) (result longer : Except SyntaxError Reading) : Prop :=
  match result with
  | .ok reading => longer = .ok (extend reading more)
  | .error error => runsOut error = false → longer = .error error

variable (more : List Word)

theorem putBack_append (word : Word) (words : List Word) :
    word.putBack (words ++ more) = word.putBack words ++ more := by
  unfold Word.putBack
  split <;> rfl

theorem takeOperand_append (keyword : String) (position : Position) (first : Word)
    (words : List Word) :
    takeOperand keyword position (first :: words ++ more) =
      (takeOperand keyword position (first :: words)).map fun taken =>
        (taken.1, taken.2 ++ more) := by
  simp only [takeOperand, List.cons_append]
  split
  · rfl
  · rw [putBack_append]
    rfl

theorem takeDelimited_append {close : Char} {word : Word} {words rest : List Word}
    {text : List Char} (taken : takeDelimited? close word words = some (text, rest)) :
    takeDelimited? close word (words ++ more) = some (text, rest ++ more) := by
  induction words generalizing word text with
  | nil =>
    unfold takeDelimited? at taken ⊢
    split at taken
    · rename_i closes
      cases taken
      simp only [if_pos closes, putBack_append]
    · cases taken
  | cons next words ih =>
    unfold takeDelimited? at taken ⊢
    split at taken
    · rename_i closes
      cases taken
      simp only [if_pos closes, putBack_append]
    · rename_i goesOn
      simp only [Option.map_eq_some_iff, Prod.mk.injEq, Prod.exists] at taken
      obtain ⟨inner, left, found, rfl, rfl⟩ := taken
      simp only [if_neg goesOn, List.cons_append, ih found, Option.map_some]

theorem readString_extends (close : Char) (opener : Word) (words : List Word) :
    Extends more (readString close opener words) (readString close opener (words ++ more)) := by
  unfold readString
  cases taken : takeDelimited? close (opener.drop 1) words with
  | none => exact nofun
  | some pair =>
    rw [takeDelimited_append more taken]
    rfl

theorem readLabel_extends (kind : TokenKind) (keyword : Word) (words : List Word) :
    Extends more (readLabel kind keyword words) (readLabel kind keyword (words ++ more)) := by
  unfold readLabel
  cases words with
  | nil => exact nofun
  | cons first words =>
    rw [takeOperand_append]
    cases takeOperand keyword.text keyword.position (first :: words) with
    | error error => exact fun _ => rfl
    | ok taken =>
      simp only [Except.map, bind, Except.bind]
      split
      · rfl
      · exact fun _ => rfl

theorem readAnnounced_extends (type : Cast) (keyword : Word) (words : List Word) :
    Extends more (readAnnounced type keyword words)
      (readAnnounced type keyword (words ++ more)) := by
  unfold readAnnounced
  cases words with
  | nil => cases type <;> exact nofun
  | cons first words =>
    cases type with
    | string =>
      simp only [List.cons_append]
      split
      · exact readString_extends more ')' first words
      · exact fun _ => rfl
    | number =>
      rw [takeOperand_append]
      cases takeOperand keyword.text keyword.position (first :: words) with
      | error error => exact fun _ => rfl
      | ok taken =>
        simp only [Except.map, bind, Except.bind]
        split
        · rfl
        · exact fun _ => rfl
    | boolean =>
      rw [takeOperand_append]
      cases takeOperand keyword.text keyword.position (first :: words) with
      | error error => exact fun _ => rfl
      | ok taken => rfl

/-- An operator is reported at the word after it, so it must not be the last one. -/
theorem readKeyword_extends (afterRead : Bool) (keyword : Keyword) (word : Word)
    {words : List Word}
    (placed : words = [] → ∀ operator, keyword ≠ .binary operator ∧ keyword ≠ .not) :
    Extends more (readKeyword afterRead keyword word words)
      (readKeyword afterRead keyword word (words ++ more)) := by
  have sign (symbol : keyword = .not ∨ ∃ operator, keyword = .binary operator) :
      operatorPosition word (words ++ more) = operatorPosition word words := by
    cases words with
    | nil =>
      rcases symbol with negation | ⟨operator, binary⟩
      · exact absurd negation (placed rfl .equal).2
      · exact absurd binary (placed rfl operator).1
    | cons first words => rfl
  unfold readKeyword
  cases keyword with
  | cast type =>
    simp only
    split
    · rfl
    · exact readAnnounced_extends more type word words
  | binary operator =>
    simp only [sign (.inr ⟨operator, rfl⟩)]
    rfl
  | not =>
    simp only [sign (.inl rfl)]
    rfl
  | jump => exact readLabel_extends more .jump word words
  | labelled => exact readLabel_extends more .labelled word words
  | _ => rfl

theorem readPlain_extends (word : Word) (words : List Word) :
    Extends more (readPlain word words) (readPlain word (words ++ more)) := by
  unfold readPlain
  split
  · exact readString_extends more '"' word words
  split
  · rfl
  split
  · rw [putBack_append]
    rfl
  split
  · unfold splitClosing
    simp only
    split <;> rfl
  split <;> rfl

/-- The word is an operator, and the last one. -/
def EndsInOperator (reading : Reading) : Prop :=
  reading.rest = [] ∧ ∃ token, reading.token? = some token ∧ awaits token.kind = true

theorem readWord_extends (afterRead : Bool) (word : Word) (words : List Word) :
    Extends more (readWord afterRead word words) (readWord afterRead word (words ++ more)) ∨
      ∃ reading, readWord afterRead word words = .ok reading ∧ EndsInOperator reading := by
  unfold readWord
  cases Keyword.ofText? word.text with
  | none => exact .inl (readPlain_extends more word words)
  | some keyword =>
    simp only
    by_cases placed : words = [] → ∀ operator, keyword ≠ .binary operator ∧ keyword ≠ .not
    · exact .inl (readKeyword_extends more afterRead keyword word placed)
    · simp only [not_forall] at placed
      obtain ⟨rfl, operator, symbol⟩ := placed
      right
      cases keyword with
      | binary operator => exact ⟨_, rfl, rfl, _, rfl, rfl⟩
      | not => exact ⟨_, rfl, rfl, _, rfl, rfl⟩
      | _ => exact absurd ⟨nofun, nofun⟩ symbol

/-- Whether words after some tokens are read as if no word came before them. -/
def Settled (afterRead : Bool) (tokens : List Token) : Prop :=
  match tokens.getLast? with
  | none => afterRead = false
  | some last => awaits last.kind = false

/-- Words are read alike when there are more to come, and these are read as words of their own. -/
def ReadsOn (more : List Word) (afterRead : Bool) (words : List Word) : Prop :=
  match readFrom afterRead words with
  | .ok tokens => Settled afterRead tokens →
    readFrom afterRead (words ++ more) = (readFrom false more).map (tokens ++ ·)
  | .error error => runsOut error = false →
    readFrom afterRead (words ++ more) = .error error

/-- What was settled after all tokens is settled after those that the rest of the words gave. -/
theorem settled_rest {afterRead : Bool} {reading : Reading} {later : List Token}
    (settled : Settled afterRead (reading.token?.toList ++ later)) :
    Settled (reading.afterRead afterRead) later := by
  unfold Settled at settled ⊢
  rw [List.getLast?_append] at settled
  cases ends : later.getLast? with
  | some last => simpa only [ends, Option.some_or] using settled
  | none =>
    rw [ends, Option.none_or] at settled
    unfold Reading.afterRead
    cases read : reading.token? with
    | none =>
      rw [read] at settled
      exact settled
    | some token =>
      rw [read] at settled
      have final : awaits token.kind = false := settled
      have other : token.kind ≠ .command .read := by
        intro same
        rw [same] at final
        cases final
      simp only [other, decide_false]

/-- A word that is read alike leaves the question to the words after it. -/
theorem readsOn_cons {afterRead : Bool} {word : Word} {words : List Word}
    (extended : Extends more (readWord afterRead word words)
      (readWord afterRead word (words ++ more)))
    (rest : ∀ reading, readWord afterRead word words = .ok reading →
      ReadsOn more (reading.afterRead afterRead) reading.rest) :
    ReadsOn more afterRead (word :: words) := by
  unfold ReadsOn
  rw [List.cons_append, readFrom_cons, readFrom_cons]
  cases read : readWord afterRead word words with
  | error error =>
    rw [read] at extended
    intro invalid
    rw [extended invalid]
    rfl
  | ok reading =>
    rw [read] at extended
    have after := rest reading read
    unfold ReadsOn at after
    rw [extended]
    simp only [Except.bind, extend, Reading.afterRead]
    change match (readFrom (reading.afterRead afterRead) reading.rest).map _ with
      | .ok tokens => Settled afterRead tokens → Except.map _
          (readFrom (reading.afterRead afterRead) (reading.rest ++ more)) = _
      | .error error => runsOut error = false → Except.map _
          (readFrom (reading.afterRead afterRead) (reading.rest ++ more)) = _
    cases left : readFrom (reading.afterRead afterRead) reading.rest with
    | error error =>
      rw [left] at after
      intro invalid
      rw [after invalid]
      rfl
    | ok later =>
      rw [left] at after
      intro settled
      rw [after (settled_rest settled)]
      cases readFrom false more with
      | error error => rfl
      | ok tokens => simp [Except.map]

/-- Words of any number are read alike when there are more to come. -/
theorem readsOn (afterRead : Bool) (words : List Word) : ReadsOn more afterRead words := by
  induction bound : weights words using Nat.strongRecOn generalizing afterRead words with
  | ind heavy ih =>
    cases words with
    | nil =>
      unfold ReadsOn
      rw [readFrom_nil]
      intro (settled : afterRead = false)
      rw [List.nil_append, settled]
      cases readFrom false more <;> rfl
    | cons word words =>
      rcases readWord_extends more afterRead word words with extended | ⟨reading, read, ending⟩
      · refine readsOn_cons more extended fun reading read => ?_
        exact ih _ (bound ▸ weights_readWord_lt read) _ _ rfl
      · -- The last word is an operator, which is not settled.
        obtain ⟨empty, token, emitted, waits⟩ := ending
        unfold ReadsOn
        rw [readFrom_cons, read]
        simp only [Except.bind, empty, readFrom_nil, emitted, Except.map]
        intro (final : awaits token.kind = false)
        rw [waits] at final
        cases final

end Reading

/-- Lines added below a text leave its tokens as they are, unless the last of these takes an
interest in what comes next: the lines are read as a text of their own, further down, and their
fault is that of the whole. A fault of the text itself that is not about its end stays. -/
theorem tokenize_append (text lines : String) :
    let whole := Program.tokenize (text ++ "\n" ++ lines)
    let lowered := lower (text.toList.count '\n' + 1)
    (∀ tokens, Program.tokenize text = .ok tokens →
      (∀ last, tokens.getLast? = some last → awaits last.kind = false) →
      whole = ((Program.tokenize lines).map fun later =>
        tokens ++ later.map (·.mapPosition lowered)).mapError (·.mapPosition lowered)) ∧
    (∀ error, Program.tokenize text = .error (.written error) → runsOut error = false →
      whole = .error (.written error)) := by
  intro whole lowered
  have on := readsOn ((Word.scan lines).map (·.mapPosition lowered)) false (Word.scan text)
  have moved : readFrom false ((Word.scan lines).map (·.mapPosition lowered)) =
      ((Reader.read (Word.scan lines)).map (List.map (·.mapPosition lowered))).mapError
        (·.mapPosition lowered) := read_moved (fun _ _ => rfl) (Word.scan lines)
  have joined : whole = (readFrom false (Word.scan text ++
      (Word.scan lines).map (·.mapPosition lowered))).mapError .written := by
    simp only [whole, Program.tokenize, scan_append]
    rfl
  unfold ReadsOn at on
  unfold Program.tokenize
  rw [joined]
  constructor
  · intro tokens read settled
    have first : readFrom false (Word.scan text) = .ok tokens := by
      change (readFrom false (Word.scan text)).mapError Error.written = .ok tokens at read
      cases known : readFrom false (Word.scan text) <;> rw [known] at read <;> cases read
      rfl
    rw [first] at on
    have closed : Settled false tokens := by
      unfold Settled
      cases ends : tokens.getLast? with
      | none => rfl
      | some last => exact settled last ends
    rw [on closed, moved]
    cases Reader.read (Word.scan lines) <;> rfl
  · intro error read invalid
    have first : readFrom false (Word.scan text) = .error error := by
      change (readFrom false (Word.scan text)).mapError Error.written = .error (.written error) at read
      cases known : readFrom false (Word.scan text) <;> rw [known] at read <;> cases read
      rfl
    rw [first] at on
    rw [on invalid]
    rfl

/-- A text that ends in a comment, and a line whose number is none. -/
theorem tokenize_append_comment :
    Program.tokenize "IF ready\n  PRINT # and then" = .ok
        [⟨.conditional, .absent, ⟨1, 0⟩⟩, ⟨.identifier, .name "ready", ⟨1, 3⟩⟩,
          ⟨.command .print, .keyword "PRINT", ⟨2, 2⟩⟩] ∧
      Program.tokenize ("IF ready\n  PRINT # and then" ++ "\n" ++ "  \"it is\" (\nEND") = .ok
        [⟨.conditional, .absent, ⟨1, 0⟩⟩, ⟨.identifier, .name "ready", ⟨1, 3⟩⟩,
          ⟨.command .print, .keyword "PRINT", ⟨2, 2⟩⟩, ⟨.string, .string "it is", ⟨3, 2⟩⟩,
          ⟨.leftParen, .absent, ⟨3, 10⟩⟩, ⟨.blockEnd, .absent, ⟨4, 0⟩⟩] ∧
      Program.tokenize ("SECTION 7up" ++ "\n" ++ "END") =
        .error (.written (.invalidLabel "SECTION" "7up" ⟨1, 8⟩)) := by
  have text : Program.tokenize "IF ready\n  PRINT # and then" = .ok
      [⟨.conditional, .absent, ⟨1, 0⟩⟩, ⟨.identifier, .name "ready", ⟨1, 3⟩⟩,
        ⟨.command .print, .keyword "PRINT", ⟨2, 2⟩⟩] := by
    cbv
  have lines : Program.tokenize "  \"it is\" (\nEND" = .ok
      [⟨.string, .string "it is", ⟨1, 2⟩⟩, ⟨.leftParen, .absent, ⟨1, 10⟩⟩,
        ⟨.blockEnd, .absent, ⟨2, 0⟩⟩] := by
    cbv
  have refused : Program.tokenize "SECTION 7up" =
      .error (.written (.invalidLabel "SECTION" "7up" ⟨1, 8⟩)) := by
    cbv
  refine ⟨text, ?_, (tokenize_append _ _).2 _ refused rfl⟩
  rw [(tokenize_append _ _).1 _ text (by rintro _ ⟨⟩; rfl), lines]
  cbv

end StackScript.Appending
