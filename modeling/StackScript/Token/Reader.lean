import StackScript.Error
import StackScript.Token.Keyword
import StackScript.Value
import StackScript.Word
import StackScript.Number.Numeral

/-! Reading words as tokens. One word is taken at a time; it may take more words with it (the
operand of a keyword, the rest of a string) and may put back pieces of words (what is glued to
a parenthesis, or what follows a string), so a list of words still to be read is passed along.
Each word taken lowers the weight of that list, which is why reading ends. -/
namespace StackScript.Reader

/-- The outcome of reading one word. -/
structure Reading where
  /-- The token read, if the word gave one. -/
  token? : Option Token
  /-- The words still to be read. -/
  rest : List Word
deriving DecidableEq, Repr

/-- The outcome that a token was read. -/
def Reading.emit (kind : TokenKind) (literal : Literal) (position : Position)
    (rest : List Word) : Reading :=
  ⟨some ⟨kind, literal, position⟩, rest⟩

/-- An ASCII letter or an underscore. -/
def isNameStart (c : Char) : Bool := c.isAlpha || c == '_'

/-- An ASCII letter, a digit or an underscore. -/
def isNamePart (c : Char) : Bool := c.isAlphanum || c == '_'

/-- Whether the characters form a name for a variable or a label. -/
def isIdentifier : List Char → Bool
  | [] => false
  | first :: rest => isNameStart first && rest.all isNamePart

/-- Takes the operand of a keyword: the next word, without the closing parentheses at its end,
which are put back. A word of closing parentheses only is taken whole. -/
def takeOperand (keyword : String) (position : Position) :
    List Word → Except SyntaxError (Word × List Word)
  | [] => .error (.missingOperand keyword position)
  | word :: rest =>
    let kept := (Text.dropEndWhile (· == ')') word.chars).length
    if kept = 0 then .ok (word, rest)
    else .ok (word.take kept, (word.drop kept).putBack rest)

/-- Takes the text up to the first `close`, which may stand in a later word; words are joined
by single spaces. What follows the closing character is put back. -/
def takeDelimited? (close : Char) (word : Word) (rest : List Word) :
    Option (List Char × List Word) :=
  if close ∈ word.chars then
    let text := word.chars.takeWhile (· ≠ close)
    some (text, (word.drop (text.length + 1)).putBack rest)
  else
    match rest with
    | [] => none
    | next :: rest =>
      (takeDelimited? close next rest).map fun (text, rest) => (word.chars ++ ' ' :: text, rest)
termination_by structural rest

/-- Reads a string whose opening character is the first one of `opener`. -/
def readString (close : Char) (opener : Word) (rest : List Word) : Except SyntaxError Reading :=
  match takeDelimited? close (opener.drop 1) rest with
  | some (text, rest) =>
    .ok (.emit .string (.string (String.ofList text)) opener.position rest)
  | none => .error (.unterminatedString opener.position)

/-- The place an operator is reported at: that of the word after it, or its own if it is the
last word. -/
def operatorPosition (word : Word) (rest : List Word) : Position :=
  (rest.head?.getD word).position

/-- The label that a word is. The colon that may end the label of a section belongs to the
notation and not to the label. -/
def labelChars (kind : TokenKind) (chars : List Char) : List Char :=
  if kind = .labelled ∧ chars.getLast? = some ':' then chars.dropLast else chars

/-- Reads the label after `keyword`. -/
def readLabel (kind : TokenKind) (keyword : Word) (rest : List Word) :
    Except SyntaxError Reading := do
  let (word, rest) ← takeOperand keyword.text keyword.position rest
  let label := labelChars kind word.chars
  if isIdentifier label then
    return .emit kind (.label (String.ofList label)) keyword.position rest
  else
    throw (.invalidLabel keyword.text word.text word.position)

/-- Reads a literal that is announced by its type. -/
def readAnnounced (type : Cast) (keyword : Word) (rest : List Word) :
    Except SyntaxError Reading :=
  match type with
  | .string =>
    match rest with
    | [] => .error (.missingOperand keyword.text keyword.position)
    | opener :: rest =>
      if opener.chars.head? = some '(' then readString ')' opener rest
      else .error (.invalidString '(' opener.position)
  | .number => do
    let (word, rest) ← takeOperand keyword.text keyword.position rest
    match Number.readFinite? word.chars with
    | some value => return .emit .number (.number value) word.position rest
    | none => throw (.invalidNumber word.text word.position)
  | .boolean => do
    let (word, rest) ← takeOperand keyword.text keyword.position rest
    return .emit .boolean (.boolean (Value.truthOfWord word.text)) word.position rest

/-- Reads a reserved word. -/
def readKeyword (afterRead : Bool) (keyword : Keyword) (word : Word) (rest : List Word) :
    Except SyntaxError Reading :=
  let plain kind := .ok (.emit kind (.keyword keyword.spelling) word.position rest)
  let operator kind :=
    .ok (.emit kind (.keyword keyword.spelling) (operatorPosition word rest) rest)
  match keyword with
  | .cast type => if afterRead then plain (.cast type) else readAnnounced type word rest
  | .boolean flag => .ok (.emit .boolean (.boolean flag) word.position rest)
  | .binary symbol => operator (.binary symbol)
  | .not => operator .not
  | .declare => plain .declare
  | .assign => plain .assign
  | .target => plain .target
  | .conditional => .ok (.emit .conditional .absent word.position rest)
  | .blockEnd => .ok (.emit .blockEnd .absent word.position rest)
  | .jump => readLabel .jump word rest
  | .labelled => readLabel .labelled word rest
  | .command action => plain (.command action)

/-- Reads a word that ends in a closing parenthesis: the parenthesis itself, or nothing yet but
the two pieces put back. -/
def splitClosing (word : Word) (rest : List Word) : Reading :=
  let kept := word.chars.length - 1
  if kept = 0 then .emit .rightParen .absent word.position rest
  else ⟨none, word.take kept :: word.drop kept :: rest⟩

/-- Reads a word that is not reserved. A word that is nothing is dropped. -/
def readPlain (word : Word) (rest : List Word) : Except SyntaxError Reading :=
  if word.chars.head? = some '"' then
    readString '"' word rest
  else if let some value := Number.readFinite? word.chars then
    .ok (.emit .number (.number value) word.position rest)
  else if word.chars.head? = some '(' then
    .ok (.emit .leftParen .absent word.position ((word.drop 1).putBack rest))
  else if word.chars.getLast? = some ')' then
    .ok (splitClosing word rest)
  else if isIdentifier word.chars then
    .ok (.emit .identifier (.name word.text) word.position rest)
  else
    .ok ⟨none, rest⟩

/-- Reads one word; `afterRead` tells whether the token read last is `READ`. -/
def readWord (afterRead : Bool) (word : Word) (rest : List Word) : Except SyntaxError Reading :=
  match Keyword.ofText? word.text with
  | some keyword => readKeyword afterRead keyword word rest
  | none => readPlain word rest

/-- Whether the token read last is `READ`, after one more word has been read. -/
def Reading.afterRead (reading : Reading) (before : Bool) : Bool :=
  match reading.token? with
  | some token => token.kind = .command .read
  | none => before

/-- A bound on the readings that a word can take: one for each character, and one more for
each cut between two of them. -/
def weight (word : Word) : Nat := max 1 (2 * word.chars.length - 1)

/-- The weight of all words together. -/
def weights : List Word → Nat
  | [] => 0
  | word :: rest => weight word + weights rest

@[simp] theorem weights_nil : weights [] = 0 := rfl

@[simp] theorem weights_cons (word : Word) (rest : List Word) :
    weights (word :: rest) = weight word + weights rest := rfl

theorem weight_pos (word : Word) : 0 < weight word := by
  unfold weight
  omega

/-- Putting back a piece of a word weighs at most as much as the word. -/
theorem weights_putBack_drop_le (word : Word) (count : Nat) (rest : List Word) :
    weights ((word.drop count).putBack rest) ≤ weight word + weights rest := by
  unfold Word.putBack
  split
  · omega
  · simp only [weights_cons, weight, Word.chars_drop, List.length_drop]
    omega

/-- Putting back a proper piece of a word weighs less than the word. -/
theorem weights_putBack_drop_lt (word : Word) (count : Nat) (rest : List Word) :
    weights ((word.drop (count + 1)).putBack rest) < weight word + weights rest := by
  have positive := weight_pos word
  unfold Word.putBack
  split
  · omega
  · rename_i nonempty
    simp only [Word.chars_drop, List.isEmpty_iff, List.drop_eq_nil_iff] at nonempty
    simp only [weights_cons, weight, Word.chars_drop, List.length_drop]
    omega

theorem weights_takeOperand_le {keyword : String} {position : Position} {words rest : List Word}
    {word : Word} (taken : takeOperand keyword position words = .ok (word, rest)) :
    weights rest ≤ weights words := by
  cases words with
  | nil => simp [takeOperand] at taken
  | cons first others =>
    simp only [takeOperand] at taken
    split at taken
    · simp only [Except.ok.injEq, Prod.mk.injEq] at taken
      simp [← taken.2]
    · simp only [Except.ok.injEq, Prod.mk.injEq] at taken
      rw [← taken.2, weights_cons]
      exact weights_putBack_drop_le first _ others

theorem weights_takeDelimited?_lt {close : Char} {word : Word} {words rest : List Word}
    {text : List Char} (taken : takeDelimited? close word words = some (text, rest)) :
    weights rest < weight word + weights words := by
  induction words generalizing word text with
  | nil =>
    unfold takeDelimited? at taken
    split at taken
    · cases taken
      exact weights_putBack_drop_lt word _ []
    · cases taken
  | cons next others ih =>
    unfold takeDelimited? at taken
    split at taken
    · cases taken
      exact weights_putBack_drop_lt word _ _
    · simp only [Option.map_eq_some_iff, Prod.mk.injEq, Prod.exists] at taken
      obtain ⟨inner, left, found, _, rfl⟩ := taken
      have := ih found
      simp only [weights_cons]
      omega

theorem weights_readString_lt {close : Char} {opener : Word} {words : List Word}
    {reading : Reading} (read : readString close opener words = .ok reading) :
    weights reading.rest < weight opener + weights words := by
  unfold readString at read
  split at read
  · rename_i text rest taken
    cases read
    have bound := weights_takeDelimited?_lt taken
    have lighter : weight (opener.drop 1) ≤ weight opener := by
      simp only [weight, Word.chars_drop, List.length_drop]
      omega
    simp only [Reading.emit]
    omega
  · cases read

theorem weights_readLabel_le {kind : TokenKind} {keyword : Word} {words : List Word}
    {reading : Reading} (read : readLabel kind keyword words = .ok reading) :
    weights reading.rest ≤ weights words := by
  unfold readLabel at read
  cases taken : takeOperand keyword.text keyword.position words with
  | error error => simp [taken, bind, Except.bind] at read
  | ok operand =>
    obtain ⟨word, rest⟩ := operand
    simp only [taken, bind, Except.bind] at read
    split at read
    · cases read
      exact weights_takeOperand_le taken
    · cases read

theorem weights_readAnnounced_le {type : Cast} {keyword : Word} {words : List Word}
    {reading : Reading} (read : readAnnounced type keyword words = .ok reading) :
    weights reading.rest ≤ weights words := by
  unfold readAnnounced at read
  cases type with
  | string =>
    cases words with
    | nil => cases read
    | cons opener rest =>
      simp only at read
      split at read
      · simpa using Nat.le_of_lt (weights_readString_lt read)
      · cases read
  | number =>
    cases taken : takeOperand keyword.text keyword.position words with
    | error error => simp [taken, bind, Except.bind] at read
    | ok operand =>
      simp only [taken, bind, Except.bind] at read
      split at read
      · cases read
        exact weights_takeOperand_le taken
      · cases read
  | boolean =>
    cases taken : takeOperand keyword.text keyword.position words with
    | error error => simp [taken, bind, Except.bind] at read
    | ok operand =>
      simp only [taken, bind, Except.bind] at read
      cases read
      exact weights_takeOperand_le taken

theorem weights_readKeyword_le {afterRead : Bool} {keyword : Keyword} {word : Word}
    {words : List Word} {reading : Reading}
    (read : readKeyword afterRead keyword word words = .ok reading) :
    weights reading.rest ≤ weights words := by
  unfold readKeyword at read
  cases keyword with
  | cast type =>
    simp only at read
    split at read
    · cases read
      exact Nat.le_refl _
    · exact weights_readAnnounced_le read
  | jump => exact weights_readLabel_le read
  | labelled => exact weights_readLabel_le read
  | _ =>
    cases read
    exact Nat.le_refl _

theorem weights_splitClosing_lt (word : Word) (words : List Word) :
    weights (splitClosing word words).rest < weight word + weights words := by
  unfold splitClosing
  simp only
  split
  · have := weight_pos word
    simp only [Reading.emit]
    omega
  · simp only [weights_cons, weight, Word.chars_take, Word.chars_drop, List.length_take,
      List.length_drop]
    omega

theorem weights_readPlain_lt {word : Word} {words : List Word} {reading : Reading}
    (read : readPlain word words = .ok reading) :
    weights reading.rest < weight word + weights words := by
  have positive := weight_pos word
  unfold readPlain at read
  split at read
  · exact weights_readString_lt read
  split at read
  · cases read
    simp only [Reading.emit]
    omega
  split at read
  · cases read
    exact weights_putBack_drop_lt word 0 words
  split at read
  · cases read
    exact weights_splitClosing_lt word words
  split at read
  · cases read
    simp only [Reading.emit]
    omega
  · cases read
    simp only
    omega

/-- Reading a word leaves less to be read. -/
theorem weights_readWord_lt {afterRead : Bool} {word : Word} {words : List Word}
    {reading : Reading} (read : readWord afterRead word words = .ok reading) :
    weights reading.rest < weights (word :: words) := by
  have positive := weight_pos word
  rw [weights_cons]
  unfold readWord at read
  split at read
  · have := weights_readKeyword_le read
    omega
  · exact weights_readPlain_lt read

/-- Reads all words; `afterRead` tells whether the token read last is `READ`. -/
def readFrom (afterRead : Bool) (words : List Word) : Except SyntaxError (List Token) :=
  match words with
  | [] => .ok []
  | word :: rest =>
    match _read : readWord afterRead word rest with
    | .error error => .error error
    | .ok reading =>
      (readFrom (reading.afterRead afterRead) reading.rest).map (reading.token?.toList ++ ·)
termination_by weights words
decreasing_by exact weights_readWord_lt _read

/-- The tokens of a list of words. -/
def read (words : List Word) : Except SyntaxError (List Token) := readFrom false words

@[simp] theorem readFrom_nil (afterRead : Bool) : readFrom afterRead [] = .ok [] := by
  rw [readFrom]

/-- Reading goes on where the reading of the first word left off. -/
theorem readFrom_cons (afterRead : Bool) (word : Word) (rest : List Word) :
    readFrom afterRead (word :: rest) =
      (readWord afterRead word rest).bind fun reading =>
        (readFrom (reading.afterRead afterRead) reading.rest).map
          (reading.token?.toList ++ ·) := by
  rw [readFrom]
  cases readWord afterRead word rest <;> rfl

end StackScript.Reader
