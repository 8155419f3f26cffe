import Mathlib.Data.List.Forall2
import StackScript.Program
import StackScript.Proofs.Lines
import StackScript.Proofs.Numerals
import StackScript.Token.Spelling
import StackScript.Word.Layout

/-! Reading undoes writing. Tokens that are written with single spaces between them are read back
as they were, but for their places. A token is written as one word or more, and one reading takes
exactly these words and gives the token, whatever comes after; only a cast also depends on what
comes before. -/
namespace StackScript.RoundTrip
open Reader Lines Numerals

/-- Words written with single spaces between them. -/
def spaced (words : List (List Char)) : List Char := [' '].intercalate words

@[simp] theorem spaced_nil : spaced [] = [] := rfl

@[simp] theorem spaced_singleton (word : List Char) : spaced [word] = word :=
  List.intercalate_singleton

theorem spaced_cons {words : List (List Char)} (some : words ≠ []) (word : List Char) :
    spaced (word :: words) = word ++ ' ' :: spaced words := by
  rw [spaced, List.intercalate_cons_of_ne_nil some]
  simp [spaced]

theorem spaced_append {words others : List (List Char)} (some : words ≠ []) (more : others ≠ []) :
    spaced (words ++ others) = spaced words ++ ' ' :: spaced others := by
  induction words with
  | nil => exact absurd rfl some
  | cons word words ih =>
    by_cases last : words = []
    · subst last
      rw [List.singleton_append, spaced_cons more, spaced_singleton]
    · have further : words ++ others ≠ [] := by simp [last]
      rw [List.cons_append, spaced_cons further, ih last, spaced_cons last, List.append_assoc,
        List.cons_append]

/-- Groups of words are written as all their words are. -/
theorem spaced_flatten {groups : List (List (List Char))} (some : ∀ group ∈ groups, group ≠ []) :
    spaced (groups.map spaced) = spaced groups.flatten := by
  induction groups with
  | nil => rfl
  | cons group groups ih =>
    have here : group ≠ [] := some group List.mem_cons_self
    have later := ih fun other member => some other (List.mem_cons_of_mem _ member)
    cases groups with
    | nil => simp
    | cons next groups =>
      have further : (next :: groups).flatten ≠ [] := by
        simp [some next (List.mem_cons_of_mem _ List.mem_cons_self)]
      have split : (group :: next :: groups).flatten = group ++ (next :: groups).flatten := rfl
      rw [List.map_cons, spaced_cons (by simp), later, split, spaced_append here further]

section Scanning

/-- Where a word ends. -/
theorem takeWhile_blank {rest : List Char} (ends : ∀ c ∈ rest.head?, Text.isBlank c = true) :
    rest.takeWhile (!Text.isBlank ·) = [] ∧ rest.dropWhile (!Text.isBlank ·) = rest := by
  cases rest with
  | nil => exact ⟨rfl, rfl⟩
  | cons c rest =>
    have blank : Text.isBlank c = true := ends c rfl
    simp [blank]

/-- Plain characters up to a blank are scanned as a word. -/
theorem scanFrom_plain {chars : List Char} (plain : Word.IsPlain chars) (position : Position)
    {rest : List Char} (ends : ∀ c ∈ rest.head?, Text.isBlank c = true) :
    Word.scanFrom position (chars ++ rest) =
      ⟨chars, position⟩ :: Word.scanFrom (position.shift chars.length) rest := by
  obtain ⟨some, solid, word⟩ := plain
  cases chars with
  | nil => exact absurd rfl some
  | cons c chars =>
    have inner : ∀ d ∈ chars, (!Text.isBlank d) = true := by
      intro d member
      rw [solid d (List.mem_cons_of_mem _ member)]
      rfl
    have taken : (chars ++ rest).takeWhile (!Text.isBlank ·) = chars := by
      rw [List.takeWhile_append_of_pos inner, (takeWhile_blank ends).1, List.append_nil]
    have left : (chars ++ rest).dropWhile (!Text.isBlank ·) = rest := by
      rw [List.dropWhile_append_of_pos inner, (takeWhile_blank ends).2]
    rw [List.cons_append, scanFrom_solid (by simp [solid c List.mem_cons_self]), taken, left]
    simp [word]

/-- Plain words written with single spaces between them are scanned as these words. -/
theorem scanFrom_spaced {words : List (List Char)} (plain : ∀ word ∈ words, Word.IsPlain word)
    (position : Position) :
    (Word.scanFrom position (spaced words)).map Word.chars = words := by
  induction words generalizing position with
  | nil => rw [spaced_nil, scanFrom_nil, List.map_nil]
  | cons word words ih =>
    have here := plain word List.mem_cons_self
    have later := ih fun other member => plain other (List.mem_cons_of_mem _ member)
    by_cases last : words = []
    · subst last
      rw [spaced_singleton, ← List.append_nil word, scanFrom_plain here _ (by simp), scanFrom_nil]
      simp
    · rw [spaced_cons last, scanFrom_plain here _ (by rintro _ ⟨⟩; rfl),
        scanFrom_blank (by decide) (by decide), List.map_cons, later]

end Scanning

section Plain

/-- Characters of a class that has no blank and no `#` make up a plain word. -/
theorem plain_of_class {part : Char → Bool} (blanks : ∀ c, Text.isBlank c = true → part c = false)
    (comment : part '#' = false) {chars : List Char} (some : chars ≠ [])
    (parts : ∀ c ∈ chars, part c = true) : Word.IsPlain chars := by
  refine ⟨some, ?_, ?_⟩
  · intro c member
    rw [← Bool.not_eq_true]
    intro blank
    have inside := parts c member
    rw [blanks c blank] at inside
    cases inside
  · rw [Word.startsComment, beq_eq_false_iff_ne]
    rintro rfl
    have inside := parts '#' List.mem_cons_self
    rw [comment] at inside
    cases inside

/-- What holds of the five blanks holds of every blank. -/
theorem blank_cases {motive : Char → Prop} (space : motive ' ') (tab : motive '\t')
    (carriage : motive '\r') (line : motive '\n') (page : motive '\x0c') (c : Char)
    (blank : Text.isBlank c = true) : motive c := by
  simp only [Text.isBlank, Bool.or_eq_true, beq_iff_eq] at blank
  rcases blank with (((rfl | rfl) | rfl) | rfl) | rfl
  · exact space
  · exact tab
  · exact carriage
  · exact line
  · exact page

theorem plain_of_readFinite? {chars : List Char} {value : Float}
    (read : Number.readFinite? chars = some value) : Word.IsPlain chars := by
  obtain ⟨parts, c, member, _⟩ := parts_of_readFinite? read
  refine plain_of_class ?_ rfl (List.ne_nil_of_mem member) parts
  exact blank_cases rfl rfl rfl rfl rfl

theorem plain_spelling (keyword : Keyword) : Word.IsPlain keyword.spelling.toList := by
  have some : ∀ keyword ∈ Keyword.all, keyword.spelling.toList ≠ [] := by decide
  refine plain_of_class ?_ rfl (some keyword (Keyword.mem_all keyword))
    fun c => Keyword.isAlpha_of_mem_spelling
  exact blank_cases rfl rfl rfl rfl rfl

/-- The characters of a name are letters, digits and underscores. -/
theorem parts_of_isIdentifier {chars : List Char} (named : isIdentifier chars = true) :
    ∀ c ∈ chars, isNamePart c = true := by
  cases chars with
  | nil => cases named
  | cons first rest =>
    simp only [isIdentifier, Bool.and_eq_true, List.all_eq_true] at named
    refine List.forall_mem_cons.mpr ⟨?_, named.2⟩
    have start := named.1
    simp only [isNameStart, Bool.or_eq_true] at start
    rcases start with letter | mark
    · simp [isNamePart, Char.isAlphanum, letter]
    · simp [isNamePart, mark]

theorem notMem_of_isIdentifier {chars : List Char} (named : isIdentifier chars = true) {c : Char}
    (other : isNamePart c = false) : c ∉ chars := by
  intro member
  have part := parts_of_isIdentifier named c member
  rw [other] at part
  cases part

theorem plain_of_isIdentifier {chars : List Char} (named : isIdentifier chars = true) :
    Word.IsPlain chars := by
  refine plain_of_class ?_ rfl ?_ (parts_of_isIdentifier named)
  · exact blank_cases rfl rfl rfl rfl rfl
  · rintro rfl
    cases named

end Plain

section Writing
variable {kind : TokenKind} {literal : Literal}

/-- Whether a kind is that of a cast. -/
def isCast : TokenKind → Bool
  | .cast _ => true
  | _ => false

/-- A token is written as some words: they are plain, and one reading takes them all and gives the
token, whatever comes after. -/
structure Written (kind : TokenKind) (literal : Literal) (words : List (List Char)) : Prop where
  some : words ≠ []
  plain : ∀ word ∈ words, Word.IsPlain word
  read {afterRead : Bool} (cast : isCast kind = true → afterRead = true) {first : Word}
    {others : List Word} (same : (first :: others).map Word.chars = words) (rest : List Word) :
    ∃ position,
      readWord afterRead first (others ++ rest) = .ok (.emit kind literal position rest)

/-- A token that is written as one word. -/
theorem written_word {chars : List Char} (plain : Word.IsPlain chars)
    (read : ∀ afterRead, (isCast kind = true → afterRead = true) → ∀ place rest, ∃ position,
      readWord afterRead ⟨chars, place⟩ rest = .ok (.emit kind literal position rest)) :
    Written kind literal [chars] where
  some := List.cons_ne_nil _ _
  plain := by simpa using plain
  read := by
    intro afterRead cast first others same rest
    simp only [List.map_cons, List.cons.injEq, List.map_eq_nil_iff] at same
    obtain ⟨rfl, rfl⟩ := same
    exact read afterRead cast first.position rest

theorem readWord_keyword (afterRead : Bool) (keyword : Keyword) (place : Position)
    (rest : List Word) :
    readWord afterRead ⟨keyword.spelling.toList, place⟩ rest =
      readKeyword afterRead keyword ⟨keyword.spelling.toList, place⟩ rest := by
  rw [readWord, Word.text, String.ofList_toList, Keyword.ofText?_spelling]

/-- A token that is written as a reserved word. -/
theorem written_keyword (keyword : Keyword)
    (read : ∀ afterRead, (isCast kind = true → afterRead = true) → ∀ word rest, ∃ position,
      readKeyword afterRead keyword word rest = .ok (.emit kind literal position rest)) :
    Written kind literal [keyword.spelling.toList] := by
  refine written_word (plain_spelling keyword) fun afterRead cast place rest => ?_
  rw [readWord_keyword]
  exact read afterRead cast _ rest

/-- A token that is written as a word that is not reserved. -/
theorem written_plain {chars : List Char} (plain : Word.IsPlain chars)
    (free : Keyword.ofText? (String.ofList chars) = none)
    (read : ∀ place rest, ∃ position,
      readPlain ⟨chars, place⟩ rest = .ok (.emit kind literal position rest)) :
    Written kind literal [chars] := by
  refine written_word plain fun afterRead _ place rest => ?_
  rw [readWord, Word.text, free]
  exact read place rest

theorem written_number {chars : List Char} {value : Float}
    (known : Number.readFinite? chars = some value) :
    Written .number (.number value) [chars] := by
  obtain ⟨parts, digit, member, isDigit⟩ := parts_of_readFinite? known
  refine written_plain (plain_of_readFinite? known)
    (Keyword.ofText?_eq_none (by simpa using member) (isAlpha_of_isDigit isDigit))
    fun place rest => ⟨place, ?_⟩
  have unquoted : chars.head? ≠ some '"' := by
    intro quoted
    have part := parts '"' (List.mem_of_mem_head? quoted)
    cases part
  simp only [readPlain, unquoted, ↓reduceIte, known]

theorem written_identifier {name : String} (free : VariableName name) :
    Written .identifier (.name name) [name.toList] := by
  obtain ⟨named, unreserved⟩ := free
  refine written_plain (plain_of_isIdentifier named) (by simpa using unreserved)
    fun place rest => ⟨place, ?_⟩
  have starts (c : Char) (other : isNamePart c = false) : name.toList.head? ≠ some c :=
    fun head => notMem_of_isIdentifier named other (List.mem_of_mem_head? head)
  have ends : name.toList.getLast? ≠ some ')' :=
    fun last => notMem_of_isIdentifier named rfl (List.mem_of_mem_getLast? last)
  simp only [readPlain, starts '"' rfl, starts '(' rfl, ends, ↓reduceIte,
    readFinite?_of_isIdentifier named, named, Word.text, String.ofList_toList]

theorem dropEndWhile_eq_self {drop : Char → Bool} {chars : List Char}
    (kept : ∀ c ∈ chars, drop c = false) : Text.dropEndWhile drop chars = chars := by
  have front : chars.reverse.dropWhile drop = chars.reverse := by
    cases shape : chars.reverse with
    | nil => rfl
    | cons c rest =>
      have member : c ∈ chars := List.mem_reverse.mp (shape ▸ List.mem_cons_self)
      rw [List.dropWhile_cons_of_neg (by simp [kept c member])]
  rw [Text.dropEndWhile, front, List.reverse_reverse]

/-- A name is taken as an operand as it is. -/
theorem takeOperand_name {word : Word} (named : isIdentifier word.chars = true) (keyword : String)
    (place : Position) (rest : List Word) :
    takeOperand keyword place (word :: rest) = .ok (word, rest) := by
  have closes : ∀ c ∈ word.chars, (c == ')') = false := by
    intro c member
    rw [beq_eq_false_iff_ne]
    rintro rfl
    exact notMem_of_isIdentifier named rfl member
  have some : word.chars ≠ [] := (plain_of_isIdentifier named).1
  simp [takeOperand, dropEndWhile_eq_self closes, some, Word.take, Word.drop, Word.putBack]

/-- The colon that may end a label is not part of a name. -/
theorem labelChars_name {chars : List Char} (named : isIdentifier chars = true)
    (kind : TokenKind) : labelChars kind chars = chars := by
  have plain : chars.getLast? ≠ some ':' :=
    fun last => notMem_of_isIdentifier named rfl (List.mem_of_mem_getLast? last)
  simp [labelChars, plain]

/-- A token that is written as a reserved word and a label. -/
theorem written_label (keyword : Keyword) {label : String}
    (named : isIdentifier label.toList = true)
    (read : ∀ afterRead word rest,
      readKeyword afterRead keyword word rest = readLabel kind word rest) :
    Written kind (.label label) [keyword.spelling.toList, label.toList] where
  some := List.cons_ne_nil _ _
  plain := by simpa using ⟨plain_spelling keyword, plain_of_isIdentifier named⟩
  read := by
    intro afterRead _ first others same rest
    simp only [List.map_cons, List.cons.injEq, List.map_eq_cons_iff, List.map_eq_nil_iff] at same
    obtain ⟨spelled, word, _, rfl, chars, rfl⟩ := same
    obtain ⟨_, place⟩ := first
    dsimp only at spelled
    subst spelled
    refine ⟨place, ?_⟩
    rw [readWord_keyword, read, readLabel, List.singleton_append,
      takeOperand_name (chars ▸ named)]
    simp only [bind, Except.bind, chars, labelChars_name named, named, ↓reduceIte,
      String.ofList_toList]
    rfl

end Writing

section Strings

/-- Every text falls into words without spaces. -/
theorem exists_spaced (chars : List Char) :
    ∃ first others, chars = spaced (first :: others) ∧ ∀ word ∈ first :: others, ' ' ∉ word := by
  induction chars with
  | nil => exact ⟨[], [], rfl, by simp⟩
  | cons c chars ih =>
    obtain ⟨first, others, rfl, free⟩ := ih
    by_cases space : c = ' '
    · refine ⟨[], first :: others, ?_, ?_⟩
      · rw [space, spaced_cons (List.cons_ne_nil _ _), List.nil_append]
      · simpa using free
    · refine ⟨c :: first, others, ?_, ?_⟩
      · rw [spaced, spaced, List.intercalate_cons_cons_left]
      · simpa [Ne.symm space] using free

theorem mem_spaced {words : List (List Char)} {word : List Char} (member : word ∈ words) {c : Char}
    (held : c ∈ word) : c ∈ spaced words := by
  induction words with
  | nil => cases member
  | cons first others ih =>
    by_cases last : others = []
    · subst last
      rw [spaced_singleton, ← List.mem_singleton.mp member]
      exact held
    · rw [spaced_cons last]
      rcases List.mem_cons.mp member with rfl | later
      · exact List.mem_append_left _ held
      · exact List.mem_append_right _ (List.mem_cons_of_mem _ (ih later))

/-- The words of a text with a quote at its end. -/
def closed (first : List Char) : List (List Char) → List (List Char)
  | [] => [first ++ ['"']]
  | next :: others => first :: closed next others

theorem closed_ne_nil (first : List Char) (others : List (List Char)) :
    closed first others ≠ [] := by
  cases others <;> exact List.cons_ne_nil _ _

theorem spaced_closed (first : List Char) (others : List (List Char)) :
    spaced (closed first others) = spaced (first :: others) ++ ['"'] := by
  induction others generalizing first with
  | nil => simp [closed]
  | cons next others ih =>
    rw [closed, spaced_cons (closed_ne_nil _ _), ih, spaced_cons (List.cons_ne_nil _ _),
      List.append_assoc, List.cons_append]

/-- A word without blanks is plain if it has a character that is not a `#`. -/
theorem plain_of_mem {word : List Char} (solid : ∀ c ∈ word, Text.isBlank c = false) {c : Char}
    (member : c ∈ word) (other : c ≠ '#') : Word.IsPlain word := by
  refine ⟨List.ne_nil_of_mem member, solid, ?_⟩
  rw [Word.startsComment, beq_eq_false_iff_ne]
  rintro rfl
  exact other (List.mem_singleton.mp member)

/-- A word between two spaces is plain: it is not nothing and not a lone `#`. -/
theorem plain_between {word rest : List Char} (solid : ∀ c ∈ word, Text.isBlank c = false)
    (single : SingleSpaced (' ' :: (word ++ ' ' :: rest)))
    (uncommented : ¬ [' ', '#', ' '] <:+: ' ' :: (word ++ ' ' :: rest)) : Word.IsPlain word := by
  refine ⟨?_, solid, ?_⟩
  · rintro rfl
    exact single ⟨[], rest, rfl⟩
  · rw [Word.startsComment, beq_eq_false_iff_ne]
    rintro rfl
    exact uncommented ⟨[], rest, rfl⟩

theorem plain_last {word : List Char} (solid : ∀ c ∈ word, Text.isBlank c = false) :
    Word.IsPlain (word ++ ['"']) := by
  refine plain_of_mem ?_ (List.mem_append_right word List.mem_cons_self) (by decide)
  exact List.forall_mem_append.mpr ⟨solid, List.forall_mem_singleton.mpr rfl⟩

/-- The words of a text that stands after a space and has a quote at its end. -/
theorem plain_closed {first : List Char} {others : List (List Char)}
    (solid : ∀ word ∈ first :: others, ∀ c ∈ word, Text.isBlank c = false)
    (single : SingleSpaced (' ' :: spaced (first :: others)))
    (uncommented : ¬ [' ', '#', ' '] <:+: ' ' :: spaced (first :: others)) :
    ∀ word ∈ closed first others, Word.IsPlain word := by
  induction others generalizing first with
  | nil => simpa [closed] using plain_last (solid first List.mem_cons_self)
  | cons next others ih =>
    rw [spaced_cons (List.cons_ne_nil _ _)] at single uncommented
    have tail : ' ' :: spaced (next :: others) <:+
        ' ' :: (first ++ ' ' :: spaced (next :: others)) := ⟨' ' :: first, rfl⟩
    refine List.forall_mem_cons.mpr ⟨?_, ih ?_ ?_ ?_⟩
    · exact plain_between (solid first List.mem_cons_self) single uncommented
    · exact fun word member => solid word (List.mem_cons_of_mem _ member)
    · exact fun twice => single (twice.trans tail.isInfix)
    · exact fun lone => uncommented (lone.trans tail.isInfix)

/-- A text up to its closing quote is taken as it was written. -/
theorem takeDelimited_closed {first : List Char} {others : List (List Char)}
    (unquoted : ∀ word ∈ first :: others, '"' ∉ word) {word : Word} {words : List Word}
    (same : (word :: words).map Word.chars = closed first others) (rest : List Word) :
    takeDelimited? '"' word (words ++ rest) = some (spaced (first :: others), rest) := by
  induction others generalizing first word words with
  | nil =>
    simp only [closed, List.map_cons, List.cons.injEq, List.map_eq_nil_iff] at same
    obtain ⟨chars, rfl⟩ := same
    have plain : ∀ c ∈ first, decide (c ≠ '"') = true := by
      intro c member
      refine decide_eq_true fun quote => unquoted first List.mem_cons_self ?_
      exact quote ▸ member
    have text : word.chars.takeWhile (· ≠ '"') = first := by
      rw [chars, List.takeWhile_append_of_pos plain]
      simp
    have ends : '"' ∈ word.chars := chars ▸ List.mem_append_right first List.mem_cons_self
    have nothing : (word.drop (first.length + 1)).putBack rest = rest := by
      simp [chars, Word.putBack]
    unfold takeDelimited?
    rw [if_pos ends]
    simp only [text, List.nil_append, nothing, spaced_singleton]
  | cons next others ih =>
    rw [closed, List.map_cons, List.cons.injEq] at same
    obtain ⟨chars, later⟩ := same
    cases words with
    | nil => exact absurd later.symm (closed_ne_nil _ _)
    | cons following words =>
      have goesOn : '"' ∉ word.chars := chars ▸ unquoted first List.mem_cons_self
      have found := ih (fun other member => unquoted other (List.mem_cons_of_mem _ member)) later
      unfold takeDelimited?
      rw [if_neg goesOn]
      simp only [List.cons_append, found, Option.map_some, chars,
        spaced_cons (List.cons_ne_nil next others)]

theorem written_string {text : String} (plain : StringText text) (unquoted : '"' ∉ text.toList)
    (uncommented : ¬ [' ', '#', ' '] <:+: text.toList) :
    ∃ words, ("\"" ++ text ++ "\"").toList = spaced words ∧
      Written .string (.string text) words := by
  obtain ⟨first, others, shape, free⟩ := exists_spaced text.toList
  have inside {word : List Char} (member : word ∈ first :: others) {c : Char} (held : c ∈ word) :
      c ∈ text.toList := by
    rw [shape]
    exact mem_spaced member held
  have solid : ∀ word ∈ first :: others, ∀ c ∈ word, Text.isBlank c = false := by
    intro word member c held
    rw [← Bool.not_eq_true]
    intro blank
    have space : c = ' ' := plain.1 c (inside member held) blank
    exact free word member (space ▸ held)
  have bare : ∀ word ∈ first :: others, '"' ∉ word :=
    fun word member held => unquoted (inside member held)
  refine ⟨closed ('"' :: first) others, ?_, closed_ne_nil _ _, ?_, ?_⟩
  · rw [spaced_closed, spaced, List.intercalate_cons_cons_left]
    simp [shape, spaced]
  · have opening : ∀ c ∈ '"' :: first, Text.isBlank c = false :=
      List.forall_mem_cons.mpr ⟨rfl, solid first List.mem_cons_self⟩
    cases others with
    | nil => simpa [closed] using plain_last opening
    | cons next others =>
      rw [spaced_cons (List.cons_ne_nil _ _)] at shape
      have tail : ' ' :: spaced (next :: others) <:+ text.toList := ⟨first, shape.symm⟩
      refine List.forall_mem_cons.mpr ⟨?_, plain_closed ?_ ?_ ?_⟩
      · exact plain_of_mem opening List.mem_cons_self (by decide)
      · exact fun word member => solid word (List.mem_cons_of_mem _ member)
      · exact fun twice => plain.2.1 (twice.trans tail.isInfix)
      · exact fun lone => uncommented (lone.trans tail.isInfix)
  · intro afterRead _ opener words same rest
    -- Without the opening quote the words are those of the text up to the closing one.
    have within : (opener.drop 1 :: words).map Word.chars = closed first others ∧
        opener.chars.head? = some '"' := by
      cases others with
      | nil =>
        simp only [closed, List.map_cons, List.cons.injEq, List.map_eq_nil_iff] at same
        obtain ⟨chars, rfl⟩ := same
        simp [closed, chars]
      | cons next others =>
        rw [closed, List.map_cons, List.cons.injEq] at same
        simp [closed, same.1, same.2]
    have free : Keyword.ofText? opener.text = none :=
      Keyword.ofText?_eq_none (by simpa [Word.text] using List.mem_of_mem_head? within.2) rfl
    refine ⟨opener.position, ?_⟩
    rw [readWord, free]
    simp only [readPlain, within.2, ↓reduceIte, readString,
      takeDelimited_closed bare within.1 rest, ← shape, String.ofList_toList]

end Strings

section Tokens

/-- Every token is written as its text says. -/
theorem written_of_spells {kind : TokenKind} {literal : Literal} {text : String}
    (spelled : Token.Spells kind literal text) :
    ∃ words, text.toList = spaced words ∧ Written kind literal words := by
  have alone {kind : TokenKind} {literal : Literal} {text : String}
      (written : Written kind literal [text.toList]) :
      ∃ words, text.toList = spaced words ∧ Written kind literal words :=
    ⟨_, (spaced_singleton _).symm, written⟩
  cases spelled with
  | string plain unquoted uncommented => exact written_string plain unquoted uncommented
  | number known => exact alone (written_number known)
  | boolean flag => exact alone (written_keyword (.boolean flag) fun _ _ _ _ => ⟨_, rfl⟩)
  | binary operator => exact alone (written_keyword (.binary operator) fun _ _ _ _ => ⟨_, rfl⟩)
  | not => exact alone (written_keyword .not fun _ _ _ _ => ⟨_, rfl⟩)
  | declare => exact alone (written_keyword .declare fun _ _ _ _ => ⟨_, rfl⟩)
  | assign => exact alone (written_keyword .assign fun _ _ _ _ => ⟨_, rfl⟩)
  | target => exact alone (written_keyword .target fun _ _ _ _ => ⟨_, rfl⟩)
  | command action => exact alone (written_keyword (.command action) fun _ _ _ _ => ⟨_, rfl⟩)
  | cast type =>
    refine alone (written_keyword (.cast type) fun afterRead cast word rest => ⟨word.position, ?_⟩)
    rw [cast rfl]
    rfl
  | leftParen =>
    have plain : Word.IsPlain "(".toList :=
      plain_of_mem (List.forall_mem_singleton.mpr rfl) List.mem_cons_self (by decide)
    exact alone (written_plain plain (by decide) fun place rest => ⟨place, rfl⟩)
  | rightParen =>
    have plain : Word.IsPlain ")".toList :=
      plain_of_mem (List.forall_mem_singleton.mpr rfl) List.mem_cons_self (by decide)
    exact alone (written_plain plain (by decide) fun place rest => ⟨place, rfl⟩)
  | conditional => exact alone (written_keyword .conditional fun _ _ _ _ => ⟨_, rfl⟩)
  | blockEnd => exact alone (written_keyword .blockEnd fun _ _ _ _ => ⟨_, rfl⟩)
  | identifier free => exact alone (written_identifier free)
  | jump named => exact ⟨_, by simp [spaced_cons], written_label .jump named fun _ _ _ => rfl⟩
  | labelled named =>
    exact ⟨_, by simp [spaced_cons], written_label .labelled named fun _ _ _ => rfl⟩

/-- The texts of tokens fall into the words that the tokens are written as. -/
theorem exists_groups {tokens : List Token} {texts : List String}
    (spelled : List.Forall₂ (fun token => Token.Spells token.kind token.literal) tokens texts) :
    ∃ groups, texts.map String.toList = groups.map spaced ∧
      List.Forall₂ (fun token => Written token.kind token.literal) tokens groups := by
  induction spelled with
  | nil => exact ⟨[], rfl, .nil⟩
  | cons here _ ih =>
    obtain ⟨words, text, written⟩ := written_of_spells here
    obtain ⟨groups, texts, later⟩ := ih
    exact ⟨words :: groups, by rw [List.map_cons, List.map_cons, text, texts], .cons written later⟩

theorem written_of_mem {tokens : List Token} {groups : List (List (List Char))}
    (written : List.Forall₂ (fun token => Written token.kind token.literal) tokens groups)
    {group : List (List Char)} (member : group ∈ groups) :
    ∃ kind literal, Written kind literal group := by
  induction written with
  | nil => cases member
  | cons here _ ih =>
    rcases List.mem_cons.mp member with rfl | later
    · exact ⟨_, _, here⟩
    · exact ih later

/-- Whether casts stand right after `READ` only; `afterRead` tells whether `READ` stands before the
first token. -/
def castsPlaced (afterRead : Bool) : List Token → Bool
  | [] => true
  | token :: rest =>
    (!isCast token.kind || afterRead) && castsPlaced (token.kind = .command .read) rest

/-- What a token is, wherever it stands. -/
def content (token : Token) : TokenKind × Literal := (token.kind, token.literal)

/-- Each token is read from its own words, and the next one from the words after them. -/
theorem readFrom_written {tokens : List Token} {groups : List (List (List Char))}
    (written : List.Forall₂ (fun token => Written token.kind token.literal) tokens groups)
    {afterRead : Bool} (placed : castsPlaced afterRead tokens = true) {words : List Word}
    (same : words.map Word.chars = groups.flatten) :
    ∃ read, readFrom afterRead words = .ok read ∧ read.map content = tokens.map content := by
  induction written generalizing afterRead words with
  | nil =>
    rw [List.flatten_nil, List.map_eq_nil_iff] at same
    subst same
    exact ⟨[], readFrom_nil _, rfl⟩
  | @cons token group tokens groups here later ih =>
    simp only [castsPlaced, Bool.and_eq_true] at placed
    rw [List.flatten_cons, List.map_eq_append_iff] at same
    obtain ⟨front, rest, rfl, mine, yours⟩ := same
    cases front with
    | nil => exact absurd mine.symm here.some
    | cons first others =>
      have cast : isCast token.kind = true → afterRead = true := by
        intro isCast
        simpa [isCast] using placed.1
      obtain ⟨position, taken⟩ := here.read cast mine rest
      obtain ⟨read, known, agreed⟩ := ih placed.2 yours
      refine ⟨⟨token.kind, token.literal, position⟩ :: read, ?_, ?_⟩
      · rw [List.cons_append, readFrom_cons, taken]
        change Except.map _ (readFrom (token.kind = .command .read) rest) = _
        rw [known]
        rfl
      · rw [List.map_cons, List.map_cons, agreed]
        rfl

/-- Tokens written as their texts, with single spaces between them, are read back: the whole text
is accepted, and gives the same kinds and payloads in the same order. -/
theorem tokenize_intercalate {tokens : List Token} {texts : List String}
    (spelled : List.Forall₂ (fun token => Token.Spells token.kind token.literal) tokens texts)
    (placed : castsPlaced false tokens = true) :
    ∃ read, Program.tokenize (" ".intercalate texts) = .ok read ∧
      read.map content = tokens.map content := by
  obtain ⟨groups, shape, written⟩ := exists_groups spelled
  have some : ∀ group ∈ groups, group ≠ [] := by
    intro group member
    obtain ⟨_, _, here⟩ := written_of_mem written member
    exact here.some
  have plain : ∀ word ∈ groups.flatten, Word.IsPlain word := by
    intro word member
    obtain ⟨group, inside, held⟩ := List.mem_flatten.mp member
    obtain ⟨_, _, here⟩ := written_of_mem written inside
    exact here.plain word held
  have source : (" ".intercalate texts).toList = spaced groups.flatten := by
    rw [String.toList_intercalate, shape, ← spaced_flatten some]
    rfl
  have words : (Word.scan (" ".intercalate texts)).map Word.chars = groups.flatten := by
    rw [Word.scan, source, scanFrom_spaced plain]
  obtain ⟨read, known, same⟩ := readFrom_written written placed words
  refine ⟨read, ?_, same⟩
  rw [Program.tokenize, Reader.read, known]
  rfl

/-- A cast after `READ`, a reserved word as a label, a `#` and spaces at the ends of a string, a
name that spells a special number, and a parenthesis. -/
def lookalikes : List Token :=
  [⟨.command .read, .keyword "READ", ⟨1, 0⟩⟩, ⟨.cast .number, .keyword "NUM", ⟨1, 5⟩⟩,
    ⟨.binary .and, .keyword "AND", ⟨1, 9⟩⟩, ⟨.string, .string " #1 ", ⟨1, 13⟩⟩,
    ⟨.jump, .label "IF", ⟨1, 20⟩⟩, ⟨.conditional, .absent, ⟨1, 28⟩⟩,
    ⟨.boolean, .boolean true, ⟨1, 31⟩⟩, ⟨.identifier, .name "inf", ⟨1, 36⟩⟩,
    ⟨.number, .number 2.5, ⟨1, 40⟩⟩, ⟨.rightParen, .absent, ⟨1, 45⟩⟩]

theorem tokenize_intercalate_lookalikes :
    ∃ read, Program.tokenize "READ NUM AND \" #1 \" JUMP IF IF True inf 2.50 )" = .ok read ∧
      read.map content = lookalikes.map content := by
  have text : StringText " #1 " := by
    have spaces : " #1 ".toList.all (fun c => !Text.isBlank c || c == ' ') = true := by decide
    refine ⟨fun c member blank => ?_, ?_, .inl (by decide)⟩
    · simpa [blank] using List.all_eq_true.mp spaces c member
    · unfold SingleSpaced
      decide
  have spelled : List.Forall₂ (fun token => Token.Spells token.kind token.literal) lookalikes
      ["READ", "NUM", "AND", "\" #1 \"", "JUMP IF", "IF", "True", "inf", "2.50", ")"] :=
    .cons (.command .read) (.cons (.cast .number) (.cons (.binary .and)
      (.cons (.string text (by decide) (by decide)) (.cons (.jump (by decide))
      (.cons .conditional (.cons (.boolean true) (.cons (.identifier ⟨by decide, by decide⟩)
      (.cons (.number (by decide +kernel)) (.cons .rightParen .nil)))))))))
  have source : " ".intercalate
      ["READ", "NUM", "AND", "\" #1 \"", "JUMP IF", "IF", "True", "inf", "2.50", ")"] =
        "READ NUM AND \" #1 \" JUMP IF IF True inf 2.50 )" := by decide
  exact source ▸ tokenize_intercalate spelled (by decide)

end Tokens

end StackScript.RoundTrip
