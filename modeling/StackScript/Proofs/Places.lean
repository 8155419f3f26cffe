import Mathlib.Data.List.Forall2
import StackScript.Token.Reader

/-! Reading looks at the characters of words and never at their places. Words that differ in their
places only are read as tokens that differ in theirs only, or refused for the same fault. How the
places are related does not matter, as long as the relation lasts further right in the lines. -/
namespace StackScript.Places
open Reader

/-- A relation between places that is kept further right in their lines. -/
def Lasting (R : Position → Position → Prop) : Prop :=
  ∀ place there count, R place there → R (place.shift count) (there.shift count)

/-- The same characters at another place. -/
structure SameWord (R : Position → Position → Prop) (word other : Word) : Prop where
  chars : other.chars = word.chars
  place : R word.position other.position

/-- The same token at another place. -/
structure SameToken (R : Position → Position → Prop) (token other : Token) : Prop where
  kind : other.kind = token.kind
  literal : other.literal = token.literal
  place : R token.position other.position

/-- The same fault at another place. -/
def SameFault (R : Position → Position → Prop) (error other : SyntaxError) : Prop :=
  ∃ there, R error.position there ∧ other = error.mapPosition fun _ => there

/-- The same token and the same words left, at other places. -/
structure SameReading (R : Position → Position → Prop) (reading other : Reading) : Prop where
  token : Option.Rel (SameToken R) reading.token? other.token?
  rest : List.Forall₂ (SameWord R) reading.rest other.rest

/-- Both succeed with related results, or both are refused for the same fault. -/
def Agree {α β : Type} (R : Position → Position → Prop) (related : α → β → Prop) :
    Except SyntaxError α → Except SyntaxError β → Prop
  | .ok value, .ok other => related value other
  | .error error, .error other => SameFault R error other
  | _, _ => False

section Agreement
variable {R : Position → Position → Prop} {α β γ δ : Type}

theorem agree_error {related : α → β → Prop} {error : Position → SyntaxError} {place there : Position}
    (same : R place there) (named : (error place).position = place)
    (moves : (error place).mapPosition (fun _ => there) = error there) :
    Agree R related (.error (error place)) (.error (error there)) :=
  ⟨there, named.symm ▸ same, moves.symm⟩

theorem agree_bind {related : α → β → Prop} {goal : γ → δ → Prop}
    {first : Except SyntaxError α} {other : Except SyntaxError β}
    {next : α → Except SyntaxError γ} {otherNext : β → Except SyntaxError δ}
    (agreed : Agree R related first other)
    (rest : ∀ value result, related value result → Agree R goal (next value) (otherNext result)) :
    Agree R goal (first.bind next) (other.bind otherNext) := by
  rcases first with error | value <;> rcases other with otherError | result
  · exact agreed
  · exact agreed.elim
  · exact agreed.elim
  · exact rest value result agreed

theorem agree_map {related : α → β → Prop} {goal : γ → δ → Prop}
    {first : Except SyntaxError α} {other : Except SyntaxError β} {image : α → γ}
    {otherImage : β → δ} (agreed : Agree R related first other)
    (kept : ∀ value result, related value result → goal (image value) (otherImage result)) :
    Agree R goal (first.map image) (other.map otherImage) := by
  rcases first with error | value <;> rcases other with otherError | result
  · exact agreed
  · exact agreed.elim
  · exact agreed.elim
  · exact kept value result agreed

end Agreement

section Words
variable {R : Position → Position → Prop} (lasting : Lasting R) {word other : Word}
  {words others : List Word}
include lasting

theorem drop_same (same : SameWord R word other) (count : Nat) :
    SameWord R (word.drop count) (other.drop count) :=
  ⟨congrArg (List.drop count) same.chars, lasting _ _ count same.place⟩

omit lasting in
theorem take_same (same : SameWord R word other) (count : Nat) :
    SameWord R (word.take count) (other.take count) :=
  ⟨congrArg (List.take count) same.chars, same.place⟩

theorem putBack_same (same : SameWord R word other) (count : Nat)
    (rest : List.Forall₂ (SameWord R) words others) :
    List.Forall₂ (SameWord R) ((word.drop count).putBack words)
      ((other.drop count).putBack others) := by
  unfold Word.putBack
  rw [Word.chars_drop, Word.chars_drop, same.chars]
  split
  · exact rest
  · exact .cons (drop_same lasting same count) rest

theorem takeOperand_same {place there : Position} (keyword : String) (here : R place there)
    (rest : List.Forall₂ (SameWord R) words others) :
    Agree R
      (fun taken other => SameWord R taken.1 other.1 ∧ List.Forall₂ (SameWord R) taken.2 other.2)
      (takeOperand keyword place words) (takeOperand keyword there others) := by
  cases rest with
  | nil => exact agree_error here rfl rfl
  | cons same rest =>
    simp only [takeOperand, same.chars]
    split
    · exact ⟨same, rest⟩
    · exact ⟨take_same same _, putBack_same lasting same _ rest⟩

theorem takeDelimited_same (close : Char) (same : SameWord R word other)
    (rest : List.Forall₂ (SameWord R) words others) :
    Option.Rel (fun taken other => other.1 = taken.1 ∧ List.Forall₂ (SameWord R) taken.2 other.2)
      (takeDelimited? close word words) (takeDelimited? close other others) := by
  induction rest generalizing word other with
  | nil =>
    unfold takeDelimited?
    rw [same.chars]
    split
    · exact .some ⟨rfl, putBack_same lasting same _ .nil⟩
    · exact .none
  | @cons next otherNext words others sameNext rest ih =>
    unfold takeDelimited?
    rw [same.chars]
    split
    · exact .some ⟨rfl, putBack_same lasting same _ (.cons sameNext rest)⟩
    · have later := ih sameNext
      simp only
      cases taken : takeDelimited? close next words <;>
        cases otherTaken : takeDelimited? close otherNext others <;>
        rw [taken, otherTaken] at later <;>
        cases later
      · exact .none
      · rename_i agreed
        exact .some ⟨by simp [agreed.1], agreed.2⟩

end Words

section Readings
variable {R : Position → Position → Prop} (lasting : Lasting R) {word other : Word}
  {words others : List Word}

theorem emit_same {place there : Position} (kind : TokenKind) (literal : Literal)
    (same : R place there) (rest : List.Forall₂ (SameWord R) words others) :
    SameReading R (.emit kind literal place words) (.emit kind literal there others) :=
  ⟨.some ⟨rfl, rfl, same⟩, rest⟩

theorem text_same (same : SameWord R word other) : other.text = word.text :=
  congrArg String.ofList same.chars

/-- An operator is reported where the word after it stands. -/
theorem operatorPosition_same (same : SameWord R word other)
    (rest : List.Forall₂ (SameWord R) words others) :
    R (operatorPosition word words) (operatorPosition other others) := by
  cases rest with
  | nil => exact same.place
  | cons next _ => exact next.place

include lasting

theorem readString_same (close : Char) (same : SameWord R word other)
    (rest : List.Forall₂ (SameWord R) words others) :
    Agree R (SameReading R) (readString close word words) (readString close other others) := by
  unfold readString
  have taken := takeDelimited_same lasting close (drop_same lasting same 1) rest
  cases mine : takeDelimited? close (word.drop 1) words <;>
    cases yours : takeDelimited? close (other.drop 1) others <;>
    rw [mine, yours] at taken <;>
    cases taken
  · exact agree_error same.place rfl rfl
  · rename_i found
    simp only [found.1]
    exact emit_same _ _ same.place found.2

theorem readLabel_same (kind : TokenKind) (same : SameWord R word other)
    (rest : List.Forall₂ (SameWord R) words others) :
    Agree R (SameReading R) (readLabel kind word words) (readLabel kind other others) := by
  unfold readLabel
  rw [text_same same]
  refine agree_bind (takeOperand_same lasting word.text same.place rest) ?_
  rintro ⟨operand, left⟩ ⟨otherOperand, otherLeft⟩ ⟨taken, restLeft⟩
  simp only at taken restLeft ⊢
  rw [taken.chars, text_same taken]
  split
  · exact emit_same _ _ same.place restLeft
  · exact agree_error taken.place rfl rfl

theorem readAnnounced_same (type : Cast) (same : SameWord R word other)
    (rest : List.Forall₂ (SameWord R) words others) :
    Agree R (SameReading R) (readAnnounced type word words) (readAnnounced type other others) := by
  unfold readAnnounced
  rw [text_same same]
  cases type with
  | string =>
    cases rest with
    | nil => exact agree_error same.place rfl rfl
    | cons opener rest =>
      simp only [opener.chars]
      split
      · exact readString_same lasting ')' opener rest
      · exact agree_error opener.place rfl rfl
  | number =>
    refine agree_bind (takeOperand_same lasting word.text same.place rest) ?_
    rintro ⟨operand, left⟩ ⟨otherOperand, otherLeft⟩ ⟨taken, restLeft⟩
    simp only at taken restLeft ⊢
    rw [taken.chars, text_same taken]
    split
    · exact emit_same _ _ taken.place restLeft
    · exact agree_error taken.place rfl rfl
  | boolean =>
    refine agree_bind (takeOperand_same lasting word.text same.place rest) ?_
    rintro ⟨operand, left⟩ ⟨otherOperand, otherLeft⟩ ⟨taken, restLeft⟩
    simp only at taken restLeft ⊢
    rw [text_same taken]
    exact emit_same _ _ taken.place restLeft

theorem readKeyword_same (afterRead : Bool) (keyword : Keyword) (same : SameWord R word other)
    (rest : List.Forall₂ (SameWord R) words others) :
    Agree R (SameReading R) (readKeyword afterRead keyword word words)
      (readKeyword afterRead keyword other others) := by
  unfold readKeyword
  cases keyword with
  | cast type =>
    simp only
    split
    · exact emit_same _ _ same.place rest
    · exact readAnnounced_same lasting type same rest
  | binary symbol => exact emit_same _ _ (operatorPosition_same same rest) rest
  | not => exact emit_same _ _ (operatorPosition_same same rest) rest
  | jump => exact readLabel_same lasting .jump same rest
  | labelled => exact readLabel_same lasting .labelled same rest
  | _ => exact emit_same _ _ same.place rest

theorem splitClosing_same (same : SameWord R word other)
    (rest : List.Forall₂ (SameWord R) words others) :
    SameReading R (splitClosing word words) (splitClosing other others) := by
  unfold splitClosing
  rw [same.chars]
  simp only
  split
  · exact emit_same _ _ same.place rest
  · exact ⟨.none, .cons (take_same same _) (.cons (drop_same lasting same _) rest)⟩

theorem readPlain_same (same : SameWord R word other)
    (rest : List.Forall₂ (SameWord R) words others) :
    Agree R (SameReading R) (readPlain word words) (readPlain other others) := by
  unfold readPlain
  rw [same.chars, text_same same]
  split
  · exact readString_same lasting '"' same rest
  split
  · exact emit_same _ _ same.place rest
  split
  · exact emit_same _ _ same.place (putBack_same lasting same 1 rest)
  split
  · exact splitClosing_same lasting same rest
  split
  · exact emit_same _ _ same.place rest
  · exact ⟨.none, rest⟩

theorem readWord_same (afterRead : Bool) (same : SameWord R word other)
    (rest : List.Forall₂ (SameWord R) words others) :
    Agree R (SameReading R) (readWord afterRead word words) (readWord afterRead other others) := by
  unfold readWord
  rw [text_same same]
  split
  · exact readKeyword_same lasting afterRead _ same rest
  · exact readPlain_same lasting same rest

omit lasting in
theorem afterRead_same {reading otherReading : Reading} (same : SameReading R reading otherReading)
    (before : Bool) : otherReading.afterRead before = reading.afterRead before := by
  obtain ⟨token?, _⟩ := reading
  obtain ⟨otherToken?, _⟩ := otherReading
  obtain ⟨token, _⟩ := same
  cases token with
  | none => rfl
  | some same => simp only [Reading.afterRead, same.kind]

omit lasting in
theorem toList_append_same {token? otherToken? : Option Token} {tokens otherTokens : List Token}
    (same : Option.Rel (SameToken R) token? otherToken?)
    (rest : List.Forall₂ (SameToken R) tokens otherTokens) :
    List.Forall₂ (SameToken R) (token?.toList ++ tokens) (otherToken?.toList ++ otherTokens) := by
  cases same with
  | none => exact rest
  | some same => exact .cons same rest

/-- What one word keeps, all words keep: the words left weigh less each time. -/
theorem readFrom_same (afterRead : Bool) (rest : List.Forall₂ (SameWord R) words others) :
    Agree R (List.Forall₂ (SameToken R)) (readFrom afterRead words) (readFrom afterRead others) := by
  induction bound : weights words using Nat.strongRecOn generalizing afterRead words others with
  | ind heavy ih =>
    cases rest with
    | nil =>
      rw [readFrom_nil]
      exact .nil
    | @cons word other words others same rest =>
      rw [readFrom_cons, readFrom_cons]
      have once := readWord_same lasting afterRead same rest
      cases mine : readWord afterRead word words <;>
        cases yours : readWord afterRead other others <;>
        rw [mine, yours] at once
      · exact once
      · exact once.elim
      · exact once.elim
      · rename_i reading otherReading
        have lighter : weights reading.rest < heavy := bound ▸ weights_readWord_lt mine
        have later := ih _ lighter (reading.afterRead afterRead) once.rest rfl
        simp only [Except.bind]
        rw [afterRead_same once]
        exact agree_map later fun _ _ => toList_append_same once.token

end Readings

/-- Where every place is moved by a function, so are the tokens and the fault. -/
theorem eq_of_agree {move : Position → Position} {result other : Except SyntaxError (List Token)}
    (agreed : Agree (fun place there => there = move place)
      (List.Forall₂ (SameToken fun place there => there = move place)) result other) :
    other = (result.map (List.map (·.mapPosition move))).mapError (·.mapPosition move) := by
  rcases result with error | tokens <;> rcases other with fault | others
  · obtain ⟨_, rfl, rfl⟩ := agreed
    cases error <;> rfl
  · exact agreed.elim
  · exact agreed.elim
  · change Except.ok others = Except.ok (tokens.map (·.mapPosition move))
    congr 1
    induction agreed with
    | nil => rfl
    | @cons token other _ _ same _ ih =>
      obtain ⟨kind, literal, place⟩ := same
      obtain ⟨_, _, _⟩ := other
      cases kind
      cases literal
      cases place
      rw [ih]
      rfl

/-- Moving the words moves the tokens. -/
theorem read_moved {move : Position → Position}
    (commutes : ∀ place count, move (place.shift count) = (move place).shift count)
    (words : List Word) :
    Reader.read (words.map (·.mapPosition move)) =
      ((Reader.read words).map (List.map (·.mapPosition move))).mapError (·.mapPosition move) := by
  have lasting : Lasting fun place there => there = move place := by
    rintro place _ count rfl
    exact (commutes place count).symm
  have same : List.Forall₂ (SameWord fun place there => there = move place) words
      (words.map (·.mapPosition move)) := by
    rw [List.forall₂_map_right_iff, List.forall₂_same]
    exact fun word _ => ⟨rfl, rfl⟩
  exact eq_of_agree (readFrom_same lasting false same)

end StackScript.Places
