import StackScript.Token.Reader

/-! Which texts are numbers. A finite number is written with digits, signs, a point and the letter
of an exponent, and with at least one digit; the names for what is not finite are refused. So no
number is a name or holds a character that means anything else. -/
namespace StackScript.Numerals
open Numeral

/-- The characters that numerals are made of. -/
def isPart (c : Char) : Bool :=
  isDigit c || c == '+' || c == '-' || c == '.' || c == 'e' || c == 'E'

theorem isPart_of_isDigit {c : Char} (digit : isDigit c = true) : isPart c = true := by
  simp [isPart, digit]

theorem parts_of_digits {digits : List Char} (all : digits.all isDigit = true) :
    ∀ c ∈ digits, isPart c = true :=
  fun c member => isPart_of_isDigit (List.all_eq_true.mp all c member)

/-- A text is what follows its sign, or has a sign in front of it. -/
theorem splitSign_shape (chars : List Char) :
    chars = (splitSign chars).2 ∨
      ∃ sign, isPart sign = true ∧ chars = sign :: (splitSign chars).2 := by
  unfold splitSign
  split
  · exact .inr ⟨'-', rfl, rfl⟩
  · exact .inr ⟨'+', rfl, rfl⟩
  · exact .inl rfl

theorem parts_of_splitSign {chars : List Char}
    (parts : ∀ c ∈ (splitSign chars).2, isPart c = true) : ∀ c ∈ chars, isPart c = true := by
  rcases splitSign_shape chars with same | ⟨sign, part, shape⟩
  · rw [same]
    exact parts
  · rw [shape]
    exact List.forall_mem_cons.mpr ⟨part, parts⟩

theorem parts_of_readExponent? {chars : List Char} {exponent : Int}
    (read : readExponent? chars = some exponent) : ∀ c ∈ chars, isPart c = true := by
  cases chars with
  | nil => exact nofun
  | cons letter rest =>
    simp only [readExponent?] at read
    split at read
    · rename_i shape
      obtain ⟨marks, _, digits⟩ := shape
      refine List.forall_mem_cons.mpr ⟨?_, parts_of_splitSign (parts_of_digits digits)⟩
      rcases marks with rfl | rfl <;> rfl
    · cases read

/-- After the whole part there is no fraction, or there is a point and then the fraction. -/
theorem splitFraction_shape (chars : List Char) :
    splitFraction chars = ([], chars) ∨
      chars = '.' :: ((splitFraction chars).1 ++ (splitFraction chars).2) ∧
        (splitFraction chars).1.all isDigit = true := by
  unfold splitFraction
  split
  · exact .inr ⟨by rw [List.takeWhile_append_dropWhile], List.all_takeWhile⟩
  · exact .inl rfl

/-- A numeral has no other characters than these, and a digit among them. -/
theorem parts_of_read? {chars : List Char} {numeral : Numeral}
    (read : Numeral.read? chars = some numeral) :
    (∀ c ∈ chars, isPart c = true) ∧ ∃ c ∈ chars, isDigit c = true := by
  unfold Numeral.read? at read
  simp only at read
  split at read
  · cases read
  · rename_i digits
    obtain ⟨exponent, known, _⟩ := Option.map_eq_some_iff.mp read
    have tail := parts_of_readExponent? known
    have whole : (chars.takeWhile isDigit).all isDigit = true := List.all_takeWhile
    rw [← List.takeWhile_append_dropWhile (p := isDigit) (l := chars)]
    rcases splitFraction_shape (chars.dropWhile isDigit) with none | ⟨shape, fraction⟩
    · rw [none] at digits tail
      refine ⟨List.forall_mem_append.mpr ⟨parts_of_digits whole, tail⟩, ?_⟩
      obtain ⟨c, member⟩ := List.exists_mem_of_ne_nil _ fun empty => digits ⟨empty, rfl⟩
      exact ⟨c, List.mem_append_left _ member, List.all_eq_true.mp whole c member⟩
    · have after : ∀ c ∈ chars.dropWhile isDigit, isPart c = true := by
        rw [shape]
        refine List.forall_mem_cons.mpr ⟨rfl, ?_⟩
        exact List.forall_mem_append.mpr ⟨parts_of_digits fraction, tail⟩
      refine ⟨List.forall_mem_append.mpr ⟨parts_of_digits whole, after⟩, ?_⟩
      by_cases empty : chars.takeWhile isDigit = []
      · obtain ⟨c, member⟩ := List.exists_mem_of_ne_nil _ fun none => digits ⟨empty, none⟩
        refine ⟨c, List.mem_append_right _ ?_, List.all_eq_true.mp fraction c member⟩
        rw [shape]
        exact List.mem_cons_of_mem _ (List.mem_append_left _ member)
      · obtain ⟨c, member⟩ := List.exists_mem_of_ne_nil _ empty
        exact ⟨c, List.mem_append_left _ member, List.all_eq_true.mp whole c member⟩

/-- What has a name of its own is not finite, whatever its sign. -/
theorem isFinite_of_readName? {chars : List Char} {magnitude : Float}
    (read : Number.readName? chars = some magnitude) (negative : Bool) :
    (if negative then -magnitude else magnitude).isFinite = false := by
  unfold Number.readName? at read
  split at read
  all_goals cases read
  all_goals cases negative <;> decide

/-- A number is a sign and what is read without one. -/
theorem read?_eq (chars : List Char) :
    Number.read? chars =
      ((Numeral.read? (splitSign chars).2).map toFloat <|>
        Number.readName? (splitSign chars).2).map fun magnitude =>
          if (splitSign chars).1 then -magnitude else magnitude := rfl

/-- A finite number is written as a numeral. -/
theorem parts_of_readFinite? {chars : List Char} {value : Float}
    (read : Number.readFinite? chars = some value) :
    (∀ c ∈ chars, isPart c = true) ∧ ∃ c ∈ chars, isDigit c = true := by
  rw [Number.readFinite?, read?_eq, Option.filter_eq_some_iff] at read
  obtain ⟨known, finite⟩ := read
  obtain ⟨magnitude, either, rfl⟩ := Option.map_eq_some_iff.mp known
  rcases written : Numeral.read? (splitSign chars).2 with _ | numeral
  · rw [written] at either
    rw [isFinite_of_readName? either] at finite
    cases finite
  · obtain ⟨parts, c, member, digit⟩ := parts_of_read? written
    refine ⟨parts_of_splitSign parts, c, ?_, digit⟩
    rcases splitSign_shape chars with same | ⟨sign, _, shape⟩
    · rw [same]
      exact member
    · rw [shape]
      exact List.mem_cons_of_mem _ member

/-- A text with a character that numerals do not have is no finite number. -/
theorem readFinite?_eq_none {chars : List Char} {c : Char} (member : c ∈ chars)
    (other : isPart c = false) : Number.readFinite? chars = none := by
  cases read : Number.readFinite? chars with
  | none => rfl
  | some value =>
    have part := (parts_of_readFinite? read).1 c member
    rw [other] at part
    cases part

theorem isAlpha_of_isDigit {c : Char} (digit : isDigit c = true) : c.isAlpha = false := by
  unfold Char.isAlpha Char.isUpper Char.isLower
  simp only [isDigit, Bool.and_eq_true, decide_eq_true_eq, Bool.or_eq_false_iff,
    Bool.and_eq_false_iff, decide_eq_false_iff_not, Char.le_def] at digit ⊢
  grind

theorem isDigit_of_isNameStart {c : Char} (start : Reader.isNameStart c = true) :
    isDigit c = false := by
  rw [← Bool.not_eq_true]
  intro digit
  simp only [Reader.isNameStart, isAlpha_of_isDigit digit, Bool.false_or, beq_iff_eq] at start
  subst start
  cases digit

/-- No name is a finite number. -/
theorem readFinite?_of_isIdentifier {chars : List Char}
    (named : Reader.isIdentifier chars = true) : Number.readFinite? chars = none := by
  cases chars with
  | nil => cases named
  | cons first rest =>
    have start : Reader.isNameStart first = true := (Bool.and_eq_true _ _ ▸ named).1
    have letter := isDigit_of_isNameStart start
    have unsigned : splitSign (first :: rest) = (false, first :: rest) := by
      unfold splitSign
      split
      · rename_i same
        cases same
        exact absurd start (by decide)
      · rename_i same
        cases same
        exact absurd start (by decide)
      · rfl
    have pointless : splitFraction (first :: rest) = ([], first :: rest) := by
      unfold splitFraction
      split
      · rename_i same
        cases same
        exact absurd start (by decide)
      · rfl
    have none : Numeral.read? (first :: rest) = none := by
      unfold Numeral.read?
      simp [letter, pointless]
    rw [Number.readFinite?, read?_eq, unsigned, none, Option.filter_eq_none_iff]
    intro value known
    obtain ⟨magnitude, name, rfl⟩ := Option.map_eq_some_iff.mp known
    exact Bool.eq_false_iff.mp (isFinite_of_readName? name false)

end StackScript.Numerals
