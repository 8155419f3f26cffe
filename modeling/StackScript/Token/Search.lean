import StackScript.Token

/-! Finding tokens of a program. Blocks carry no mark of where they end: the end is the first
later token in the column of the token that opens the block. -/
namespace StackScript

/-- The token right before an index. -/
def tokenBefore? (tokens : Array Token) : Nat → Option Token
  | 0 => none
  | before + 1 => tokens[before]?

/-- The first index from `start` on whose token satisfies `wanted`. -/
def firstFrom (tokens : Array Token) (start : Nat) (wanted : Token → Bool) : Option Nat :=
  ((tokens.toList.drop start).findIdx? wanted).map (· + start)

/-- What is found satisfies the test, stands at or after the start, and is the first such. -/
theorem firstFrom_eq_some_iff {tokens : Array Token} {start index : Nat}
    {wanted : Token → Bool} :
    firstFrom tokens start wanted = some index ↔
      start ≤ index ∧ (∃ token, tokens[index]? = some token ∧ wanted token = true) ∧
        ∀ earlier, start ≤ earlier → earlier < index →
          ∀ token, tokens[earlier]? = some token → wanted token = false := by
  unfold firstFrom
  simp only [Option.map_eq_some_iff, List.findIdx?_eq_some_iff_getElem, List.length_drop,
    Array.length_toList, List.getElem_drop, Array.getElem_toList]
  constructor
  · rintro ⟨offset, ⟨bound, found, first⟩, rfl⟩
    refine ⟨by omega, ⟨tokens[start + offset], ?_, found⟩, ?_⟩
    · rw [Nat.add_comm]
      exact Array.getElem?_eq_getElem (by omega)
    · intro earlier after before token held
      obtain ⟨inside, rfl⟩ := Array.getElem?_eq_some_iff.mp held
      have := first (earlier - start) (by omega)
      simpa [Nat.add_sub_cancel' after] using this
  · rintro ⟨after, ⟨token, held, found⟩, first⟩
    obtain ⟨inside, rfl⟩ := Array.getElem?_eq_some_iff.mp held
    refine ⟨index - start, ⟨by omega, ?_, ?_⟩, by omega⟩
    · simpa [Nat.add_sub_cancel' after] using found
    · intro earlier before
      simpa using first (start + earlier) (by omega) (by omega) _
        (Array.getElem?_eq_getElem (by omega))

/-- Nothing is found exactly if no token from the start on satisfies the test. -/
theorem firstFrom_eq_none_iff {tokens : Array Token} {start : Nat} {wanted : Token → Bool} :
    firstFrom tokens start wanted = none ↔
      ∀ index token, start ≤ index → tokens[index]? = some token → wanted token = false := by
  unfold firstFrom
  rw [Option.map_eq_none_iff, List.findIdx?_eq_none_iff]
  constructor
  · intro refused index token after held
    refine refused token (List.mem_iff_getElem?.mpr ⟨index - start, ?_⟩)
    rw [List.getElem?_drop, Nat.add_sub_cancel' after, Array.getElem?_toList, held]
  · intro refused token member
    obtain ⟨offset, held⟩ := List.mem_iff_getElem?.mp member
    rw [List.getElem?_drop, Array.getElem?_toList] at held
    exact refused (start + offset) token (Nat.le_add_right _ _) held

/-- Whether a token opens the block of a label. -/
def Token.opens (token : Token) (label : String) : Bool :=
  token.kind = .labelled ∧ token.name? = some label

/-- The first token from `start` on that opens the block of a label. -/
def findBlock (tokens : Array Token) (start : Nat) (label : String) : Option Nat :=
  firstFrom tokens start (·.opens label)

/-- The end of a block: the first token from `start` on in the column of the token that opens
it. -/
def endOfBlock (tokens : Array Token) (start column : Nat) : Option Nat :=
  firstFrom tokens start (·.position.column = column)

end StackScript
