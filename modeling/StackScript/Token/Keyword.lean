import StackScript.Token

/-! Reserved words. A word that is spelled exactly like one of them is read as what it stands
for and never as the name of a variable. -/
namespace StackScript

/-- What the reserved words stand for. -/
inductive Keyword where
  /-- Converts a line of input when it follows `READ`; otherwise announces a literal. -/
  | cast (type : Cast)
  /-- The boolean literals. -/
  | boolean (flag : Bool)
  | binary (operator : Operator)
  | not
  | declare
  | assign
  | target
  | conditional
  | blockEnd
  /-- Goes to the block that carries the label written after it. -/
  | jump
  /-- Opens a block that carries the label written after it. -/
  | labelled
  | command (action : Command)
deriving DecidableEq, Repr

namespace Keyword

/-- All reserved words. -/
def all : List Keyword :=
  Cast.all.map cast ++ [boolean true, boolean false] ++ Operator.all.map binary ++
    [not, declare, assign, target, conditional, blockEnd, jump, labelled] ++
    Command.all.map command

/-- How a reserved word is spelled. -/
def spelling : Keyword → String
  | cast type => type.keyword
  | boolean true => "True"
  | boolean false => "False"
  | binary operator => operator.keyword
  | not => "NOT"
  | declare => "VAR"
  | assign => "ASSIGN"
  | target => "TO"
  | conditional => "IF"
  | blockEnd => "END"
  | jump => "JUMP"
  | labelled => "SECTION"
  | command action => action.keyword

/-- The reserved word that a text is. -/
def ofText? (text : String) : Option Keyword := all.find? (·.spelling = text)

/-- Every reserved word is in the list of all. -/
theorem mem_all (keyword : Keyword) : keyword ∈ all := by
  cases keyword with
  | cast type => cases type <;> decide
  | boolean flag => cases flag <;> decide
  | binary operator => cases operator <;> decide
  | command action =>
    cases action with
    | arithmetic operation => cases operation <;> decide
    | _ => decide
  | _ => decide

/-- A text is read as a reserved word only if it is spelled like it. -/
theorem spelling_of_ofText? {text : String} {keyword : Keyword}
    (read : ofText? text = some keyword) : keyword.spelling = text := by
  simpa [ofText?] using List.find?_some read

/-- Every reserved word is read as itself. -/
theorem ofText?_spelling (keyword : Keyword) : ofText? keyword.spelling = some keyword := by
  have each : ∀ keyword ∈ all, ofText? keyword.spelling = some keyword := by decide
  exact each keyword (mem_all keyword)

/-- Reserved words are made of letters. -/
theorem isAlpha_of_mem_spelling {keyword : Keyword} {c : Char}
    (member : c ∈ keyword.spelling.toList) : c.isAlpha = true := by
  have each : ∀ keyword ∈ all, keyword.spelling.toList.all Char.isAlpha = true := by decide
  exact List.all_eq_true.mp (each keyword (mem_all keyword)) c member

/-- A text with a character that is no letter is not reserved. -/
theorem ofText?_eq_none {text : String} {c : Char} (member : c ∈ text.toList)
    (other : c.isAlpha = false) : ofText? text = none := by
  cases read : ofText? text with
  | none => rfl
  | some keyword =>
    rw [← spelling_of_ofText? read] at member
    rw [isAlpha_of_mem_spelling member] at other
    cases other

end Keyword

end StackScript
