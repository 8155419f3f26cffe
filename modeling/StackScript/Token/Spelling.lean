import StackScript.Token.Reader

/-! How tokens are written. `Token.WellFormed` pairs kinds with payloads as reading does;
`Token.Spells` relates a token to the texts that are read as it. -/
namespace StackScript

/-- A text without two spaces in a row. -/
def SingleSpaced (chars : List Char) : Prop := ¬ [' ', ' '] <:+: chars

/-- The text of a string token: words joined by single spaces, taken from between two quotes or
two parentheses. -/
def StringText (text : String) : Prop :=
  (∀ c ∈ text.toList, Text.isBlank c = true → c = ' ') ∧ SingleSpaced text.toList ∧
    ('"' ∉ text.toList ∨ ')' ∉ text.toList)

/-- A name that is not reserved. -/
def VariableName (name : String) : Prop :=
  Reader.isIdentifier name.toList = true ∧ Keyword.ofText? name = none

namespace Token

/-- The kind of a token has the payload that reading gives it. -/
def WellFormed (token : Token) : Prop :=
  match token.kind, token.literal with
  | .string, .string text => StringText text
  | .number, .number value => value.isFinite = true
  | .boolean, .boolean _ => True
  | .binary operator, .keyword text => text = operator.keyword
  | .not, .keyword text => text = Keyword.not.spelling
  | .declare, .keyword text => text = Keyword.declare.spelling
  | .assign, .keyword text => text = Keyword.assign.spelling
  | .target, .keyword text => text = Keyword.target.spelling
  | .command action, .keyword text => text = action.keyword
  | .cast type, .keyword text => text = type.keyword
  | .leftParen, .absent | .rightParen, .absent | .conditional, .absent | .blockEnd, .absent =>
    True
  | .identifier, .name name => VariableName name
  | .jump, .label label | .labelled, .label label => Reader.isIdentifier label.toList = true
  | _, _ => False

/-- The texts that a token is written as. A number may be written as any numeral that is read
as it; a string is written between quotes. -/
inductive Spells : TokenKind → Literal → String → Prop where
  | string {text : String} (plain : StringText text) (unquoted : '"' ∉ text.toList)
      (uncommented : ¬ [' ', '#', ' '] <:+: text.toList) :
      Spells .string (.string text) ("\"" ++ text ++ "\"")
  | number {value : Float} {text : String} (read : Number.readFinite? text.toList = some value) :
      Spells .number (.number value) text
  | boolean (flag : Bool) : Spells .boolean (.boolean flag) (Keyword.boolean flag).spelling
  | binary (operator : Operator) :
      Spells (.binary operator) (.keyword operator.keyword) operator.keyword
  | not : Spells .not (.keyword Keyword.not.spelling) Keyword.not.spelling
  | declare : Spells .declare (.keyword Keyword.declare.spelling) Keyword.declare.spelling
  | assign : Spells .assign (.keyword Keyword.assign.spelling) Keyword.assign.spelling
  | target : Spells .target (.keyword Keyword.target.spelling) Keyword.target.spelling
  | command (action : Command) : Spells (.command action) (.keyword action.keyword) action.keyword
  | cast (type : Cast) : Spells (.cast type) (.keyword type.keyword) type.keyword
  | leftParen : Spells .leftParen .absent "("
  | rightParen : Spells .rightParen .absent ")"
  | conditional : Spells .conditional .absent Keyword.conditional.spelling
  | blockEnd : Spells .blockEnd .absent Keyword.blockEnd.spelling
  | identifier {name : String} (free : VariableName name) : Spells .identifier (.name name) name
  | jump {label : String} (named : Reader.isIdentifier label.toList = true) :
      Spells .jump (.label label) (Keyword.jump.spelling ++ " " ++ label)
  | labelled {label : String} (named : Reader.isIdentifier label.toList = true) :
      Spells .labelled (.label label) (Keyword.labelled.spelling ++ " " ++ label)

end Token

end StackScript
