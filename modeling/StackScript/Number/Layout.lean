import StackScript.Number.Shortest

/-! The text of a number. Numbers are written with the fewest digits that read back to the same
double, always positionally: no exponent, and no point after a whole number. -/
namespace StackScript.Number

/-- Writes `digits * 10 ^ exponent` positionally. -/
def positional (digits : Nat) (exponent : Int) : List Char :=
  let text := Nat.toDigits 10 digits
  if 0 ≤ exponent then
    text ++ List.replicate exponent.toNat '0'
  else
    let places := exponent.natAbs
    let padded := List.replicate (places + 1 - text.length) '0' ++ text
    let whole := padded.length - places
    padded.take whole ++ '.' :: padded.drop whole

/-- The text of a number. Not-a-number has no sign; zero has one. -/
def text (number : Float) : String :=
  if number.isNaN then
    "NaN"
  else
    let parts := parts number
    let sign := if parts.negative then "-" else ""
    if number.isInf then
      sign ++ "inf"
    else if parts.mantissa = 0 then
      sign ++ "0"
    else
      let (digits, exponent) := parts.shortest
      sign ++ String.ofList (positional digits exponent)

/-- The integer that a number is, if it is one. -/
def toInt? (number : Float) : Option Int :=
  if number.isFinite then
    let parts := parts number
    let magnitude : Option Nat :=
      if 0 ≤ parts.exponent then
        some (parts.mantissa * Nat.pow 2 parts.exponent.toNat)
      else
        let divisor := Nat.pow 2 parts.exponent.natAbs
        if parts.mantissa % divisor = 0 then some (parts.mantissa / divisor) else none
    magnitude.map fun magnitude => if parts.negative then -(magnitude : Int) else magnitude
  else
    none

/-- The integer that a number is, if it is one and fits into 32 bits with a sign. -/
def toWord32? (number : Float) : Option Int :=
  (toInt? number).filter fun value => -2147483648 ≤ value && value ≤ 2147483647

end StackScript.Number
