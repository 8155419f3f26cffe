/-! Decimal numerals: the notation in which numbers are written in a source text and on an
input line. A numeral is an optional sign, digits with at most one point among them, and an
optional exponent; it stands for the double nearest to its exact value, a tie going to the even
one. Three names are read as numbers too: `inf`, `infinity` and `nan`, in any case. -/
namespace StackScript

/-- An unsigned decimal numeral: `digits * 10 ^ exponent`. -/
structure Numeral where
  /-- All digits of the mantissa, read as one natural number. -/
  digits : Nat
  /-- The power of ten by which the digits are scaled. -/
  exponent : Int
deriving DecidableEq, Repr

namespace Numeral

/-- One of the ten ASCII digits. -/
def isDigit (c : Char) : Bool := '0' ≤ c && c ≤ '9'

/-- The natural number that a run of digits stands for. -/
def natOf (digits : List Char) : Nat :=
  digits.foldl (fun value c => 10 * value + (c.toNat - '0'.toNat)) 0

/-- Reads a sign and gives whether it is a minus; no sign reads as a plus. -/
def splitSign : List Char → Bool × List Char
  | '-' :: rest => (true, rest)
  | '+' :: rest => (false, rest)
  | chars => (false, chars)

/-- Reads what may follow the mantissa: nothing, or `e` and a power of ten. -/
def readExponent? : List Char → Option Int
  | [] => some 0
  | c :: rest =>
    let (negative, digits) := splitSign rest
    if (c = 'e' ∨ c = 'E') ∧ digits ≠ [] ∧ digits.all isDigit then
      some (if negative then -(natOf digits : Int) else natOf digits)
    else
      none

/-- Reads the digits after a point, if there is one, and gives the characters that follow. -/
def splitFraction : List Char → List Char × List Char
  | '.' :: rest => (rest.takeWhile isDigit, rest.dropWhile isDigit)
  | chars => ([], chars)

/-- Reads an unsigned numeral that takes up all the characters. -/
def read? (chars : List Char) : Option Numeral :=
  let whole := chars.takeWhile isDigit
  let (fraction, rest) := splitFraction (chars.dropWhile isDigit)
  if whole = [] ∧ fraction = [] then
    none
  else
    (readExponent? rest).map fun exponent =>
      ⟨natOf (whole ++ fraction), exponent - fraction.length⟩

/-- The exponent of ten at which a numeral is certain to leave the range of doubles, above or
below: the largest double has 309 digits and the smallest positive one starts 324 places after
the point. -/
def rangeLimit : Int := 400

/-- The double nearest to the numeral. A numeral far outside the range of doubles is answered
without computing its power of ten. -/
def toFloat (numeral : Numeral) : Float :=
  let magnitude := (Nat.toDigits 10 numeral.digits).length + numeral.exponent
  if numeral.digits = 0 ∨ magnitude < -rangeLimit then
    0.0
  else if rangeLimit < magnitude then
    1.0 / 0.0
  else
    Float.ofScientific numeral.digits (numeral.exponent < 0) numeral.exponent.natAbs

end Numeral

namespace Number

/-- Reads one of the names for infinity and for not-a-number, in any case. -/
def readName? (chars : List Char) : Option Float :=
  match String.ofList (chars.map Char.toLower) with
  | "inf" | "infinity" => some (1.0 / 0.0)
  | "nan" => some (0.0 / 0.0)
  | _ => none

/-- Reads a number that takes up all the characters, infinities and not-a-number included. -/
def read? (chars : List Char) : Option Float :=
  let (negative, rest) := Numeral.splitSign chars
  ((Numeral.read? rest).map Numeral.toFloat <|> readName? rest).map fun magnitude =>
    if negative then -magnitude else magnitude

/-- Reads a finite number: this is what a source text and an input line may hold. A numeral
that rounds to infinity is refused. -/
def readFinite? (chars : List Char) : Option Float :=
  (read? chars).filter Float.isFinite

/-- What is read as a finite number is finite. -/
theorem isFinite_of_readFinite? {chars : List Char} {number : Float}
    (read : readFinite? chars = some number) : number.isFinite = true :=
  (Option.filter_eq_some_iff.mp read).2

end Number

end StackScript
