/-! The shortest decimal that stands for a double. A finite double is a multiple of a power of
two, and so are the midpoints between it and its neighbours; scaled by one fixed power of ten,
all of them are natural numbers. The reals that round to the double form an interval between
two midpoints, which belong to it when the mantissa is even. Among the powers of ten, coarsest
first, the first one with a multiple inside the interval gives the digits. -/
namespace StackScript

namespace Number

/-- A finite double taken apart: `mantissa * 2 ^ exponent`, negated if `negative` holds. -/
structure Parts where
  negative : Bool
  mantissa : Nat
  exponent : Int
deriving DecidableEq, Repr

/-- The bit that all mantissas imply but those of the smallest numbers: the bits below it are
the stored fraction. -/
def leadingBit : Nat := Nat.pow 2 52

/-- The number of values of the stored exponent. -/
def exponentRange : Nat := Nat.pow 2 11

/-- The exponent of the smallest positive double. -/
def leastExponent : Int := -1074

/-- Takes a double apart. The exponent field zero marks the numbers without the leading bit
that all others imply. For an infinity and for not-a-number the result means nothing. -/
def parts (number : Float) : Parts :=
  let bits := number.toBits.toNat
  let fraction := bits % leadingBit
  let field := bits / leadingBit % exponentRange
  let negative := decide (leadingBit * exponentRange ≤ bits)
  if field = 0 then
    ⟨negative, fraction, leastExponent⟩
  else
    ⟨negative, leadingBit + fraction, leastExponent + (field - 1 : Nat)⟩

/-- The power of ten by which doubles and midpoints are scaled to become natural numbers: a
midpoint is a multiple of `2 ^ (leastExponent - 2)`. -/
def scale : Nat := 1076

/-- A positive double among its neighbours, everything multiplied by `10 ^ scale`. -/
structure Interval where
  /-- The midpoint to the next smaller double. -/
  low : Nat
  /-- The double itself. -/
  value : Nat
  /-- The midpoint to the next larger double. -/
  high : Nat
  /-- Whether the midpoints round to the double. -/
  closed : Bool
deriving DecidableEq, Repr

/-- The interval of a positive double. The gap below a power of two is half the gap above it,
except where the exponent is the least. -/
def Parts.interval (parts : Parts) : Interval :=
  let unit := Nat.pow 2 (parts.exponent - leastExponent).toNat * Nat.pow 5 scale
  let below :=
    if parts.mantissa = leadingBit ∧ leastExponent < parts.exponent then 1 else 2
  { low := (4 * parts.mantissa - below) * unit
    value := 4 * parts.mantissa * unit
    high := (4 * parts.mantissa + 2) * unit
    closed := parts.mantissa % 2 = 0 }

namespace Interval

/-- Whether a scaled real rounds to the double. -/
def contains (interval : Interval) (point : Nat) : Bool :=
  if interval.closed then
    interval.low ≤ point && point ≤ interval.high
  else
    interval.low < point && point < interval.high

/-- The multiple of `unit` inside the interval that is nearest to the double, counted in
units; of two equally near ones the larger. -/
def nearest? (interval : Interval) (unit : Nat) : Option Nat :=
  let below := interval.value / unit
  let above := below + 1
  match interval.contains (below * unit), interval.contains (above * unit) with
  | true, true =>
    if interval.value - below * unit < above * unit - interval.value then some below
    else some above
  | true, false => some below
  | false, true => some above
  | false, false => none

/-- The digits and the power of ten of the coarsest grid, no coarser than `10 ^ power`, that
has a point inside the interval. -/
def coarsest (interval : Interval) : Nat → Nat × Nat
  | 0 => (interval.value, 0)
  | power + 1 =>
    match interval.nearest? (Nat.pow 10 (power + 1)) with
    | some digits => (digits, power + 1)
    | none => coarsest interval power

/-- The multiple that is chosen rounds to the double. -/
theorem contains_of_nearest? {interval : Interval} {unit digits : Nat}
    (chosen : interval.nearest? unit = some digits) :
    interval.contains (digits * unit) = true := by
  simp only [nearest?] at chosen
  split at chosen
  · rename_i below above
    split at chosen
    · cases chosen
      exact below
    · cases chosen
      exact above
  · rename_i below above
    cases chosen
    exact below
  · rename_i below above
    cases chosen
    exact above
  · cases chosen

/-- The decimal that is found rounds to the double, whatever grid the search starts with. -/
theorem contains_coarsest {interval : Interval} (inside : interval.contains interval.value = true)
    (power : Nat) :
    interval.contains
      ((interval.coarsest power).1 * Nat.pow 10 (interval.coarsest power).2) = true := by
  induction power with
  | zero =>
    have unscaled : interval.value * Nat.pow 10 0 = interval.value := Nat.mul_one _
    rw [coarsest, unscaled]
    exact inside
  | succ power ih =>
    rw [coarsest]
    split
    · rename_i digits chosen
      exact contains_of_nearest? chosen
    · exact ih

/-- No coarser grid than that of the decimal that is found has a neighbour of the double
inside the interval. -/
theorem nearest?_eq_none_of_coarsest_lt (interval : Interval) {power coarser : Nat}
    (finer : (interval.coarsest power).2 < coarser) (within : coarser ≤ power) :
    interval.nearest? (Nat.pow 10 coarser) = none := by
  induction power with
  | zero => omega
  | succ power ih =>
    rw [coarsest] at finer
    split at finer
    · simp only at finer
      omega
    · rename_i none
      by_cases same : coarser = power + 1
      · rw [same]
        exact none
      · exact ih finer (by omega)

end Interval

/-- The shortest decimal `digits * 10 ^ exponent` that rounds to a positive double. -/
def Parts.shortest (parts : Parts) : Nat × Int :=
  let interval := parts.interval
  let (digits, power) := interval.coarsest (Nat.toDigits 10 interval.value).length
  (digits, power - scale)

end Number

end StackScript
