import AtomicCss.Number.Decimal

/-!
Contract: the fewest decimal digits that read back as a given binary64 number.

Owns:
- the interval of reals that round to a number;
- the search for the coarsest decimal grid with a point in that interval, and the choice between
  two such points.

Does not own: how the digits are laid out as text.
-/

namespace AtomicCss

/-- Which of two equally near decimals is taken. -/
inductive Tie where
  | up
  | toEven
deriving DecidableEq, Repr

namespace Decimal

/-- The same decimal without zeros at the end of its digits, dropping at most `limit` of them. -/
def dropZeros (limit : Nat) (decimal : Decimal) : Decimal :=
  match limit with
  | 0 => decimal
  | smaller + 1 =>
    if decimal.digits % 10 = 0 then
      dropZeros smaller ⟨decimal.digits / 10, decimal.exponent + 1⟩
    else decimal

/-- One decimal grid next to one binary number, over a common denominator: the reals
`point * step` and the quarters of the number's last place. -/
structure Grid where
  step : Nat
  quarter : Nat
deriving Repr

def grid (gridExponent binaryExponent : Int) : Grid :=
  let ten := powerRatio 10 gridExponent
  let two := powerRatio 2 (binaryExponent - 2)
  ⟨ten.1 * two.2, two.1 * ten.2⟩

/-- Whether a real lies among those that round to `significand * 2 ^ exponent`. The real is given
in the units of `scale`. The gap below a power of two is half as wide, and the ends belong to the
interval when the significand is even. -/
def readsBack (scale : Grid) (significand : Nat) (exponent : Int) (real : Nat) : Bool :=
  let narrow := significand = Nat.pow 2 52 && Binary64.leastExponent < exponent
  let low := (4 * significand - if narrow then 1 else 2) * scale.quarter
  let high := (4 * significand + 2) * scale.quarter
  if significand % 2 = 0 then low ≤ real && real ≤ high else low < real && real < high

/-- The point of a grid that reads back as the number, the nearer one if there are two. -/
def gridPoint? (tie : Tie) (significand : Nat) (exponent gridExponent : Int) : Option Decimal :=
  let scale := grid gridExponent exponent
  let value := 4 * significand * scale.quarter
  let below := value / scale.step
  let lower := readsBack scale significand exponent (below * scale.step)
  let upper := readsBack scale significand exponent ((below + 1) * scale.step)
  let middle := (2 * below + 1) * scale.step
  let takeUpper :=
    if 2 * value < middle then false
    else if middle < 2 * value then true
    else match tie with
      | .up => true
      | .toEven => below % 2 = 1
  if lower && upper then some ⟨if takeUpper then below + 1 else below, gridExponent⟩
  else if lower then some ⟨below, gridExponent⟩
  else if upper then some ⟨below + 1, gridExponent⟩
  else none

/-- An upper bound of the number of digits before the point of a positive number. -/
def leadingBound (significand : Nat) (exponent : Int) : Int :=
  let power := powerRatio 2 exponent
  let numerator := significand * power.1
  if power.2 ≤ numerator then digitCount (numerator / power.2)
  else 2 - (digitCount (power.2 / numerator) : Int)

/-- The decimal of fewest digits that reads back as `significand * 2 ^ exponent`, nearest to it
among those. Eighteen grids are enough, since seventeen digits tell all numbers apart. -/
def shortest (tie : Tie) (significand : Nat) (exponent : Int) : Decimal :=
  let bound := leadingBound significand exponent
  let found := (List.range 18).findSome? fun (step : Nat) =>
    gridPoint? tie significand exponent (bound - 1 - (step : Int))
  match found with
  | some decimal => dropZeros (digitCount decimal.digits) decimal
  | none => ⟨0, 0⟩

end Decimal

end AtomicCss
