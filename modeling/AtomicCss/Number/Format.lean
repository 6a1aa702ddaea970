import AtomicCss.Number.Shortest

/-!
Contract: text of binary64 numbers.

Owns:
- the layout of decimal digits, with a point or with an exponent;
- the decisions in which number formats differ, as one record;
- the format of numbers in styles.

Does not own: the choice of digits.
-/

namespace AtomicCss

structure NumberFormat where
  /-- Which of two equally near digit strings is written. -/
  tie : Tie
  /-- The powers of ten of the leading digit, from the first up to below the second, that are
  written with a point alone; without a range, all of them. -/
  positional : Option (Int × Int)
  /-- What follows a whole number that is written without an exponent. -/
  wholeMark : String
deriving Repr

namespace NumberFormat

def zeros (count : Nat) : String :=
  String.ofList (List.replicate count '0')

/-- Digits written out with a point where it is needed. -/
def writePositional (wholeMark : String) (decimal : Decimal) : String :=
  let digits := Nat.repr decimal.digits
  if 0 ≤ decimal.exponent then digits ++ zeros decimal.exponent.toNat ++ wholeMark
  else
    let places := (-decimal.exponent).toNat
    let characters := digits.toList
    if places < characters.length then
      let whole := characters.length - places
      String.ofList (characters.take whole) ++ "." ++ String.ofList (characters.drop whole)
    else "0." ++ zeros (places - characters.length) ++ digits

/-- Digits written with a point after the first and the power of ten, with its sign, at the end. -/
def writeScientific (decimal : Decimal) : String :=
  let characters := (Nat.repr decimal.digits).toList
  let power : Int := decimal.exponent + characters.length - 1
  let fraction := characters.drop 1
  let point := if fraction.isEmpty then "" else "."
  let sign := if power < 0 then "-" else "+"
  String.ofList (characters.take 1) ++ point ++ String.ofList fraction ++ "e" ++ sign ++
    Nat.repr power.natAbs

def write (format : NumberFormat) : Binary64 → String
  | .nan => "NaN"
  | .infinite negative => (if negative then "-" else "") ++ "inf"
  | .finite negative significand exponent =>
    let sign := if negative then "-" else ""
    if significand = 0 then sign ++ "0" ++ format.wholeMark
    else
      let decimal := Decimal.shortest format.tie significand exponent
      let power : Int := decimal.exponent + Decimal.digitCount decimal.digits - 1
      let positional := match format.positional with
        | none => true
        | some (first, bound) => first ≤ power && power < bound
      sign ++ if positional then writePositional format.wholeMark decimal
        else writeScientific decimal

/-- Numbers in styles never have an exponent, and whole ones no point. -/
def style : NumberFormat :=
  ⟨.up, none, ""⟩

end NumberFormat

namespace Binary64

/-- The number rounded to four decimal places: scaled, rounded with ties away from zero and scaled
back, each step in binary64. -/
def roundToFourPlaces (value : Binary64) : Binary64 :=
  ((value.mul (ofNat 10000)).roundHalfAway).div (ofNat 10000)

/-- The text of a number in a style: at most four places, and no sign on zero. -/
def styleText (value : Binary64) : String :=
  let rounded := value.roundToFourPlaces
  if rounded.isZero then "0"
  else if rounded.isWhole && !rounded.magnitudeAtLeast (Nat.pow 10 15) then
    let whole := rounded.wholePart
    (if whole < 0 then "-" else "") ++ Nat.repr whole.natAbs
  else NumberFormat.style.write rounded

end Binary64

end AtomicCss
