import AtomicCss.Number.Binary64

/-!
Contract: decimal numbers and the binary64 number nearest to each.

Owns:
- decimals as whole digits and a power of ten;
- the text forms a decimal number may take, with an exponent or a named special value;
- the nearest binary64 number of a decimal.

Does not own: JSON numbers, whose grammar and scaling are a matter of that format.
-/

namespace AtomicCss

/-- The decimal `digits * 10 ^ exponent`. -/
structure Decimal where
  digits : Nat
  exponent : Int
deriving DecidableEq, Repr

namespace Decimal

def digitsValue (digits : List Char) : Nat :=
  digits.foldl (fun value digit => 10 * value + (digit.toNat - '0'.toNat)) 0

/-- The number of digits of a natural number; zero has one. -/
def digitCount (value : Nat) : Nat :=
  (Nat.toDigits 10 value).length

def ofParts (whole fraction : List Char) (exponent : Int) : Decimal :=
  ⟨digitsValue (whole ++ fraction), exponent - fraction.length⟩

/-- An exponent after its mark: a sign, if any, and at least one digit up to the end. -/
def readExponent? (text : List Char) : Option Int :=
  let signed := match text with
    | '+' :: digits => (false, digits)
    | '-' :: digits => (true, digits)
    | digits => (false, digits)
  if signed.2.isEmpty || !signed.2.all Char.isDigit then none
  else
    let magnitude : Int := digitsValue signed.2
    some (if signed.1 then -magnitude else magnitude)

/-- Reads digits with at most one point among or around them and an exponent, if any, to the end
of the text. At least one digit stands before the exponent. -/
def read? (text : List Char) : Option Decimal :=
  let whole := text.takeWhile Char.isDigit
  let afterWhole := text.dropWhile Char.isDigit
  let pointed := match afterWhole with
    | '.' :: rest => (rest.takeWhile Char.isDigit, rest.dropWhile Char.isDigit)
    | rest => ([], rest)
  if whole.isEmpty && pointed.1.isEmpty then none
  else match pointed.2 with
    | [] => some (ofParts whole pointed.1 0)
    | mark :: exponent =>
      if mark = 'e' || mark = 'E' then (readExponent? exponent).map (ofParts whole pointed.1)
      else none

/-- The binary64 number nearest to a decimal. Decimals beyond every finite number, or below half
of the least positive one, are recognised by their length, so that no huge power is formed. -/
def toBinary64 (negative : Bool) (decimal : Decimal) : Binary64 :=
  let leading : Int := decimal.exponent + digitCount decimal.digits
  if decimal.digits = 0 || leading < -330 then Binary64.ofRatio negative 0 1
  else if 310 < leading then .infinite negative
  else
    let power := powerRatio 10 decimal.exponent
    Binary64.ofRatio negative (decimal.digits * power.1) power.2

end Decimal

namespace Binary64

/-- Reads a number: a sign, if any, then a decimal or one of the words for infinity and
not-a-number in any case. Nothing may stand before or after it. -/
def read? (text : List Char) : Option Binary64 :=
  let signed := match text with
    | '+' :: body => (false, body)
    | '-' :: body => (true, body)
    | body => (false, body)
  let word := String.ofList (signed.2.map Char.toLower)
  if word = "inf" || word = "infinity" then some (.infinite signed.1)
  else if word = "nan" then some .nan
  else (Decimal.read? signed.2).map (Decimal.toBinary64 signed.1)

end Binary64

end AtomicCss
