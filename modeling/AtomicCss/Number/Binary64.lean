/-!
Contract: numbers of IEEE 754 binary64 as exact data.

Owns:
- the type of such numbers, with signed zeros, infinities and not-a-number;
- rounding of an exact ratio to the nearest of them;
- product, quotient and rounding to a whole number;
- the size tests that style numbers need.

Does not own: decimal text, which is read and written elsewhere.
-/

namespace AtomicCss

/-- A binary64 number. A finite one is `significand * 2 ^ exponent` with a sign of its own, so that
zero has two signs. -/
inductive Binary64 where
  | finite (negative : Bool) (significand : Nat) (exponent : Int)
  | infinite (negative : Bool)
  | nan
deriving DecidableEq, Repr, Inhabited

/-- `base ^ exponent` as a numerator and a denominator. -/
def powerRatio (base : Nat) (exponent : Int) : Nat × Nat :=
  if 0 ≤ exponent then (Nat.pow base exponent.toNat, 1) else (1, Nat.pow base (-exponent).toNat)

namespace Binary64

/-- The exponent of the smallest positive number, `2 ^ (-1074)`. -/
def leastExponent : Int := -1074

/-- The exponent of the largest numbers, which have 53 significant bits. -/
def greatestExponent : Int := 971

/-- `numerator / denominator` to the nearest whole number, a tie to the even one. -/
def roundHalfEven (numerator denominator : Nat) : Nat :=
  let quotient := numerator / denominator
  let twice := 2 * (numerator % denominator)
  if twice < denominator then quotient
  else if denominator < twice then quotient + 1
  else quotient + quotient % 2

/-- `numerator / denominator / 2 ^ exponent` as a numerator and a denominator. -/
def scaledRatio (numerator denominator : Nat) (exponent : Int) : Nat × Nat :=
  let power := powerRatio 2 exponent
  (numerator * power.2, denominator * power.1)

/-- The exponent at which the whole part of a positive ratio has 53 bits, or the least exponent if
that is larger. -/
def targetExponent (numerator denominator : Nat) : Int :=
  let rough : Int := (numerator.log2 : Int) - (denominator.log2 : Int) - 52
  let scaled := scaledRatio numerator denominator rough
  let tight := if scaled.1 < Nat.pow 2 52 * scaled.2 then rough - 1 else rough
  if tight < leastExponent then leastExponent else tight

/-- The number nearest to a ratio of natural numbers, a tie to the even significand. Ratios too
large for a finite number give an infinity. -/
def ofRatio (negative : Bool) (numerator denominator : Nat) : Binary64 :=
  if numerator = 0 then .finite negative 0 leastExponent
  else
    let exponent := targetExponent numerator denominator
    let scaled := scaledRatio numerator denominator exponent
    let significand := roundHalfEven scaled.1 scaled.2
    let carried := significand = Nat.pow 2 53
    let result := if carried then (Nat.pow 2 52, exponent + 1) else (significand, exponent)
    if greatestExponent < result.2 then .infinite negative
    else .finite negative result.1 result.2

def ofNat (value : Nat) : Binary64 :=
  ofRatio false value 1

def ofInt (value : Int) : Binary64 :=
  ofRatio (value < 0) value.natAbs 1

def neg : Binary64 → Binary64
  | .finite negative significand exponent => .finite (!negative) significand exponent
  | .infinite negative => .infinite (!negative)
  | .nan => .nan

/-- The product, rounded once. -/
def mul : Binary64 → Binary64 → Binary64
  | .finite leftNegative leftSignificand leftExponent,
    .finite rightNegative rightSignificand rightExponent =>
    let power := powerRatio 2 (leftExponent + rightExponent)
    ofRatio (leftNegative != rightNegative) (leftSignificand * rightSignificand * power.1) power.2
  | .infinite leftNegative, .infinite rightNegative => .infinite (leftNegative != rightNegative)
  | .infinite leftNegative, .finite rightNegative significand _ =>
    if significand = 0 then .nan else .infinite (leftNegative != rightNegative)
  | .finite leftNegative significand _, .infinite rightNegative =>
    if significand = 0 then .nan else .infinite (leftNegative != rightNegative)
  | _, _ => .nan

/-- The quotient, rounded once. -/
def div : Binary64 → Binary64 → Binary64
  | .finite leftNegative leftSignificand leftExponent,
    .finite rightNegative rightSignificand rightExponent =>
    if rightSignificand = 0 then
      if leftSignificand = 0 then .nan else .infinite (leftNegative != rightNegative)
    else
      let power := powerRatio 2 (leftExponent - rightExponent)
      ofRatio (leftNegative != rightNegative) (leftSignificand * power.1)
        (rightSignificand * power.2)
  | .infinite leftNegative, .finite rightNegative _ _ =>
    .infinite (leftNegative != rightNegative)
  | .finite leftNegative _ _, .infinite rightNegative =>
    .finite (leftNegative != rightNegative) 0 leastExponent
  | _, _ => .nan

/-- The nearest whole number, a tie away from zero. -/
def roundHalfAway : Binary64 → Binary64
  | .finite negative significand exponent =>
    if 0 ≤ exponent then .finite negative significand exponent
    else
      let unit := Nat.pow 2 (-exponent).toNat
      ofRatio negative ((2 * significand + unit) / (2 * unit)) 1
  | other => other

/-- Whether the number is a zero of either sign. -/
def isZero : Binary64 → Bool
  | .finite _ significand _ => significand = 0
  | _ => false

def isFinite : Binary64 → Bool
  | .finite _ _ _ => true
  | _ => false

def isInfinite : Binary64 → Bool
  | .infinite _ => true
  | _ => false

def isWhole : Binary64 → Bool
  | .finite _ significand exponent =>
    let power := powerRatio 2 exponent
    significand * power.1 % power.2 = 0
  | _ => false

def magnitudeAtLeast (bound : Nat) : Binary64 → Bool
  | .finite _ significand exponent =>
    let power := powerRatio 2 exponent
    bound * power.2 ≤ significand * power.1
  | .infinite _ => true
  | .nan => false

/-- Whether the number lies between zero and `upper`, both included. -/
def isBetweenZeroAnd (upper : Nat) : Binary64 → Bool
  | .finite negative significand exponent =>
    let power := powerRatio 2 exponent
    (!negative || significand = 0) && significand * power.1 ≤ upper * power.2
  | _ => false

/-- The whole part of a finite number, toward zero. -/
def wholePart : Binary64 → Int
  | .finite negative significand exponent =>
    let power := powerRatio 2 exponent
    let whole : Int := (significand * power.1 / power.2 : Nat)
    if negative then -whole else whole
  | _ => 0

end Binary64

end AtomicCss
