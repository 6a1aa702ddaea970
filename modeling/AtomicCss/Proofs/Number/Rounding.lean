import AtomicCss.Number.Decimal
import Mathlib.Algebra.Order.Field.Power
import Mathlib.Data.Rat.Cast.Order
import Mathlib.Tactic.FieldSimp
import Mathlib.Tactic.Linarith
import Mathlib.Tactic.NormNum
import Mathlib.Tactic.Positivity
import Mathlib.Tactic.Ring

/-!
Contract: the size of what a ratio is rounded to.

Owns:
- powers with whole exponents as exact rationals;
- the exponent that a ratio is rounded at, with the bits that are left above it;
- the significand of a rounded ratio, which has at most 53 bits.

Does not own: how near the rounded number is to the ratio.
-/

namespace AtomicCss

theorem powerRatio_pos
    {base : Nat}
    (positive : 0 < base)
    (exponent : Int) :
    0 < (powerRatio base exponent).1 ∧ 0 < (powerRatio base exponent).2 := by
  unfold powerRatio
  split
  · exact ⟨Nat.pow_pos positive, Nat.one_pos⟩
  · exact ⟨Nat.one_pos, Nat.pow_pos positive⟩

/-- The two numbers are a power as a ratio. -/
theorem powerRatio_div
    (base : Nat)
    (exponent : Int) :
    ((powerRatio base exponent).1 : ℚ) / (powerRatio base exponent).2 = (base : ℚ) ^ exponent := by
  unfold powerRatio
  split
  · rename_i nonnegative
    obtain ⟨power, rfl⟩ := Int.eq_ofNat_of_zero_le nonnegative
    simp
  · rename_i negative
    obtain ⟨power, same⟩ := Int.eq_ofNat_of_zero_le (Int.neg_nonneg.mpr (by omega : exponent ≤ 0))
    have exponentIs : exponent = -(power : Int) := by omega
    rw [exponentIs]
    simp

namespace Binary64

/-- The exponent at which the whole part of a positive ratio has 53 bits. -/
def tightExponent (numerator denominator : Nat) : Int :=
  let rough : Int := (numerator.log2 : Int) - (denominator.log2 : Int) - 52
  let scaled := scaledRatio numerator denominator rough
  if scaled.1 < Nat.pow 2 52 * scaled.2 then rough - 1 else rough

theorem targetExponent_eq
    (numerator denominator : Nat) :
    targetExponent numerator denominator =
      if tightExponent numerator denominator < leastExponent then leastExponent
      else tightExponent numerator denominator :=
  rfl

section Target

variable {numerator denominator : Nat} (positive : 0 < denominator)
include positive

/-- Comparing a scaled ratio is comparing the ratio with a scaled bound. -/
theorem scaledRatio_lt_iff
    (exponent : Int)
    (bound : Nat) :
    (scaledRatio numerator denominator exponent).1 <
        bound * (scaledRatio numerator denominator exponent).2 ↔
      (numerator / denominator : ℚ) < bound * 2 ^ exponent := by
  have ratio := powerRatio_div 2 exponent
  have denominatorPositive : (0 : ℚ) < denominator := by exact_mod_cast positive
  have unitPositive : (0 : ℚ) < (powerRatio 2 exponent).2 := by
    exact_mod_cast (powerRatio_pos Nat.two_pos exponent).2
  have spread :
      (bound : ℚ) * ((powerRatio 2 exponent).1 / (powerRatio 2 exponent).2) * denominator =
        bound * (denominator * (powerRatio 2 exponent).1) / (powerRatio 2 exponent).2 := by
    ring
  rw [Nat.cast_two] at ratio
  rw [← ratio, scaledRatio, ← Nat.cast_lt (α := ℚ), div_lt_iff₀ denominatorPositive, spread,
    lt_div_iff₀ unitPositive]
  push_cast
  rfl

section Nonzero

variable (nonzero : 0 < numerator)
include nonzero

/-- The exponent that is tried first leaves 52 or 53 bits. -/
theorem ratio_bounds :
    (2 : ℚ) ^ (((numerator.log2 : Int) - denominator.log2 - 52) + 51) <
        (numerator / denominator : ℚ) ∧
      (numerator / denominator : ℚ) <
        2 ^ (((numerator.log2 : Int) - denominator.log2 - 52) + 53) := by
  have denominatorPositive : (0 : ℚ) < denominator := by exact_mod_cast positive
  have numeratorAtLeast : (2 : ℚ) ^ (numerator.log2 : Int) ≤ numerator := by
    exact_mod_cast Nat.log2_self_le nonzero.ne'
  have numeratorBelow : (numerator : ℚ) < 2 ^ ((numerator.log2 : Int) + 1) := by
    exact_mod_cast (Nat.lt_log2_self : numerator < 2 ^ (numerator.log2 + 1))
  have denominatorAtLeast : (2 : ℚ) ^ (denominator.log2 : Int) ≤ denominator := by
    exact_mod_cast Nat.log2_self_le positive.ne'
  have denominatorBelow : (denominator : ℚ) < 2 ^ ((denominator.log2 : Int) + 1) := by
    exact_mod_cast (Nat.lt_log2_self : denominator < 2 ^ (denominator.log2 + 1))
  constructor
  · rw [lt_div_iff₀ denominatorPositive]
    calc (2 : ℚ) ^ ((numerator.log2 : Int) - denominator.log2 - 52 + 51) * denominator
        < 2 ^ ((numerator.log2 : Int) - denominator.log2 - 52 + 51) *
            2 ^ ((denominator.log2 : Int) + 1) := by gcongr
      _ = 2 ^ (numerator.log2 : Int) := by
          rw [← zpow_add₀ two_ne_zero]
          congr 1
          ring
      _ ≤ numerator := numeratorAtLeast
  · rw [div_lt_iff₀ denominatorPositive]
    calc (numerator : ℚ) < 2 ^ ((numerator.log2 : Int) + 1) := numeratorBelow
      _ = 2 ^ ((numerator.log2 : Int) - denominator.log2 - 52 + 53) *
            2 ^ (denominator.log2 : Int) := by
          rw [← zpow_add₀ two_ne_zero]
          congr 1
          ring
      _ ≤ 2 ^ ((numerator.log2 : Int) - denominator.log2 - 52 + 53) * denominator := by gcongr

private theorem tightExponent_bounds :
    (numerator / denominator : ℚ) < 2 ^ 53 * 2 ^ tightExponent numerator denominator ∧
      (2 : ℚ) ^ 52 * 2 ^ tightExponent numerator denominator ≤ numerator / denominator ∧
      (numerator.log2 : Int) - denominator.log2 - 53 ≤ tightExponent numerator denominator := by
  let rough : Int := (numerator.log2 : Int) - denominator.log2 - 52
  have unit : (0 : ℚ) < 2 ^ rough := zpow_pos two_pos rough
  have above : (2 : ℚ) ^ 51 * 2 ^ rough < numerator / denominator := by
    rw [mul_comm, ← zpow_natCast, ← zpow_add₀ two_ne_zero]
    exact (ratio_bounds positive nonzero).1
  have below : (numerator / denominator : ℚ) < 2 ^ 53 * 2 ^ rough := by
    rw [mul_comm, ← zpow_natCast, ← zpow_add₀ two_ne_zero]
    exact (ratio_bounds positive nonzero).2
  have narrow := @scaledRatio_lt_iff numerator denominator positive rough (Nat.pow 2 52)
  rw [Nat.pow_eq, Nat.cast_pow, Nat.cast_two] at narrow
  have chosen :
      tightExponent numerator denominator =
        if (numerator / denominator : ℚ) < 2 ^ 52 * 2 ^ rough then rough - 1 else rough :=
    if_congr narrow rfl rfl
  rw [chosen]
  split
  · rename_i belowHalf
    rw [zpow_sub_one₀ two_ne_zero]
    exact ⟨by linarith, by linarith, by omega⟩
  · rename_i full
    exact ⟨below, not_lt.mp full, by omega⟩

/-- What the exponent of a ratio is chosen for: 53 bits are left above it, or fewer if it is the
least exponent. It is not much below the difference of the two lengths. -/
theorem targetExponent_bounds :
    (numerator / denominator : ℚ) < 2 ^ 53 * 2 ^ targetExponent numerator denominator ∧
      (targetExponent numerator denominator = leastExponent ∨
        (2 : ℚ) ^ 52 * 2 ^ targetExponent numerator denominator ≤ numerator / denominator) ∧
      (numerator.log2 : Int) - denominator.log2 - 53 ≤ targetExponent numerator denominator := by
  obtain ⟨below, above, near⟩ := tightExponent_bounds positive nonzero
  rw [targetExponent_eq]
  split
  · rename_i small
    refine ⟨below.trans ?_, .inl rfl, near.trans small.le⟩
    gcongr
    norm_num
  · exact ⟨below, .inr above, near⟩

end Nonzero

end Target

/-! ## Rounded ratios -/

private theorem roundHalfEven_le
    {numerator denominator bound : Nat}
    (below : numerator < bound * denominator) :
    roundHalfEven numerator denominator ≤ bound := by
  have quotient : numerator / denominator < bound := Nat.div_lt_of_lt_mul (by rwa [mul_comm])
  unfold roundHalfEven
  dsimp only
  split
  · exact quotient.le
  · split
    · exact quotient
    · omega

/-- The significand and the exponent of a positive ratio, before overflow is considered. -/
def roundedParts (numerator denominator : Nat) : Nat × Int :=
  let exponent := targetExponent numerator denominator
  let scaled := scaledRatio numerator denominator exponent
  let significand := roundHalfEven scaled.1 scaled.2
  if significand = Nat.pow 2 53 then (Nat.pow 2 52, exponent + 1) else (significand, exponent)

theorem ofRatio_eq
    (negative : Bool)
    {numerator : Nat}
    (nonzero : 0 < numerator)
    (denominator : Nat) :
    ofRatio negative numerator denominator =
      if greatestExponent < (roundedParts numerator denominator).2 then .infinite negative
      else .finite negative (roundedParts numerator denominator).1
        (roundedParts numerator denominator).2 := by
  rw [ofRatio, if_neg nonzero.ne']
  rfl

section Parts

variable {numerator denominator : Nat} (positive : 0 < denominator) (nonzero : 0 < numerator)
include positive nonzero

/-- A significand has at most 53 bits, and the exponent is not much below the difference of the
lengths of the two numbers. -/
theorem roundedParts_bounds :
    (roundedParts numerator denominator).1 ≤ 2 ^ 53 ∧
      (numerator.log2 : Int) - denominator.log2 - 53 ≤ (roundedParts numerator denominator).2 := by
  obtain ⟨below, -, near⟩ := targetExponent_bounds positive nonzero
  have fits :=
    (scaledRatio_lt_iff positive (targetExponent numerator denominator) (2 ^ 53)).mpr
      (by exact_mod_cast below)
  have rounded := roundHalfEven_le fits
  unfold roundedParts
  dsimp only
  split
  · exact ⟨by norm_num, by omega⟩
  · exact ⟨rounded, near⟩

/-- What a finite result of rounding looks like. -/
theorem bounds_of_ofRatio
    {negative sign : Bool}
    {significand : Nat}
    {exponent : Int}
    (finite : ofRatio negative numerator denominator = .finite sign significand exponent) :
    significand ≤ 2 ^ 53 ∧ (numerator.log2 : Int) - denominator.log2 - 53 ≤ exponent := by
  rw [ofRatio_eq negative nonzero] at finite
  split at finite
  · cases finite
  · obtain ⟨-, rfl, rfl⟩ := Binary64.finite.inj finite
    exact roundedParts_bounds positive nonzero

end Parts

end Binary64

end AtomicCss
