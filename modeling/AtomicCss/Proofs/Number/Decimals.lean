import AtomicCss.Proofs.Number.Nearest
import AtomicCss.Proofs.Number.ShortestDigits

/-!
Contract: decimals as exact rationals, and the numbers that they are read as.

Owns:
- the rational that a decimal is, with its size;
- the cases of reading a decimal: too small, too large, or a ratio that is rounded;
- which decimals are read as zero, and which as ten or more.

Does not own: texts.
-/

namespace AtomicCss.Decimal

def toRat (decimal : Decimal) : ℚ :=
  decimal.digits * 10 ^ decimal.exponent

theorem toRat_nonneg
    (decimal : Decimal) :
    0 ≤ decimal.toRat := by
  unfold toRat
  positivity

/-- A decimal is bounded by the power of ten of its leading digit. -/
theorem toRat_bounds
    {decimal : Decimal}
    (nonzero : 0 < decimal.digits) :
    (10 : ℚ) ^ (decimal.exponent + digitCount decimal.digits - 1) ≤ decimal.toRat ∧
      decimal.toRat < 10 ^ (decimal.exponent + digitCount decimal.digits) := by
  have ten : (10 : ℚ) ≠ 0 := by norm_num
  have unit : (0 : ℚ) < 10 ^ decimal.exponent := zpow_pos (by norm_num) _
  have count := digitCount_pos decimal.digits
  have low : (10 : ℚ) ^ (digitCount decimal.digits - 1) ≤ decimal.digits := by
    exact_mod_cast pow_digitCount_le nonzero
  have high : (decimal.digits : ℚ) < 10 ^ digitCount decimal.digits := by
    exact_mod_cast lt_pow_digitCount decimal.digits
  constructor
  · rw [show decimal.exponent + digitCount decimal.digits - 1 =
      ((digitCount decimal.digits - 1 : Nat) : Int) + decimal.exponent by omega, zpow_add₀ ten,
      zpow_natCast]
    exact mul_le_mul_of_nonneg_right low unit.le
  · rw [add_comm, zpow_add₀ ten, zpow_natCast]
    exact mul_lt_mul_of_pos_right high unit

/-- Thirty-three bits are less than ten digits. -/
theorem two_pow_le_ten_pow
    (count : Nat) :
    (2 : ℚ) ^ ((33 * count : Nat) : Int) ≤ 10 ^ ((10 * count : Nat) : Int) := by
  rw [zpow_natCast, zpow_natCast, pow_mul, pow_mul]
  exact pow_le_pow_left₀ (by positivity) (by norm_num) count

/-- A decimal is read as zero if it is tiny and as infinite if it is huge, and otherwise the ratio
that it is is rounded. -/
theorem toBinary64_cases
    (negative : Bool)
    (decimal : Decimal) :
    decimal.toRat ≤ 2 ^ (-1075 : Int) ∧
        decimal.toBinary64 negative = .finite negative 0 Binary64.leastExponent ∨
      2 ^ (1023 : Int) ≤ decimal.toRat ∧ decimal.toBinary64 negative = .infinite negative ∨
      ∃ numerator denominator : Nat, 0 < numerator ∧ 0 < denominator ∧
        (numerator / denominator : ℚ) = decimal.toRat ∧
        decimal.toBinary64 negative = Binary64.ofRatio negative numerator denominator := by
  have tiny : (10 : ℚ) ^ (-330 : Int) ≤ 2 ^ (-1075 : Int) := by
    rw [zpow_neg, zpow_neg]
    refine inv_anti₀ (by positivity) (le_trans ?_ (two_pow_le_ten_pow 33))
    exact zpow_le_zpow_right₀ one_le_two (by decide)
  have huge : (2 : ℚ) ^ (1023 : Int) ≤ 10 ^ (310 : Int) := two_pow_le_ten_pow 31
  unfold toBinary64
  dsimp only
  split
  · rename_i small
    refine .inl ⟨?_, rfl⟩
    simp only [Bool.or_eq_true, decide_eq_true_eq] at small
    rcases Nat.eq_zero_or_pos decimal.digits with zero | nonzero
    · rw [toRat, zero, Nat.cast_zero, zero_mul]
      positivity
    · refine ((toRat_bounds nonzero).2.le.trans ?_).trans tiny
      exact zpow_le_zpow_right₀ (by norm_num) (by omega)
  · rename_i notSmall
    simp only [Bool.or_eq_true, decide_eq_true_eq, not_or] at notSmall
    have nonzero : 0 < decimal.digits := Nat.pos_of_ne_zero notSmall.1
    split
    · rename_i large
      refine .inr (.inl ⟨huge.trans (le_trans ?_ (toRat_bounds nonzero).1), rfl⟩)
      exact zpow_le_zpow_right₀ (by norm_num) (by omega)
    · obtain ⟨power, unit⟩ := powerRatio_pos (by decide : 0 < 10) decimal.exponent
      have ratio := powerRatio_div 10 decimal.exponent
      refine .inr (.inr ⟨_, _, Nat.mul_pos nonzero power, unit, ?_, rfl⟩)
      rw [Nat.cast_mul, mul_div_assoc, ratio, toRat, Nat.cast_ofNat]

theorem isZero_toBinary64_iff
    (negative : Bool)
    (decimal : Decimal) :
    (decimal.toBinary64 negative).isZero = true ↔ decimal.toRat ≤ 2 ^ (-1075 : Int) := by
  rcases toBinary64_cases negative decimal with
    ⟨small, isZero⟩ | ⟨large, isInfinite⟩ | ⟨numerator, denominator, nonzero, positive, ratio, same⟩
  · rw [isZero]
    exact ⟨fun _ => small, fun _ => rfl⟩
  · have order : (2 : ℚ) ^ (-1075 : Int) < 2 ^ (1023 : Int) :=
      zpow_lt_zpow_right₀ one_lt_two (by decide)
    simp only [isInfinite, Binary64.isZero, Bool.false_eq_true, false_iff, not_le]
    exact order.trans_le large
  · rw [same, Binary64.isZero_ofRatio_iff positive nonzero, ratio]

theorem magnitudeAtLeast_ten_toBinary64_iff
    (negative : Bool)
    (decimal : Decimal) :
    (decimal.toBinary64 negative).magnitudeAtLeast 10 = true ↔
      (10 - 1 / 2 ^ 50 : ℚ) ≤ decimal.toRat := by
  rcases toBinary64_cases negative decimal with
    ⟨small, isZero⟩ | ⟨large, isInfinite⟩ | ⟨numerator, denominator, nonzero, positive, ratio, same⟩
  · have tiny : (2 : ℚ) ^ (-1075 : Int) ≤ 2 ^ (0 : Int) :=
      zpow_le_zpow_right₀ one_le_two (by decide)
    rw [isZero, Binary64.magnitudeAtLeast_finite_iff, Nat.cast_zero, zero_mul]
    rw [zpow_zero] at tiny
    constructor
    · intro impossible
      norm_num at impossible
    · intro impossible
      linarith
  · have order : (2 : ℚ) ^ (4 : Int) ≤ 2 ^ (1023 : Int) :=
      zpow_le_zpow_right₀ one_le_two (by decide)
    simp only [isInfinite, Binary64.magnitudeAtLeast, true_iff]
    refine le_trans ?_ (order.trans large)
    norm_num
  · rw [same, Binary64.magnitudeAtLeast_ten_ofRatio_iff positive nonzero, ratio]

end AtomicCss.Decimal
