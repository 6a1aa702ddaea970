import AtomicCss.Proofs.Number.Decimals

/-!
Contract: the shortest digits of a number round to it.

Owns:
- that dropping zeros keeps a decimal;
- the test of a point of a decimal grid, as lying in the interval of a number;
- that the point that is found lies there, and is found on the grid of ten-thousandths at the
  latest if that grid has one.

Does not own: how the digits are written.
-/

namespace AtomicCss.Decimal

open AtomicCss.Binary64 (RoundsTo gapBelow)

private theorem toRat_dropZeros
    (limit : Nat)
    (decimal : Decimal) :
    (dropZeros limit decimal).toRat = decimal.toRat := by
  induction limit generalizing decimal with
  | zero => rfl
  | succ smaller inductionHypothesis =>
      rw [dropZeros]
      split
      · rename_i zero
        have digits : (decimal.digits : ℚ) = 10 * (decimal.digits / 10 : Nat) := by
          exact_mod_cast (Nat.mul_div_cancel' (Nat.dvd_of_mod_eq_zero zero)).symm
        rw [inductionHypothesis, toRat, toRat, digits, zpow_add_one₀ (by norm_num)]
        ring
      · rfl

/-! ## Points of a grid -/

section Compare

variable (gridExponent binaryExponent : Int) (quarters point : Nat)

theorem quarters_le_iff :
    quarters * (grid gridExponent binaryExponent).quarter ≤
        point * (grid gridExponent binaryExponent).step ↔
      (quarters * 2 ^ (binaryExponent - 2) : ℚ) ≤ point * 10 ^ gridExponent := by
  have unit := gridUnit_pos gridExponent binaryExponent
  rw [← Nat.cast_le (α := ℚ), Nat.cast_mul, Nat.cast_mul, grid_step_eq, grid_quarter_eq,
    ← mul_assoc, ← mul_assoc, mul_le_mul_iff_left₀ unit]

theorem le_quarters_iff :
    point * (grid gridExponent binaryExponent).step ≤
        quarters * (grid gridExponent binaryExponent).quarter ↔
      (point * 10 ^ gridExponent : ℚ) ≤ quarters * 2 ^ (binaryExponent - 2) := by
  have unit := gridUnit_pos gridExponent binaryExponent
  rw [← Nat.cast_le (α := ℚ), Nat.cast_mul, Nat.cast_mul, grid_step_eq, grid_quarter_eq,
    ← mul_assoc, ← mul_assoc, mul_le_mul_iff_left₀ unit]

end Compare

section Interval

variable {significand : Nat} (nonzero : 0 < significand) (exponent gridExponent : Int)

private theorem four_quarters :
    (2 : ℚ) ^ exponent = 4 * 2 ^ (exponent - 2) := by
  rw [zpow_sub₀ two_ne_zero]
  ring

include nonzero

private theorem lowerEnd_mul :
    (lowerEnd significand exponent * 2 ^ (exponent - 2) : ℚ) =
      (significand - gapBelow significand exponent) * 2 ^ exponent := by
  have condition :
      (significand = Nat.pow 2 52 && decide (Binary64.leastExponent < exponent)) = true ↔
        significand = 2 ^ 52 ∧ Binary64.leastExponent < exponent := by
    simp
  rw [lowerEnd, gapBelow, four_quarters exponent]
  simp only [condition]
  split
  · rw [Nat.cast_sub (by omega)]
    push_cast
    ring
  · rw [Nat.cast_sub (by omega)]
    push_cast
    ring

/-- A point reads back as a number exactly if it rounds to it. -/
theorem readsBack_iff
    (point : Nat) :
    readsBack (grid gridExponent exponent) significand exponent
        (point * (grid gridExponent exponent).step) = true ↔
      RoundsTo significand exponent (point * 10 ^ gridExponent) := by
  have low := quarters_le_iff gridExponent exponent (lowerEnd significand exponent) point
  have high := le_quarters_iff gridExponent exponent (4 * significand + 2) point
  have strictlyLow := lt_iff_lt_of_le_iff_le
    (le_quarters_iff gridExponent exponent (lowerEnd significand exponent) point)
  have strictlyHigh := lt_iff_lt_of_le_iff_le
    (quarters_le_iff gridExponent exponent (4 * significand + 2) point)
  have upper : ((4 * significand + 2 : Nat) * 2 ^ (exponent - 2) : ℚ) =
      (significand + 1 / 2) * 2 ^ exponent := by
    rw [four_quarters exponent]
    push_cast
    ring
  rw [lowerEnd_mul nonzero] at low strictlyLow
  rw [upper] at high strictlyHigh
  rw [readsBack_eq]
  dsimp only
  split
  · rename_i even
    rw [Bool.and_eq_true, decide_eq_true_eq, decide_eq_true_eq, low, high]
    exact ⟨fun ⟨above, below⟩ => ⟨above, below, by omega⟩, fun reads => ⟨reads.low, reads.high⟩⟩
  · rename_i notEven
    rw [Bool.and_eq_true, decide_eq_true_eq, decide_eq_true_eq, strictlyLow, strictlyHigh]
    exact ⟨fun ⟨above, below⟩ => ⟨above.le, below.le, fun _ => ⟨above, below⟩⟩,
      fun reads => reads.inside (by omega)⟩

end Interval

/-! ## The point that is found -/

section Found

variable (tie : Tie) {significand : Nat} (nonzero : 0 < significand) (exponent gridExponent : Int)
include nonzero

/-- A point that is found rounds to the number. -/
theorem roundsTo_of_gridPoint?
    {decimal : Decimal}
    (found : gridPoint? tie significand exponent gridExponent = some decimal) :
    RoundsTo significand exponent decimal.toRat := by
  have place := (digits_of_gridPoint? tie nonzero exponent gridExponent found).2
  rw [toRat, place, ← readsBack_iff nonzero]
  unfold gridPoint? at found
  dsimp only at found
  split at found
  · rename_i both
    obtain ⟨lower, upper⟩ := Bool.and_eq_true_iff.mp both
    have either (takeUpper : Bool) (point : Nat)
        (lower : readsBack (grid gridExponent exponent) significand exponent
          (point * (grid gridExponent exponent).step) = true)
        (upper : readsBack (grid gridExponent exponent) significand exponent
          ((point + 1) * (grid gridExponent exponent).step) = true) :
        readsBack (grid gridExponent exponent) significand exponent
          ((if takeUpper = true then point + 1 else point) *
            (grid gridExponent exponent).step) = true := by
      cases takeUpper with
      | false => exact lower
      | true => exact upper
    obtain rfl := Option.some.inj found
    exact either _ _ lower upper
  · split at found
    · rename_i lower
      obtain rfl := Option.some.inj found
      exact lower
    · split at found
      · rename_i upper
        obtain rfl := Option.some.inj found
        exact upper
      · cases found

/-- A grid with a point that rounds to the number has one next to the number. -/
theorem exists_gridPoint_of_roundsTo
    {point : Nat}
    (rounds : RoundsTo significand exponent (point * 10 ^ gridExponent)) :
    ∃ decimal, gridPoint? tie significand exponent gridExponent = some decimal := by
  apply exists_gridPoint_of_readsBack
  intro scale below
  rw [readsBack_iff nonzero, readsBack_iff nonzero]
  have step : 0 < scale.step := grid_step_pos gridExponent exponent
  have size : ((4 * significand : Nat) * 2 ^ (exponent - 2) : ℚ) = significand * 2 ^ exponent := by
    rw [four_quarters exponent]
    push_cast
    ring
  have belowSize := (le_quarters_iff gridExponent exponent (4 * significand) below).mp
    (Nat.div_mul_le_self _ _)
  have aboveSize := (quarters_le_iff gridExponent exponent (4 * significand) (below + 1)).mp
    (by
      rw [mul_comm (below + 1)]
      exact (Nat.lt_mul_div_succ _ step).le)
  have unit : (0 : ℚ) < 10 ^ gridExponent := zpow_pos (by norm_num) _
  rw [size] at belowSize aboveSize
  rcases Nat.lt_or_ge below point with above | notAbove
  · right
    have next : ((below + 1 : Nat) : ℚ) ≤ point := by exact_mod_cast above
    exact rounds.of_le aboveSize (mul_le_mul_of_nonneg_right next unit.le)
  · left
    have before : (point : ℚ) ≤ below := by exact_mod_cast notAbove
    exact rounds.of_ge (mul_le_mul_of_nonneg_right before unit.le) belowSize


end Found

/-! ## Ten-thousandths -/

/-- A number that is not below a hundred-thousandth is not bounded by less. -/
theorem le_leadingBound_of_lt
    {significand : Nat}
    (nonzero : 0 < significand)
    {exponent : Int}
    (size : (1 / 10 ^ 5 : ℚ) < significand * 2 ^ exponent) :
    -3 ≤ leadingBound significand exponent := by
  have ratio := powerRatio_div 2 exponent
  obtain ⟨power, unit⟩ := powerRatio_pos Nat.two_pos exponent
  have unitRat : (0 : ℚ) < (powerRatio 2 exponent).2 := by exact_mod_cast unit
  have numerator : 0 < significand * (powerRatio 2 exponent).1 := Nat.mul_pos nonzero power
  rw [Nat.cast_two] at ratio
  rw [← ratio, ← mul_div_assoc, ← Nat.cast_mul, div_lt_div_iff₀ (by norm_num) unitRat, one_mul]
    at size
  unfold leadingBound
  dsimp only
  split
  · omega
  · have few : (powerRatio 2 exponent).2 / (significand * (powerRatio 2 exponent).1) < 10 ^ 5 := by
      rw [Nat.div_lt_iff_lt_mul numerator, mul_comm]
      exact_mod_cast size
    have count := (digitCount_le_iff (by norm_num)).mpr few
    omega

/-- The shortest digits of a number that a ten-thousandth or a multiple of it rounds to go no
further, and round to the number. -/
theorem exists_toRat_shortest
    (tie : Tie)
    {significand : Nat}
    (nonzero : 0 < significand)
    (bits : significand ≤ 2 ^ 53)
    {exponent : Int}
    {point : Nat}
    (positive : 0 < point)
    (rounds : RoundsTo significand exponent (point / 10000)) :
    ∃ whole : Nat, (shortest tie significand exponent).toRat = whole / 10000 ∧
      RoundsTo significand exponent (whole / 10000) := by
  have bound : -3 ≤ leadingBound significand exponent := by
    apply le_leadingBound_of_lt nonzero
    have someSize := rounds.high
    have unit : (0 : ℚ) < 2 ^ exponent := zpow_pos two_pos exponent
    have atLeast : (1 : ℚ) ≤ significand := by exact_mod_cast nonzero
    have pointAtLeast : (1 : ℚ) ≤ point := by exact_mod_cast positive
    nlinarith
  have onGrid : ∃ decimal, gridPoint? tie significand exponent (-4) = some decimal := by
    apply exists_gridPoint_of_roundsTo tie nonzero exponent (-4)
    rw [show (10 : ℚ) ^ (-4 : Int) = 1 / 10000 by norm_num, mul_one_div]
    exact rounds
  obtain ⟨decimal, step, -, digitsAre, isFound, missing⟩ :=
    exists_point_of_shortest tie nonzero bits exponent
  have place := (digits_of_gridPoint? tie nonzero exponent _ isFound).2
  have roundsToo := roundsTo_of_gridPoint? tie nonzero exponent _ isFound
  have coarse : -4 ≤ decimal.exponent := by
    by_contra fine
    obtain ⟨other, otherFound⟩ := onGrid
    have none := missing (leadingBound significand exponent + 3).toNat (by omega)
    rw [show leadingBound significand exponent - 1 -
      ((leadingBound significand exponent + 3).toNat : Int) = -4 by omega, otherFound] at none
    cases none
  obtain ⟨power, powerIs⟩ := Int.eq_ofNat_of_zero_le (by omega : 0 ≤ decimal.exponent + 4)
  have toRatIs : decimal.toRat = (decimal.digits * 10 ^ power : Nat) / 10000 := by
    rw [toRat, show decimal.exponent = (power : Int) - 4 by omega, zpow_sub₀ (by norm_num)]
    push_cast
    norm_num
    ring
  rw [toRatIs] at roundsToo
  rw [digitsAre, toRat_dropZeros]
  exact ⟨_, toRatIs, roundsToo⟩

end AtomicCss.Decimal
