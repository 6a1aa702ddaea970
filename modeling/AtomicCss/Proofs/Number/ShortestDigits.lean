import AtomicCss.Number.Shortest
import AtomicCss.Proofs.Number.Rounding

/-!
Contract: the search for the shortest digits of a number finds some.

Owns:
- the number of digits before the point, as a bound on the number;
- the grid of seventeen digits, which has a point that reads back as the number;
- the digits that are found, which are not zero, and how far they go behind the point.

Does not own: that no fewer digits read back.
-/

namespace AtomicCss.Decimal

/-! ## Lengths -/

theorem digitCount_pos
    (value : Nat) :
    0 < digitCount value :=
  Nat.length_toDigits_pos

theorem digitCount_le_iff
    {value bound : Nat}
    (positive : 0 < bound) :
    digitCount value ≤ bound ↔ value < 10 ^ bound :=
  Nat.length_toDigits_le_iff (by decide) positive

theorem lt_pow_digitCount
    (value : Nat) :
    value < 10 ^ digitCount value :=
  (digitCount_le_iff (digitCount_pos value)).mp le_rfl

theorem pow_digitCount_le
    {value : Nat}
    (nonzero : 0 < value) :
    10 ^ (digitCount value - 1) ≤ value := by
  by_cases single : digitCount value - 1 = 0
  · rw [single]
    exact nonzero
  · have longer : ¬digitCount value ≤ digitCount value - 1 := by omega
    rw [digitCount_le_iff (Nat.pos_of_ne_zero single)] at longer
    exact Nat.not_lt.mp longer

/-- A ratio that is not below one, next to the digits of its whole part. -/
theorem pow_lt_ratio
    {numerator denominator : Nat}
    (positive : 0 < denominator)
    (atLeastOne : denominator ≤ numerator) :
    (10 : ℚ) ^ ((digitCount (numerator / denominator) : Int) - 2) < numerator / denominator := by
  have digits := pow_digitCount_le (Nat.div_pos atLeastOne positive)
  have count := digitCount_pos (numerator / denominator)
  have denominatorPositive : (0 : ℚ) < denominator := by exact_mod_cast positive
  generalize digitCount (numerator / denominator) = places at *
  have scaled : 10 ^ (places - 1) * denominator ≤ numerator :=
    (Nat.le_div_iff_mul_le positive).mp digits
  calc (10 : ℚ) ^ ((places : Int) - 2)
      < 10 ^ ((places - 1 : Nat) : Int) := zpow_lt_zpow_right₀ (by norm_num) (by omega)
    _ ≤ numerator / denominator := by
        rw [le_div_iff₀ denominatorPositive, zpow_natCast]
        exact_mod_cast scaled

/-- Any positive ratio, next to the digits of the whole part of its inverse. -/
theorem pow_lt_ratio_of_inverse
    {numerator denominator : Nat}
    (positive : 0 < denominator)
    (nonzero : 0 < numerator) :
    (10 : ℚ) ^ (-(digitCount (denominator / numerator) : Int)) < numerator / denominator := by
  have digits := lt_pow_digitCount (denominator / numerator)
  have denominatorPositive : (0 : ℚ) < denominator := by exact_mod_cast positive
  generalize digitCount (denominator / numerator) = places at *
  have scaled : denominator < 10 ^ places * numerator :=
    (Nat.div_lt_iff_lt_mul nonzero).mp digits
  rw [zpow_neg, zpow_natCast, lt_div_iff₀ denominatorPositive, inv_mul_lt_iff₀ (by positivity)]
  exact_mod_cast scaled

theorem powerRatio_snd_le
    {exponent : Int}
    {least : Nat}
    (bounded : -(least : Int) ≤ exponent) :
    (powerRatio 2 exponent).2 ≤ 2 ^ least := by
  unfold powerRatio
  split
  · exact Nat.one_le_two_pow
  · exact Nat.pow_le_pow_right Nat.two_pos (by omega)

section Leading

variable {significand : Nat} (nonzero : 0 < significand) (exponent : Int)
include nonzero

/-- A number has at most one digit less before its point than the bound says. -/
theorem pow_leadingBound_lt :
    (10 : ℚ) ^ (leadingBound significand exponent - 2) < significand * 2 ^ exponent := by
  have ratio := powerRatio_div 2 exponent
  obtain ⟨power, unit⟩ := powerRatio_pos Nat.two_pos exponent
  have numerator : 0 < significand * (powerRatio 2 exponent).1 := Nat.mul_pos nonzero power
  rw [Nat.cast_two] at ratio
  rw [← ratio, ← mul_div_assoc, ← Nat.cast_mul]
  unfold leadingBound
  dsimp only
  split
  · rename_i atLeastOne
    exact pow_lt_ratio unit atLeastOne
  · convert pow_lt_ratio_of_inverse unit numerator using 2
    ring

omit nonzero in
/-- A number that is not tiny has no tiny bound. -/
theorem le_leadingBound
    {least : Nat}
    (bounded : -(least : Int) ≤ exponent) :
    1 - (least : Int) ≤ leadingBound significand exponent := by
  unfold leadingBound
  dsimp only
  split
  · have count :=
      digitCount_pos (significand * (powerRatio 2 exponent).1 / (powerRatio 2 exponent).2)
    omega
  · have small : (powerRatio 2 exponent).2 / (significand * (powerRatio 2 exponent).1) <
        10 ^ (least + 1) :=
      calc _ ≤ (powerRatio 2 exponent).2 := Nat.div_le_self _ _
        _ ≤ 2 ^ least := powerRatio_snd_le bounded
        _ ≤ 10 ^ least := Nat.pow_le_pow_left (by decide) least
        _ < 10 ^ (least + 1) := Nat.pow_lt_pow_right (by decide) (Nat.lt_succ_self least)
    have count := (digitCount_le_iff (Nat.succ_pos least)).mpr small
    omega

end Leading

/-! ## Grids -/

def gridUnit (gridExponent binaryExponent : Int) : ℚ :=
  (powerRatio 10 gridExponent).2 * (powerRatio 2 (binaryExponent - 2)).2

theorem gridUnit_pos
    (gridExponent binaryExponent : Int) :
    0 < gridUnit gridExponent binaryExponent := by
  have ten : (0 : ℚ) < (powerRatio 10 gridExponent).2 := by
    exact_mod_cast (powerRatio_pos (by decide) gridExponent).2
  have two : (0 : ℚ) < (powerRatio 2 (binaryExponent - 2)).2 := by
    exact_mod_cast (powerRatio_pos (by decide) (binaryExponent - 2)).2
  exact mul_pos ten two

theorem grid_step_eq
    (gridExponent binaryExponent : Int) :
    ((grid gridExponent binaryExponent).step : ℚ) =
      10 ^ gridExponent * gridUnit gridExponent binaryExponent := by
  have ratio := powerRatio_div 10 gridExponent
  have nonzero : ((powerRatio 10 gridExponent).2 : ℚ) ≠ 0 := by
    exact_mod_cast (powerRatio_pos (by decide : 0 < 10) gridExponent).2.ne'
  rw [Nat.cast_ofNat] at ratio
  rw [← ratio, grid, gridUnit]
  push_cast
  field_simp

theorem grid_quarter_eq
    (gridExponent binaryExponent : Int) :
    ((grid gridExponent binaryExponent).quarter : ℚ) =
      2 ^ (binaryExponent - 2) * gridUnit gridExponent binaryExponent := by
  have ratio := powerRatio_div 2 (binaryExponent - 2)
  have nonzero : ((powerRatio 2 (binaryExponent - 2)).2 : ℚ) ≠ 0 := by
    exact_mod_cast (powerRatio_pos (by decide : 0 < 2) (binaryExponent - 2)).2.ne'
  rw [Nat.cast_ofNat] at ratio
  rw [← ratio, grid, gridUnit]
  push_cast
  field_simp

/-- Comparing the step of a grid with quarters of the last place of a number. -/
theorem grid_step_lt_iff
    (gridExponent binaryExponent : Int)
    (quarters : Nat) :
    (grid gridExponent binaryExponent).step <
        quarters * (grid gridExponent binaryExponent).quarter ↔
      (10 : ℚ) ^ gridExponent < quarters * 2 ^ (binaryExponent - 2) := by
  have unit := gridUnit_pos gridExponent binaryExponent
  rw [← Nat.cast_lt (α := ℚ), Nat.cast_mul, grid_step_eq, grid_quarter_eq, ← mul_assoc,
    mul_lt_mul_iff_left₀ unit]

private theorem grid_quarter_pos
    (gridExponent binaryExponent : Int) :
    0 < (grid gridExponent binaryExponent).quarter :=
  Nat.mul_pos (powerRatio_pos (by decide) _).1 (powerRatio_pos (by decide) _).2

theorem grid_step_pos
    (gridExponent binaryExponent : Int) :
    0 < (grid gridExponent binaryExponent).step :=
  Nat.mul_pos (powerRatio_pos (by decide) _).1 (powerRatio_pos (by decide) _).2

/-- Whether the gap below a number is half as wide as the one above it. -/
def IsNarrow (significand : Nat) (exponent : Int) : Prop :=
  significand = 2 ^ 52 ∧ Binary64.leastExponent < exponent

/-- The lower end of the interval of a number, in quarters of its last place. -/
def lowerEnd (significand : Nat) (exponent : Int) : Nat :=
  4 * significand -
    if (significand = Nat.pow 2 52 && Binary64.leastExponent < exponent) = true then 1 else 2

theorem readsBack_eq
    (scale : Grid)
    (significand : Nat)
    (exponent : Int)
    (real : Nat) :
    readsBack scale significand exponent real =
      let low := lowerEnd significand exponent * scale.quarter
      let high := (4 * significand + 2) * scale.quarter
      if significand % 2 = 0 then low ≤ real && real ≤ high else low < real && real < high :=
  rfl

section Points

variable {scale : Grid} (quarter : 0 < scale.quarter)
variable {significand : Nat} (nonzero : 0 < significand) (exponent : Int)
include quarter nonzero

/-- What is nearer to the number than two quarters of its last place reads back, unless it lies in a
narrow gap. -/
theorem readsBack_of_near
    {real : Nat}
    (above : 4 * significand * scale.quarter < real + 2 * scale.quarter)
    (below : real < 4 * significand * scale.quarter + 2 * scale.quarter)
    (wide : ¬IsNarrow significand exponent ∨ 4 * significand * scale.quarter ≤ real) :
    readsBack scale significand exponent real = true := by
  have someQuarters : 4 * scale.quarter ≤ 4 * significand * scale.quarter :=
    Nat.mul_le_mul_right _ (by omega)
  have high : real < (4 * significand + 2) * scale.quarter := by
    rw [Nat.add_mul]
    exact below
  have low : lowerEnd significand exponent * scale.quarter < real := by
    unfold lowerEnd
    rw [Nat.sub_mul]
    split
    · rename_i narrow
      have isNarrow : IsNarrow significand exponent := by simpa [IsNarrow] using narrow
      have notBelow := wide.resolve_left (not_not.mpr isNarrow)
      omega
    · omega
  rw [readsBack_eq]
  dsimp only
  split
  · simp [low.le, high.le]
  · simp [low, high]

/-- Zero reads back as no other number. -/
theorem readsBack_zero :
    readsBack scale significand exponent 0 = false := by
  have someQuarters : 0 < lowerEnd significand exponent := by
    unfold lowerEnd
    split
    · omega
    · omega
  have low : 0 < lowerEnd significand exponent * scale.quarter := Nat.mul_pos someQuarters quarter
  rw [readsBack_eq]
  dsimp only
  split
  · rw [decide_eq_false (Nat.not_le.mpr low), Bool.false_and]
  · rw [decide_eq_false (Nat.not_lt_zero _), Bool.false_and]

/-- Of the two points of a fine grid next to a number one reads back. -/
theorem readsBack_below_or_above
    (step : 0 < scale.step)
    (fine : scale.step < 4 * scale.quarter)
    (finer : IsNarrow significand exponent → scale.step < 2 * scale.quarter) :
    let below := 4 * significand * scale.quarter / scale.step
    readsBack scale significand exponent (below * scale.step) = true ∨
      readsBack scale significand exponent ((below + 1) * scale.step) = true := by
  intro below
  have rest : 4 * significand * scale.quarter % scale.step < scale.step := Nat.mod_lt _ step
  have cut : below * scale.step + 4 * significand * scale.quarter % scale.step =
      4 * significand * scale.quarter := Nat.div_add_mod' _ _
  have next : (below + 1) * scale.step = below * scale.step + scale.step := Nat.succ_mul _ _
  by_cases narrow : IsNarrow significand exponent
  · -- Above a narrow gap the upper point is near enough.
    have stepFiner := finer narrow
    right
    exact readsBack_of_near quarter nonzero exponent (by omega) (by omega) (.inr (by omega))
  · -- Otherwise the nearer one is.
    by_cases near : 4 * significand * scale.quarter < below * scale.step + 2 * scale.quarter
    · left
      exact readsBack_of_near quarter nonzero exponent near (by omega) (.inl narrow)
    · right
      exact readsBack_of_near quarter nonzero exponent (by omega) (by omega) (.inl narrow)

end Points

section Search

variable (tie : Tie) {significand : Nat} (nonzero : 0 < significand) (exponent gridExponent : Int)
include nonzero

/-- A point that is found is not zero. -/
theorem digits_of_gridPoint?
    {decimal : Decimal}
    (found : gridPoint? tie significand exponent gridExponent = some decimal) :
    0 < decimal.digits ∧ decimal.exponent = gridExponent := by
  have zero := readsBack_zero (grid_quarter_pos gridExponent exponent) nonzero exponent
  have lowerPositive (point : Nat)
      (lower : readsBack (grid gridExponent exponent) significand exponent
        (point * (grid gridExponent exponent).step) = true) :
      0 < point := by
    rw [Nat.pos_iff_ne_zero]
    rintro rfl
    rw [Nat.zero_mul, zero] at lower
    cases lower
  have eitherPositive (upper : Bool) (point : Nat) (positive : 0 < point) :
      0 < if upper = true then point + 1 else point := by
    cases upper with
    | false => exact positive
    | true => exact Nat.succ_pos point
  unfold gridPoint? at found
  dsimp only at found
  split at found
  · rename_i both
    obtain rfl := Option.some.inj found
    exact ⟨eitherPositive _ _ (lowerPositive _ (Bool.and_eq_true_iff.mp both).1), rfl⟩
  · split at found
    · rename_i lower
      obtain rfl := Option.some.inj found
      exact ⟨lowerPositive _ lower, rfl⟩
    · split at found
      · obtain rfl := Option.some.inj found
        exact ⟨Nat.succ_pos _, rfl⟩
      · cases found

omit nonzero in
/-- A grid has a point for the number if one of its two points next to the number reads back. -/
theorem exists_gridPoint_of_readsBack
    (reads :
      let scale := grid gridExponent exponent
      let below := 4 * significand * scale.quarter / scale.step
      readsBack scale significand exponent (below * scale.step) = true ∨
        readsBack scale significand exponent ((below + 1) * scale.step) = true) :
    ∃ decimal, gridPoint? tie significand exponent gridExponent = some decimal := by
  unfold gridPoint?
  dsimp only at reads ⊢
  split
  · exact ⟨_, rfl⟩
  · split
    · exact ⟨_, rfl⟩
    · rename_i notLower
      rw [if_pos (reads.resolve_left notLower)]
      exact ⟨_, rfl⟩

/-- A grid that is fine enough has a point for the number. -/
theorem exists_gridPoint
    (fine : (10 : ℚ) ^ gridExponent < 4 * 2 ^ (exponent - 2))
    (finer : IsNarrow significand exponent → (10 : ℚ) ^ gridExponent < 2 * 2 ^ (exponent - 2)) :
    ∃ decimal, gridPoint? tie significand exponent gridExponent = some decimal := by
  apply exists_gridPoint_of_readsBack
  apply readsBack_below_or_above (grid_quarter_pos gridExponent exponent) nonzero exponent
    (grid_step_pos gridExponent exponent)
  · exact (grid_step_lt_iff gridExponent exponent 4).mpr (by exact_mod_cast fine)
  · intro narrow
    exact (grid_step_lt_iff gridExponent exponent 2).mpr (by exact_mod_cast finer narrow)

end Search

/-! ## The digits that are found -/

/-- Dropping zeros at the end leaves a digit. -/
theorem dropZeros_bounds
    (limit : Nat)
    {decimal : Decimal}
    (nonzero : 0 < decimal.digits) :
    0 < (dropZeros limit decimal).digits ∧
      decimal.exponent ≤ (dropZeros limit decimal).exponent := by
  induction limit generalizing decimal with
  | zero => exact ⟨nonzero, le_rfl⟩
  | succ smaller inductionHypothesis =>
      rw [dropZeros]
      split
      · rename_i zero
        have shorter : 0 < (⟨decimal.digits / 10, decimal.exponent + 1⟩ : Decimal).digits := by
          dsimp only
          omega
        obtain ⟨digits, later⟩ := inductionHypothesis shorter
        exact ⟨digits, (Int.le_add_one le_rfl).trans later⟩
      · exact ⟨nonzero, le_rfl⟩

/-- The first of the natural numbers that a search accepts. -/
theorem findSome?_range_first
    {count : Nat}
    {search : Nat → Option Decimal}
    {decimal : Decimal}
    (found : (List.range count).findSome? search = some decimal) :
    ∃ step < count, search step = some decimal ∧ ∀ earlier < step, search earlier = none := by
  obtain ⟨before, step, after, listed, isFound, missing⟩ := List.findSome?_eq_some_iff.mp found
  have stepListed : step ∈ List.range count := by simp [listed]
  rw [List.mem_range] at stepListed
  refine ⟨step, stepListed, isFound, fun earlier less => ?_⟩
  have sorted : (List.range count).Pairwise (· < ·) := List.pairwise_lt_range
  have member : earlier ∈ List.range count := List.mem_range.mpr (less.trans stepListed)
  rw [listed] at sorted member
  have later : ∀ other ∈ after, step < other :=
    (List.pairwise_cons.mp (List.pairwise_append.mp sorted).2.1).1
  rcases List.mem_append.mp member with inBefore | inRest
  · exact missing earlier inBefore
  · rcases List.mem_cons.mp inRest with rfl | inAfter
    · omega
    · have isLater := later earlier inAfter
      omega

section Shortest

variable (tie : Tie) {significand : Nat} (nonzero : 0 < significand) (bits : significand ≤ 2 ^ 53)
variable (exponent : Int)
include nonzero bits

/-- The grid of seventeen digits is fine enough for every number. -/
theorem exists_last_gridPoint :
    ∃ decimal,
      gridPoint? tie significand exponent (leadingBound significand exponent - 1 - (17 : Nat)) =
        some decimal := by
  have leading := pow_leadingBound_lt nonzero exponent
  have significandAtMost : (significand : ℚ) ≤ 2 ^ 53 := by exact_mod_cast bits
  have unit : (0 : ℚ) < 2 ^ (exponent - 2) := zpow_pos two_pos _
  have quarters : (2 : ℚ) ^ exponent = 4 * 2 ^ (exponent - 2) := by
    rw [zpow_sub₀ two_ne_zero]
    ring
  have places :
      (10 : ℚ) ^ (leadingBound significand exponent - 2) =
        10 ^ 16 * 10 ^ (leadingBound significand exponent - 1 - (17 : Nat)) := by
    rw [← zpow_natCast, ← zpow_add₀ (by norm_num)]
    congr 1
    push_cast
    ring
  rw [places, quarters] at leading
  apply exists_gridPoint tie nonzero
  · nlinarith
  · rintro ⟨narrow, -⟩
    have significandIs : (significand : ℚ) = 2 ^ 52 := by exact_mod_cast narrow
    rw [significandIs] at leading
    linarith

/-- The shortest digits are those of the coarsest grid with a point for the number. -/
theorem exists_point_of_shortest :
    ∃ decimal : Decimal, ∃ step < 18,
      shortest tie significand exponent = dropZeros (digitCount decimal.digits) decimal ∧
        gridPoint? tie significand exponent (leadingBound significand exponent - 1 - (step : Nat)) =
          some decimal ∧
        ∀ earlier < step,
          gridPoint? tie significand exponent
            (leadingBound significand exponent - 1 - (earlier : Nat)) = none := by
  unfold shortest
  dsimp only
  split
  · rename_i decimal found
    obtain ⟨step, listed, point, missing⟩ := findSome?_range_first found
    exact ⟨decimal, step, listed, rfl, point, missing⟩
  · rename_i missing
    obtain ⟨decimal, point⟩ := exists_last_gridPoint tie nonzero bits exponent
    rw [List.findSome?_eq_none_iff] at missing
    rw [missing 17 (by decide)] at point
    cases point

/-- The shortest digits are not zero, and end at the seventeenth place at the latest. -/
theorem shortest_bounds :
    0 < (shortest tie significand exponent).digits ∧
      leadingBound significand exponent - 18 ≤ (shortest tie significand exponent).exponent := by
  obtain ⟨decimal, step, listed, digitsAre, point, -⟩ :=
    exists_point_of_shortest tie nonzero bits exponent
  obtain ⟨digits, place⟩ := digits_of_gridPoint? tie nonzero exponent _ point
  obtain ⟨kept, later⟩ := dropZeros_bounds (digitCount decimal.digits) digits
  rw [digitsAre]
  exact ⟨kept, by omega⟩

end Shortest

end AtomicCss.Decimal
