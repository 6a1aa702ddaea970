import AtomicCss.Proofs.Number.Rounding

/-!
Contract: how near a rounded ratio is to the ratio.

Owns:
- the interval of rationals that round to a number, and that a ratio lies in that of its result;
- the relative error of a rounded ratio that is neither tiny nor huge;
- ratios that become zero, and natural numbers, which stay natural.

Does not own: decimal digits.
-/

namespace AtomicCss.Binary64

/-- How far below a number the rationals begin that round to it, in units of its last place. The gap
below a power of two is half as wide. -/
def gapBelow (significand : Nat) (exponent : Int) : ℚ :=
  if significand = 2 ^ 52 ∧ leastExponent < exponent then 1 / 4 else 1 / 2

/-- A rational that rounds to `significand * 2 ^ exponent`. The ends of the interval belong to it if
the significand is even. -/
structure RoundsTo (significand : Nat) (exponent : Int) (real : ℚ) : Prop where
  low : (significand - gapBelow significand exponent) * 2 ^ exponent ≤ real
  high : real ≤ (significand + 1 / 2) * 2 ^ exponent
  inside : significand % 2 = 1 →
    (significand - gapBelow significand exponent) * 2 ^ exponent < real ∧
      real < (significand + 1 / 2) * 2 ^ exponent

private theorem gapBelow_bounds
    (significand : Nat)
    (exponent : Int) :
    0 < gapBelow significand exponent ∧ gapBelow significand exponent ≤ 1 / 2 := by
  unfold gapBelow
  split
  · norm_num
  · norm_num

/-- The interval of a number begins below it. -/
theorem lower_end_lt
    (significand : Nat)
    (exponent : Int) :
    (significand - gapBelow significand exponent) * 2 ^ exponent < significand * 2 ^ exponent := by
  have gap := (gapBelow_bounds significand exponent).1
  exact mul_lt_mul_of_pos_right (by linarith) (zpow_pos two_pos exponent)

/-- A number rounds to itself. -/
theorem roundsTo_self
    (significand : Nat)
    (exponent : Int) :
    RoundsTo significand exponent (significand * 2 ^ exponent) := by
  have unit : (0 : ℚ) < 2 ^ exponent := zpow_pos two_pos exponent
  have low := lower_end_lt significand exponent
  have high : (significand * 2 ^ exponent : ℚ) < (significand + 1 / 2) * 2 ^ exponent := by
    linarith
  exact ⟨low.le, high.le, fun _ => ⟨low, high⟩⟩

namespace RoundsTo

variable {significand : Nat} {exponent : Int} {real other : ℚ}
variable (rounds : RoundsTo significand exponent real)

include rounds

/-- Only positive rationals round to a positive number. -/
theorem pos
    (nonzero : 0 < significand) :
    0 < real := by
  have gap := (gapBelow_bounds significand exponent).2
  have unit : (0 : ℚ) < 2 ^ exponent := zpow_pos two_pos exponent
  have atLeast : (1 : ℚ) ≤ significand := by exact_mod_cast nonzero
  refine lt_of_lt_of_le (mul_pos ?_ unit) rounds.low
  linarith

/-- What rounds to a number lies at most half of a last place away. -/
theorem near :
    |real - significand * 2 ^ exponent| ≤ 1 / 2 * 2 ^ exponent := by
  have unit : (0 : ℚ) < 2 ^ exponent := zpow_pos two_pos exponent
  have width : gapBelow significand exponent * 2 ^ exponent ≤ 1 / 2 * 2 ^ exponent :=
    mul_le_mul_of_nonneg_right (gapBelow_bounds significand exponent).2 unit.le
  have low := rounds.low
  have high := rounds.high
  rw [abs_le]
  constructor
  · linarith
  · linarith

/-- What lies between a number and a larger rational that rounds to it rounds to it, too. -/
theorem of_le
    (above : significand * 2 ^ exponent ≤ other)
    (below : other ≤ real) :
    RoundsTo significand exponent other := by
  have lower : (significand - gapBelow significand exponent) * 2 ^ exponent < other :=
    (lower_end_lt significand exponent).trans_le above
  exact ⟨lower.le, below.trans rounds.high,
    fun odd => ⟨lower, below.trans_lt (rounds.inside odd).2⟩⟩

/-- What lies between a number and a smaller rational that rounds to it rounds to it, too. -/
theorem of_ge
    (above : real ≤ other)
    (below : other ≤ significand * 2 ^ exponent) :
    RoundsTo significand exponent other := by
  have unit : (0 : ℚ) < 2 ^ exponent := zpow_pos two_pos exponent
  have upper : other < (significand + 1 / 2) * 2 ^ exponent := by
    refine lt_of_le_of_lt below ?_
    linarith
  exact ⟨rounds.low.trans above, upper.le,
    fun odd => ⟨(rounds.inside odd).1.trans_le above, upper⟩⟩

end RoundsTo

/-! ## Rounding to a whole number -/

/-- A whole number at most one half away from a rational, and less if it is odd. -/
structure IsNearest (whole : Nat) (real : ℚ) : Prop where
  low : whole - 1 / 2 ≤ real
  high : real ≤ whole + 1 / 2
  inside : whole % 2 = 1 → whole - 1 / 2 < real ∧ real < whole + 1 / 2

private theorem twice_roundHalfEven_mul
    (numerator : Nat)
    {denominator : Nat}
    (positive : 0 < denominator) :
    2 * (roundHalfEven numerator denominator * denominator) ≤ 2 * numerator + denominator ∧
      2 * numerator ≤ 2 * (roundHalfEven numerator denominator * denominator) + denominator ∧
      (roundHalfEven numerator denominator % 2 = 1 →
        2 * (roundHalfEven numerator denominator * denominator) < 2 * numerator + denominator ∧
          2 * numerator <
            2 * (roundHalfEven numerator denominator * denominator) + denominator) := by
  have cut := Nat.div_add_mod' numerator denominator
  have rest := Nat.mod_lt numerator positive
  have next : (numerator / denominator + 1) * denominator =
      numerator / denominator * denominator + denominator := Nat.succ_mul _ _
  unfold roundHalfEven
  dsimp only
  split
  · omega
  · split
    · rw [next]
      omega
    · rcases Nat.mod_two_eq_zero_or_one (numerator / denominator) with even | odd
      · rw [even, Nat.add_zero]
        omega
      · rw [odd, next]
        omega

private theorem isNearest_roundHalfEven
    (numerator : Nat)
    {denominator : Nat}
    (positive : 0 < denominator) :
    IsNearest (roundHalfEven numerator denominator) (numerator / denominator) := by
  have unit : (0 : ℚ) < denominator := by exact_mod_cast positive
  obtain ⟨low, high, inside⟩ := twice_roundHalfEven_mul numerator positive
  generalize roundHalfEven numerator denominator = rounded at *
  have lowRat : (2 * (rounded * denominator) : ℚ) ≤ 2 * numerator + denominator := by
    exact_mod_cast low
  have highRat : (2 * numerator : ℚ) ≤ 2 * (rounded * denominator) + denominator := by
    exact_mod_cast high
  refine ⟨?_, ?_, fun odd => ?_⟩
  · rw [le_div_iff₀ unit]
    linarith
  · rw [div_le_iff₀ unit]
    linarith
  · obtain ⟨above, below⟩ := inside odd
    have aboveRat : (2 * (rounded * denominator) : ℚ) < 2 * numerator + denominator := by
      exact_mod_cast above
    have belowRat : (2 * numerator : ℚ) < 2 * (rounded * denominator) + denominator := by
      exact_mod_cast below
    rw [lt_div_iff₀ unit, div_lt_iff₀ unit]
    exact ⟨by linarith, by linarith⟩

/-! ## Rounded ratios -/

private theorem scaledRatio_div
    (numerator denominator : Nat)
    (exponent : Int) :
    ((scaledRatio numerator denominator exponent).1 : ℚ) /
        (scaledRatio numerator denominator exponent).2 =
      numerator / denominator / 2 ^ exponent := by
  have ratio := powerRatio_div 2 exponent
  rw [Nat.cast_two] at ratio
  rw [← ratio, scaledRatio]
  push_cast
  rw [div_div_div_eq, mul_comm (denominator : ℚ)]

def roundedBits (numerator denominator : Nat) : Nat :=
  let scaled := scaledRatio numerator denominator (targetExponent numerator denominator)
  roundHalfEven scaled.1 scaled.2

private theorem roundedParts_eq
    (numerator denominator : Nat) :
    roundedParts numerator denominator =
      if roundedBits numerator denominator = Nat.pow 2 53 then
        (Nat.pow 2 52, targetExponent numerator denominator + 1)
      else (roundedBits numerator denominator, targetExponent numerator denominator) :=
  rfl

/-- A carry changes the parts of a result and not the result. -/
theorem size_roundedParts
    (numerator denominator : Nat) :
    ((roundedParts numerator denominator).1 : ℚ) * 2 ^ (roundedParts numerator denominator).2 =
      roundedBits numerator denominator * 2 ^ targetExponent numerator denominator := by
  rw [roundedParts_eq]
  split
  · rename_i carried
    rw [carried, zpow_add_one₀ two_ne_zero]
    push_cast
    ring
  · rfl

private theorem leastExponent_le_targetExponent
    (numerator denominator : Nat) :
    leastExponent ≤ targetExponent numerator denominator := by
  rw [targetExponent_eq]
  split
  · rfl
  · omega

theorem magnitudeAtLeast_finite_iff
    (bound : Nat)
    (negative : Bool)
    (significand : Nat)
    (exponent : Int) :
    (finite negative significand exponent).magnitudeAtLeast bound = true ↔
      (bound : ℚ) ≤ significand * 2 ^ exponent := by
  have ratio := powerRatio_div 2 exponent
  have unit : (0 : ℚ) < (powerRatio 2 exponent).2 := by
    exact_mod_cast (powerRatio_pos Nat.two_pos exponent).2
  rw [Nat.cast_two] at ratio
  rw [← ratio, ← mul_div_assoc, le_div_iff₀ unit, magnitudeAtLeast, decide_eq_true_eq]
  exact_mod_cast Iff.rfl

section Ratio

variable {numerator denominator : Nat} (positive : 0 < denominator)

include positive

theorem isNearest_roundedBits :
    IsNearest (roundedBits numerator denominator)
      (numerator / denominator / 2 ^ targetExponent numerator denominator) := by
  rw [← scaledRatio_div]
  exact isNearest_roundHalfEven _ (Nat.mul_pos positive (powerRatio_pos Nat.two_pos _).1)

variable (nonzero : 0 < numerator)

include nonzero

/-- A ratio rounds to its result. -/
theorem roundsTo_roundedParts :
    RoundsTo (roundedParts numerator denominator).1 (roundedParts numerator denominator).2
      (numerator / denominator) := by
  obtain ⟨below, full, -⟩ := targetExponent_bounds positive nonzero
  have least := leastExponent_le_targetExponent numerator denominator
  obtain ⟨low, high, inside⟩ := @isNearest_roundedBits numerator _ positive
  rw [roundedParts_eq]
  generalize roundedBits numerator denominator = bits at *
  generalize targetExponent numerator denominator = exponent at *
  generalize (numerator / denominator : ℚ) = real at *
  have unit : (0 : ℚ) < 2 ^ exponent := zpow_pos two_pos exponent
  rw [le_div_iff₀ unit] at low
  rw [div_le_iff₀ unit] at high
  have even : ¬(2 ^ 52) % 2 = 1 := by decide
  split
  · -- The carry leaves a power of two, and all that is rounded up to it lies in its narrow gap.
    rename_i carried
    have isNarrow : gapBelow (Nat.pow 2 52) (exponent + 1) = 1 / 4 :=
      if_pos ⟨rfl, Int.lt_add_one_of_le least⟩
    rw [carried] at low
    push_cast at low
    refine ⟨?_, ?_, fun odd => absurd odd even⟩
    · rw [isNarrow, zpow_add_one₀ two_ne_zero]
      push_cast
      linarith
    · rw [zpow_add_one₀ two_ne_zero]
      push_cast
      linarith
  · by_cases narrow : bits = 2 ^ 52 ∧ leastExponent < exponent
    · have atLeast := full.resolve_left narrow.2.ne'
      have isNarrow : gapBelow bits exponent = 1 / 4 := if_pos narrow
      rw [narrow.1] at high isNarrow ⊢
      push_cast at high
      refine ⟨?_, ?_, fun odd => absurd odd even⟩
      · rw [isNarrow]
        push_cast
        linarith
      · push_cast
        linarith
    · have isWide : gapBelow bits exponent = 1 / 2 := if_neg narrow
      rw [← isWide] at low
      refine ⟨low, high, fun odd => ?_⟩
      obtain ⟨above, under⟩ := inside odd
      rw [lt_div_iff₀ unit] at above
      rw [div_lt_iff₀ unit] at under
      rw [isWide]
      exact ⟨above, under⟩

/-- A ratio that is not tiny has 53 bits above the exponent it is rounded at. -/
theorem full_of_normal
    (normal : (2 : ℚ) ^ (-1022 : Int) ≤ numerator / denominator) :
    (2 : ℚ) ^ 52 * 2 ^ targetExponent numerator denominator ≤ numerator / denominator := by
  obtain ⟨-, least | full, -⟩ := targetExponent_bounds positive nonzero
  · calc (2 : ℚ) ^ 52 * 2 ^ targetExponent numerator denominator
        = 2 ^ (52 + leastExponent) := by
          rw [least, zpow_add₀ two_ne_zero]
          norm_num
      _ ≤ numerator / denominator := normal
  · exact full

/-- The last place of a result is small next to a ratio that is not tiny. -/
theorem unit_roundedParts_le
    (normal : (2 : ℚ) ^ (-1022 : Int) ≤ numerator / denominator) :
    (2 : ℚ) ^ 51 * 2 ^ (roundedParts numerator denominator).2 ≤ numerator / denominator := by
  have full := full_of_normal positive nonzero normal
  have unit : (0 : ℚ) < 2 ^ targetExponent numerator denominator := zpow_pos two_pos _
  rw [roundedParts_eq]
  split
  · rw [zpow_add_one₀ two_ne_zero]
    linarith
  · linarith

/-- A ratio that is not tiny differs from its result by a small part of itself. -/
theorem roundedParts_close
    (normal : (2 : ℚ) ^ (-1022 : Int) ≤ numerator / denominator) :
    (numerator / denominator : ℚ) * (1 - 1 / 2 ^ 53) ≤
        (roundedParts numerator denominator).1 * 2 ^ (roundedParts numerator denominator).2 ∧
      (roundedParts numerator denominator).1 * 2 ^ (roundedParts numerator denominator).2 ≤
        (numerator / denominator : ℚ) * (1 + 1 / 2 ^ 53) := by
  have full := full_of_normal positive nonzero normal
  obtain ⟨low, high, -⟩ := @isNearest_roundedBits numerator _ positive
  have unit : (0 : ℚ) < 2 ^ targetExponent numerator denominator := zpow_pos two_pos _
  rw [le_div_iff₀ unit] at low
  rw [div_le_iff₀ unit] at high
  rw [size_roundedParts]
  constructor
  · linarith
  · linarith

/-- A ratio whose exponent is too large is huge. -/
theorem huge_of_exponent
    (huge : greatestExponent < (roundedParts numerator denominator).2) :
    (2 : ℚ) ^ (1023 : Int) ≤ numerator / denominator := by
  obtain ⟨-, full, -⟩ := targetExponent_bounds positive nonzero
  have target : 971 ≤ targetExponent numerator denominator := by
    rw [roundedParts_eq, greatestExponent] at huge
    split at huge
    · dsimp only at huge
      omega
    · dsimp only at huge
      omega
  have notLeast : targetExponent numerator denominator ≠ leastExponent := by
    rw [leastExponent]
    omega
  calc (2 : ℚ) ^ (1023 : Int) ≤ 2 ^ (52 + targetExponent numerator denominator) :=
        zpow_le_zpow_right₀ one_le_two (by omega)
    _ = 2 ^ 52 * 2 ^ targetExponent numerator denominator := by
        rw [zpow_add₀ two_ne_zero]
        norm_num
    _ ≤ numerator / denominator := full.resolve_left notLeast

/-- A ratio that is not huge has a finite result. -/
theorem ofRatio_of_lt
    (negative : Bool)
    (small : (numerator / denominator : ℚ) < 2 ^ (1023 : Int)) :
    ofRatio negative numerator denominator =
      .finite negative (roundedParts numerator denominator).1
        (roundedParts numerator denominator).2 := by
  rw [ofRatio_eq negative nonzero, if_neg]
  intro huge
  exact absurd (huge_of_exponent positive nonzero huge) (not_le.mpr small)

/-- A ratio becomes zero up to half of the least positive number. -/
theorem roundedBits_eq_zero_iff :
    roundedBits numerator denominator = 0 ↔ (numerator / denominator : ℚ) ≤ 2 ^ (-1075 : Int) := by
  obtain ⟨-, full, -⟩ := targetExponent_bounds positive nonzero
  obtain ⟨low, high, inside⟩ := @isNearest_roundedBits numerator _ positive
  have ratioPositive : (0 : ℚ) < numerator / denominator :=
    div_pos (by exact_mod_cast nonzero) (by exact_mod_cast positive)
  have least := leastExponent_le_targetExponent numerator denominator
  have unit : (0 : ℚ) < 2 ^ targetExponent numerator denominator := zpow_pos two_pos _
  have half : (2 : ℚ) ^ leastExponent = 2 * 2 ^ (-1075 : Int) := by
    rw [← zpow_one_add₀ two_ne_zero]
    rfl
  have atLeast : (2 : ℚ) ^ leastExponent ≤ 2 ^ targetExponent numerator denominator :=
    zpow_le_zpow_right₀ one_le_two least
  generalize roundedBits numerator denominator = bits at *
  rw [le_div_iff₀ unit] at low
  rw [div_le_iff₀ unit] at high
  rw [lt_div_iff₀ unit] at inside
  constructor
  · rintro rfl
    rw [Nat.cast_zero] at high
    rcases full with same | full
    · rw [same] at high
      linarith
    · linarith
  · intro small
    have same : targetExponent numerator denominator = leastExponent :=
      full.resolve_right (by intro full; linarith)
    rw [same] at low inside
    -- One half is rounded to the even zero, and more is not small.
    by_contra someBits
    have one : (1 : ℚ) ≤ bits := by exact_mod_cast Nat.one_le_iff_ne_zero.mpr someBits
    have tiny : (0 : ℚ) < 2 ^ (-1075 : Int) := zpow_pos two_pos _
    rw [half] at low inside
    have atMost : (bits : ℚ) - 1 / 2 ≤ 1 / 2 := by
      refine le_of_mul_le_mul_right ?_ (mul_pos two_pos tiny)
      linarith
    have isOne : (bits : ℚ) = 1 := by linarith
    have odd : bits = 1 := by exact_mod_cast isOne
    subst odd
    have above := (inside rfl).1
    rw [Nat.cast_one] at above
    linarith

/-- From how much on a ratio becomes ten or more. -/
theorem ten_le_size_iff :
    (10 : ℚ) ≤ roundedBits numerator denominator * 2 ^ targetExponent numerator denominator ↔
      (10 - 1 / 2 ^ 50 : ℚ) ≤ numerator / denominator := by
  obtain ⟨below, full, -⟩ := targetExponent_bounds positive nonzero
  obtain ⟨low, high, inside⟩ := @isNearest_roundedBits numerator _ positive
  generalize roundedBits numerator denominator = bits at *
  generalize targetExponent numerator denominator = exponent at *
  generalize (numerator / denominator : ℚ) = real at *
  have unit : (0 : ℚ) < 2 ^ exponent := zpow_pos two_pos exponent
  rw [le_div_iff₀ unit] at low
  rw [div_le_iff₀ unit] at high
  rw [div_lt_iff₀ unit] at inside
  rcases lt_trichotomy exponent (-49) with finer | rfl | coarser
  · -- Below eight, neither is the case.
    have small : (2 : ℚ) ^ exponent ≤ 2 ^ (-50 : Int) :=
      zpow_le_zpow_right₀ one_le_two (by omega)
    norm_num at small
    constructor
    · intro large
      linarith
    · intro large
      linarith
  · -- Ten is even, so one half of the last place below it is enough.
    norm_num at low high inside ⊢
    constructor
    · intro large
      linarith
    · intro large
      by_contra less
      have bitsBelow : bits < 10 * 2 ^ 49 := by
        have lessRat : (bits : ℚ) < 10 * 2 ^ 49 := by linarith
        exact_mod_cast lessRat
      rcases Nat.lt_or_ge bits (10 * 2 ^ 49 - 1) with farther | next
      · have fartherRat : (bits : ℚ) ≤ 10 * 2 ^ 49 - 2 := by
          have plain : bits + 2 ≤ 10 * 2 ^ 49 := by omega
          have plainRat : (bits : ℚ) + 2 ≤ 10 * 2 ^ 49 := by exact_mod_cast plain
          linarith
        linarith
      · have isNext : bits = 10 * 2 ^ 49 - 1 := by omega
        have under := (inside (by omega)).2
        rw [isNext] at under
        norm_num at under
        linarith
  · -- From sixteen on, both are the case.
    have large : (2 : ℚ) ^ (-48 : Int) ≤ 2 ^ exponent :=
      zpow_le_zpow_right₀ one_le_two (by omega)
    have notLeast : exponent ≠ leastExponent := by
      rw [leastExponent]
      omega
    have atLeast := full.resolve_left notLeast
    norm_num at large
    constructor
    · intro _
      linarith
    · intro _
      linarith

theorem isZero_ofRatio_iff
    (negative : Bool) :
    (ofRatio negative numerator denominator).isZero = true ↔
      (numerator / denominator : ℚ) ≤ 2 ^ (-1075 : Int) := by
  rw [ofRatio_eq negative nonzero]
  split
  · rename_i huge
    have large := huge_of_exponent positive nonzero huge
    have order : (2 : ℚ) ^ (-1075 : Int) < 2 ^ (1023 : Int) :=
      zpow_lt_zpow_right₀ one_lt_two (by decide)
    simp only [isZero, Bool.false_eq_true, false_iff, not_le]
    exact order.trans_le large
  · rw [← roundedBits_eq_zero_iff positive nonzero, isZero, decide_eq_true_eq, roundedParts_eq]
    split
    · rename_i carried
      rw [carried]
      simp
    · rfl

theorem magnitudeAtLeast_ten_ofRatio_iff
    (negative : Bool) :
    (ofRatio negative numerator denominator).magnitudeAtLeast 10 = true ↔
      (10 - 1 / 2 ^ 50 : ℚ) ≤ numerator / denominator := by
  rw [ofRatio_eq negative nonzero]
  split
  · rename_i huge
    have large := huge_of_exponent positive nonzero huge
    simp only [magnitudeAtLeast, true_iff]
    calc (10 - 1 / 2 ^ 50 : ℚ) ≤ 2 ^ (4 : Int) := by norm_num
      _ ≤ 2 ^ (1023 : Int) := zpow_le_zpow_right₀ one_le_two (by decide)
      _ ≤ numerator / denominator := large
  · rw [magnitudeAtLeast_finite_iff, ← ten_le_size_iff positive nonzero, ← size_roundedParts]
    rfl

end Ratio

/-- A whole number is the nearest one to itself only. -/
theorem IsNearest.eq
    {whole other : Nat}
    (nearest : IsNearest whole other) :
    whole = other := by
  obtain ⟨low, high, -⟩ := nearest
  have above : (whole : ℚ) < other + 1 := by linarith
  have below : (other : ℚ) < whole + 1 := by linarith
  have aboveNat : whole < other + 1 := by exact_mod_cast above
  have belowNat : other < whole + 1 := by exact_mod_cast below
  omega

/-- A natural number stays natural, and the same below the numbers of 54 bits. -/
theorem exists_nat_size
    {value : Nat}
    (nonzero : 0 < value) :
    ∃ whole : Nat,
      ((roundedParts value 1).1 : ℚ) * 2 ^ (roundedParts value 1).2 = whole ∧
        (value < 2 ^ 53 → whole = value) := by
  obtain ⟨-, full, -⟩ := targetExponent_bounds Nat.one_pos nonzero
  have nearest := @isNearest_roundedBits value 1 Nat.one_pos
  rw [size_roundedParts]
  generalize roundedBits value 1 = bits at *
  generalize targetExponent value 1 = exponent at *
  rw [Nat.cast_one, div_one] at *
  rcases le_or_gt exponent 0 with fine | coarse
  · obtain ⟨places, exponentIs⟩ := Int.eq_ofNat_of_zero_le (Int.neg_nonneg.mpr fine)
    obtain rfl : exponent = -(places : Int) := by omega
    have scaled : (value : ℚ) / 2 ^ (-(places : Int)) = (value * 2 ^ places : Nat) := by
      simp
    rw [scaled] at nearest
    refine ⟨value, ?_, fun _ => rfl⟩
    rw [nearest.eq]
    simp
  · obtain ⟨power, rfl⟩ := Int.eq_ofNat_of_zero_le coarse.le
    refine ⟨bits * 2 ^ power, by simp, fun small => ?_⟩
    have notLeast : (power : Int) ≠ leastExponent := by
      rw [leastExponent]
      omega
    have atLeast := full.resolve_left notLeast
    have atLeastNat : 2 ^ 52 * 2 ^ power ≤ value := by exact_mod_cast atLeast
    have two : 2 ^ 1 ≤ 2 ^ power := Nat.pow_le_pow_right Nat.two_pos (by omega)
    omega

end AtomicCss.Binary64
