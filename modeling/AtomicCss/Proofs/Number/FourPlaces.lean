import AtomicCss.Proofs.Number.Nearest
import AtomicCss.Proofs.Number.StyleText

/-!
Contract: rounding to four places, each step in binary64.

Owns:
- bounds on a number, and what a product or a quotient does to them;
- that a number rounded to four places is the nearest one to some multiple of a ten-thousandth;
- that a time in milliseconds with at most one digit after its point becomes the nearest number to
  that time in seconds.

Does not own: how the rounded number is written.
-/

namespace AtomicCss.Binary64

def LiesBetween (value : Binary64) (negative : Bool) (low high : ℚ) : Prop :=
  ∃ significand exponent, value = .finite negative significand exponent ∧
    low ≤ significand * 2 ^ exponent ∧ significand * 2 ^ exponent ≤ high

/-- A positive rational that is neither tiny nor huge. -/
def IsModerate (real : ℚ) : Prop :=
  1 / 2 ^ 100 ≤ real ∧ real ≤ 2 ^ 100

/-! ## One operation -/

section Moderate

variable {numerator denominator : Nat} (positive : 0 < denominator)
variable (moderate : IsModerate (numerator / denominator))

include moderate

theorem IsModerate.nonzero :
    0 < numerator := by
  rw [Nat.pos_iff_ne_zero]
  rintro rfl
  have low := moderate.1
  norm_num at low

theorem IsModerate.normal :
    (2 : ℚ) ^ (-1022 : Int) ≤ numerator / denominator := by
  refine le_trans ?_ moderate.1
  rw [one_div, ← zpow_natCast, ← zpow_neg]
  exact zpow_le_zpow_right₀ one_le_two (by decide)

include positive

theorem IsModerate.ofRatio_eq
    (negative : Bool) :
    ofRatio negative numerator denominator =
      .finite negative (roundedParts numerator denominator).1
        (roundedParts numerator denominator).2 := by
  apply ofRatio_of_lt positive moderate.nonzero
  refine moderate.2.trans_lt ?_
  rw [← zpow_natCast]
  exact zpow_lt_zpow_right₀ one_lt_two (by decide)

theorem liesBetween_ofRatio
    (negative : Bool) :
    LiesBetween (ofRatio negative numerator denominator) negative
      (numerator / denominator * (1 - 1 / 2 ^ 53)) (numerator / denominator * (1 + 1 / 2 ^ 53)) :=
  ⟨_, _, moderate.ofRatio_eq positive negative,
    roundedParts_close positive moderate.nonzero moderate.normal⟩

end Moderate

section Operations

variable {negative : Bool} {significand other : Nat} {exponent power : Int}

/-- The product of two numbers, as the ratio that is rounded. -/
theorem exists_ratio_mul :
    ∃ numerator denominator : Nat, 0 < denominator ∧
      (numerator / denominator : ℚ) = significand * 2 ^ exponent * (other * 2 ^ power) ∧
      (finite negative significand exponent).mul (finite false other power) =
        ofRatio negative numerator denominator := by
  have ratio := powerRatio_div 2 (exponent + power)
  rw [Nat.cast_two, zpow_add₀ two_ne_zero] at ratio
  refine ⟨significand * other * (powerRatio 2 (exponent + power)).1,
    (powerRatio 2 (exponent + power)).2, (powerRatio_pos Nat.two_pos _).2, ?_, ?_⟩
  · rw [Nat.cast_mul, mul_div_assoc, ratio]
    push_cast
    ring
  · rw [mul, Bool.bne_false]

/-- The quotient of two numbers, as the ratio that is rounded. -/
theorem exists_ratio_div
    (nonzero : 0 < other) :
    ∃ numerator denominator : Nat, 0 < denominator ∧
      (numerator / denominator : ℚ) = significand * 2 ^ exponent / (other * 2 ^ power) ∧
      (finite negative significand exponent).div (finite false other power) =
        ofRatio negative numerator denominator := by
  have ratio := powerRatio_div 2 (exponent - power)
  rw [Nat.cast_two, zpow_sub₀ two_ne_zero] at ratio
  refine ⟨significand * (powerRatio 2 (exponent - power)).1,
    other * (powerRatio 2 (exponent - power)).2,
    Nat.mul_pos nonzero (powerRatio_pos Nat.two_pos _).2, ?_, ?_⟩
  · push_cast
    rw [mul_div_mul_comm, ratio, mul_div_mul_comm]
  · rw [div, if_neg nonzero.ne', Bool.bne_false]

end Operations

/-- A thousand as a binary64 number. -/
theorem ofNat_thousand :
    ofNat 1000 = .finite false (1000 * 2 ^ 43) (-43) := by
  decide +kernel

section Bounds

variable {value : Binary64} {negative : Bool} {low high : ℚ}
variable (lies : LiesBetween value negative low high)
variable (moderateLow : 1 / 2 ^ 50 ≤ low) (moderateHigh : high ≤ 2 ^ 50)

include lies moderateLow moderateHigh

private theorem LiesBetween.div_thousand :
    LiesBetween (value.div (ofNat 1000)) negative (low / 1000 * (1 - 1 / 2 ^ 53))
      (high / 1000 * (1 + 1 / 2 ^ 53)) := by
  obtain ⟨significand, exponent, rfl, above, below⟩ := lies
  obtain ⟨numerator, denominator, positive, ratio, quotient⟩ :=
    @exists_ratio_div negative significand (1000 * 2 ^ 43) exponent (-43) (by norm_num)
  have divided : (numerator / denominator : ℚ) = significand * 2 ^ exponent / 1000 := by
    rw [ratio]
    norm_num
  have moderate : IsModerate (numerator / denominator) := by
    rw [divided]
    constructor
    · linarith
    · linarith
  obtain ⟨rounded, place, finite, atLeast, atMost⟩ :=
    liesBetween_ofRatio positive moderate negative
  rw [divided] at atLeast atMost
  rw [ofNat_thousand, quotient]
  exact ⟨rounded, place, finite, by linarith, by linarith⟩

private theorem LiesBetween.mul_ten_thousand :
    LiesBetween (value.mul (ofNat 10000)) negative (low * 10000 * (1 - 1 / 2 ^ 53))
      (high * 10000 * (1 + 1 / 2 ^ 53)) := by
  obtain ⟨significand, exponent, rfl, above, below⟩ := lies
  obtain ⟨numerator, denominator, positive, ratio, product⟩ :=
    @exists_ratio_mul negative significand (10000 * 2 ^ 39) exponent (-39)
  have multiplied : (numerator / denominator : ℚ) = significand * 2 ^ exponent * 10000 := by
    rw [ratio]
    norm_num
  have moderate : IsModerate (numerator / denominator) := by
    rw [multiplied]
    constructor
    · linarith
    · linarith
  obtain ⟨rounded, place, finite, atLeast, atMost⟩ :=
    liesBetween_ofRatio positive moderate negative
  rw [multiplied] at atLeast atMost
  rw [ofNat_ten_thousand, product]
  exact ⟨rounded, place, finite, by linarith, by linarith⟩

end Bounds

/-! ## Whole numbers -/

/-- A number with an exponent that is not negative is natural. -/
theorem exists_nat_eq
    (significand : Nat)
    {exponent : Int}
    (nonnegative : 0 ≤ exponent) :
    ∃ whole : Nat, (significand * 2 ^ exponent : ℚ) = whole := by
  obtain ⟨power, rfl⟩ := Int.eq_ofNat_of_zero_le nonnegative
  exact ⟨significand * 2 ^ power, by simp⟩

/-- A finite result of rounding is the result for a positive ratio, or zero. -/
theorem parts_of_ofRatio
    {negative sign : Bool}
    {numerator denominator significand : Nat}
    {exponent : Int}
    (finite : ofRatio negative numerator denominator = .finite sign significand exponent)
    (nonzero : 0 < significand) :
    0 < numerator ∧ sign = negative ∧
      roundedParts numerator denominator = (significand, exponent) := by
  rcases Nat.eq_zero_or_pos numerator with rfl | positive
  · exact absurd (significand_of_ofRatio_zero finite) nonzero.ne'
  · rw [ofRatio_eq negative positive] at finite
    split at finite
    · cases finite
    · obtain ⟨rfl, rfl, rfl⟩ := Binary64.finite.inj finite
      exact ⟨positive, rfl, rfl⟩

/-- A number rounded to a whole one is natural. -/
theorem exists_nat_of_roundHalfAway
    {value : Binary64}
    {negative : Bool}
    {significand : Nat}
    {exponent : Int}
    (rounded : value.roundHalfAway = .finite negative significand exponent)
    (nonzero : 0 < significand) :
    ∃ whole : Nat, 0 < whole ∧ (significand * 2 ^ exponent : ℚ) = whole := by
  have size : (0 : ℚ) < significand * 2 ^ exponent := by positivity
  have found : ∃ whole : Nat, (significand * 2 ^ exponent : ℚ) = whole := by
    cases value with
    | infinite _ | nan => cases rounded
    | finite sign whole power =>
        rw [roundHalfAway] at rounded
        split at rounded
        · rename_i nonnegative
          obtain ⟨-, -, rfl⟩ := Binary64.finite.inj rounded
          exact exists_nat_eq significand nonnegative
        · obtain ⟨positive, -, parts⟩ := parts_of_ofRatio rounded nonzero
          obtain ⟨whole, same, -⟩ := exists_nat_size positive
          rw [parts] at same
          exact ⟨whole, same⟩
  obtain ⟨whole, same⟩ := found
  rw [same] at size
  exact ⟨whole, by exact_mod_cast size, same⟩

private theorem div_eq_of_near
    {significand places whole : Nat}
    (above : (whole : ℚ) - 1 / 2 < significand * 2 ^ (-(places : Int)))
    (below : (significand * 2 ^ (-(places : Int)) : ℚ) < whole + 1 / 2) :
    (2 * significand + Nat.pow 2 places) / (2 * Nat.pow 2 places) = whole := by
  have unit : (0 : ℚ) < 2 ^ places := by positivity
  rw [zpow_neg, zpow_natCast, ← div_eq_mul_inv] at above below
  rw [lt_div_iff₀ unit] at above
  rw [div_lt_iff₀ unit] at below
  have atLeast : (2 * whole * 2 ^ places : ℚ) < 2 * significand + 2 ^ places := by linarith
  have atMost : (2 * significand : ℚ) < 2 * whole * 2 ^ places + 2 ^ places := by linarith
  have atLeastNat : 2 * whole * 2 ^ places < 2 * significand + 2 ^ places := by
    exact_mod_cast atLeast
  have atMostNat : 2 * significand < 2 * whole * 2 ^ places + 2 ^ places := by
    exact_mod_cast atMost
  apply Nat.div_eq_of_lt_le
  · rw [Nat.pow_eq]
    linarith
  · rw [Nat.pow_eq]
    linarith

/-- A number that is less than one half away from a natural number is rounded to it. -/
theorem LiesBetween.exists_roundHalfAway
    {value : Binary64}
    {negative : Bool}
    {low high : ℚ}
    (lies : LiesBetween value negative low high)
    {whole : Nat}
    (nonzero : 0 < whole)
    (small : whole < 2 ^ 53)
    (above : (whole : ℚ) - 1 / 2 < low)
    (below : high < whole + 1 / 2) :
    ∃ significand exponent, value.roundHalfAway = .finite negative significand exponent ∧
      (significand * 2 ^ exponent : ℚ) = whole := by
  obtain ⟨significand, exponent, rfl, atLeast, atMost⟩ := lies
  rw [roundHalfAway]
  split
  · rename_i nonnegative
    obtain ⟨other, same⟩ := exists_nat_eq significand nonnegative
    have nearest : IsNearest other whole := by
      rw [same] at atLeast atMost
      exact ⟨by linarith, by linarith, fun _ => ⟨by linarith, by linarith⟩⟩
    rw [nearest.eq] at same
    exact ⟨significand, exponent, rfl, same⟩
  · rename_i isNegative
    obtain ⟨places, exponentIs⟩ :=
      Int.eq_ofNat_of_zero_le (Int.neg_nonneg.mpr (by omega : exponent ≤ 0))
    obtain rfl : exponent = -(places : Int) := by omega
    have cut := div_eq_of_near (above.trans_le atLeast) (atMost.trans_lt below)
    have finite : ((whole : Nat) / (1 : Nat) : ℚ) < 2 ^ (1023 : Int) := by
      have smallRat : (whole : ℚ) < 2 ^ 53 := by exact_mod_cast small
      rw [Nat.cast_one, div_one]
      refine smallRat.trans ?_
      rw [← zpow_natCast]
      exact zpow_lt_zpow_right₀ one_lt_two (by decide)
    obtain ⟨natural, same, kept⟩ := exists_nat_size nonzero
    rw [kept small] at same
    refine ⟨_, _, ?_, same⟩
    dsimp only
    rw [neg_neg, Int.toNat_natCast, cut]
    exact ofRatio_of_lt Nat.one_pos nonzero negative finite

/-! ## Four places -/

/-- A number rounded to four places is the nearest one to a multiple of a ten-thousandth. -/
theorem exists_roundsTo_of_roundToFourPlaces
    {value : Binary64}
    {negative : Bool}
    {significand : Nat}
    {exponent : Int}
    (rounded : value.roundToFourPlaces = .finite negative significand exponent)
    (nonzero : 0 < significand) :
    ∃ whole : Nat, 0 < whole ∧ RoundsTo significand exponent (whole / 10000) := by
  unfold roundToFourPlaces at rounded
  rw [ofNat_ten_thousand] at rounded
  cases scaled : (value.mul (.finite false (10000 * 2 ^ 39) (-39))).roundHalfAway with
  | infinite _ | nan =>
      rw [scaled] at rounded
      cases rounded
  | finite sign digits power =>
      obtain ⟨numerator, denominator, positive, ratio, quotient⟩ :=
        @exists_ratio_div sign digits (10000 * 2 ^ 39) power (-39) (by norm_num)
      rw [scaled, quotient] at rounded
      obtain ⟨numeratorPositive, -, parts⟩ := parts_of_ofRatio rounded nonzero
      have someDigits : 0 < digits := by
        rw [Nat.pos_iff_ne_zero]
        rintro rfl
        rw [Nat.cast_zero, zero_mul, zero_div, div_eq_zero_iff] at ratio
        have impossible : numerator = 0 ∨ denominator = 0 := by exact_mod_cast ratio
        omega
      obtain ⟨whole, wholePositive, size⟩ := exists_nat_of_roundHalfAway scaled someDigits
      have roundsTo := roundsTo_roundedParts positive numeratorPositive
      rw [parts, ratio, size] at roundsTo
      norm_num at roundsTo
      exact ⟨whole, wholePositive, roundsTo⟩

/-- A time of so many tenths of a millisecond, read as a binary64 number, in seconds. -/
theorem exists_seconds
    {value : Binary64}
    {negative : Bool}
    {tenths : Nat}
    (nonzero : 0 < tenths)
    (small : tenths < 10 ^ 15)
    (close : LiesBetween value negative (tenths / 10 * (1 - 1 / 2 ^ 53))
      (tenths / 10 * (1 + 1 / 2 ^ 53))) :
    ∃ significand exponent,
      (value.div (ofNat 1000)).roundToFourPlaces = .finite negative significand exponent ∧
        0 < significand ∧ RoundsTo significand exponent (tenths / 10000) ∧
        (2 : ℚ) ^ 51 * 2 ^ exponent ≤ tenths / 10000 := by
  have atLeast : (1 : ℚ) ≤ tenths := by exact_mod_cast nonzero
  have atMost : (tenths : ℚ) ≤ 10 ^ 15 := by exact_mod_cast small.le
  have scaled := (close.div_thousand (by linarith) (by linarith)).mul_ten_thousand
    (by linarith) (by linarith)
  obtain ⟨digits, power, wholeIs, size⟩ :=
    scaled.exists_roundHalfAway nonzero (by omega) (by linarith) (by linarith)
  obtain ⟨numerator, denominator, positive, ratio, quotient⟩ :=
    @exists_ratio_div negative digits (10000 * 2 ^ 39) power (-39) (by norm_num)
  have divided : (numerator / denominator : ℚ) = tenths / 10000 := by
    rw [ratio, size]
    norm_num
  have moderate : IsModerate (numerator / denominator) := by
    rw [divided]
    constructor
    · linarith
    · linarith
  have result : (value.div (ofNat 1000)).roundToFourPlaces =
      ofRatio negative numerator denominator := by
    rw [roundToFourPlaces, wholeIs, ofNat_ten_thousand, quotient]
  rw [result, moderate.ofRatio_eq positive, ← divided]
  have closeToo := (roundedParts_close positive moderate.nonzero moderate.normal).1
  refine ⟨_, _, rfl, ?_, roundsTo_roundedParts positive moderate.nonzero,
    unit_roundedParts_le positive moderate.nonzero moderate.normal⟩
  rw [Nat.pos_iff_ne_zero]
  intro zero
  rw [zero, Nat.cast_zero, zero_mul, divided] at closeToo
  linarith

end AtomicCss.Binary64
