import AtomicCss.Proofs.Number.FourPlaces
import AtomicCss.Proofs.Number.ReadingBack

/-!
Contract: written numbers as exact amounts.

Owns:
- the exact amount of a number in digits;
- when its binary64 number is zero, is ten or more, and how near it is to the amount;
- the exact amount of the text of a style number, a multiple of a ten-thousandth.

Does not own: units.
-/

namespace AtomicCss

/-! ## Decimals -/

namespace Decimal

theorem liesBetween_toBinary64
    {decimal : Decimal}
    (moderate : Binary64.IsModerate decimal.toRat)
    (negative : Bool) :
    Binary64.LiesBetween (decimal.toBinary64 negative) negative
      (decimal.toRat * (1 - 1 / 2 ^ 53)) (decimal.toRat * (1 + 1 / 2 ^ 53)) := by
  rcases toBinary64_cases negative decimal with
    ⟨small, -⟩ | ⟨large, -⟩ | ⟨numerator, denominator, nonzero, positive, ratio, same⟩
  · have order : (2 : ℚ) ^ (-1075 : Int) < 2 ^ (-100 : Int) :=
      zpow_lt_zpow_right₀ one_lt_two (by decide)
    have low := moderate.1
    rw [one_div, ← zpow_natCast, ← zpow_neg] at low
    exact absurd (low.trans small) (not_le.mpr order)
  · have order : (2 : ℚ) ^ (100 : Int) < 2 ^ (1023 : Int) :=
      zpow_lt_zpow_right₀ one_lt_two (by decide)
    have high := moderate.2
    rw [← zpow_natCast] at high
    exact absurd (large.trans high) (not_le.mpr order)
  · rw [← ratio] at moderate ⊢
    rw [same]
    exact Binary64.liesBetween_ofRatio positive moderate negative

end Decimal

/-! ## Written numbers -/

namespace Numeral

variable (numeral : Numeral)

def decimal : Decimal :=
  Decimal.ofParts numeral.whole (numeral.fraction.getD []) 0

def amount : ℚ :=
  if numeral.sign = some '-' then -numeral.decimal.toRat else numeral.decimal.toRat

theorem value_eq :
    numeral.value = numeral.decimal.toBinary64 (numeral.sign = some '-') :=
  rfl

theorem abs_amount :
    |numeral.amount| = numeral.decimal.toRat := by
  have nonnegative := abs_of_nonneg numeral.decimal.toRat_nonneg
  unfold amount
  split
  · rw [abs_neg, nonnegative]
  · exact nonnegative

/-- A number is read as zero up to half of the least positive binary64 number. -/
theorem isZero_value_iff :
    numeral.value.isZero = true ↔ |numeral.amount| ≤ 2 ^ (-1075 : Int) := by
  rw [value_eq, abs_amount]
  exact Decimal.isZero_toBinary64_iff _ numeral.decimal

/-- A number is read as ten or more from half of a last place below ten on. -/
theorem magnitudeAtLeast_ten_value_iff :
    numeral.value.magnitudeAtLeast 10 = true ↔ 10 - 1 / 2 ^ 50 ≤ |numeral.amount| := by
  rw [value_eq, abs_amount]
  exact Decimal.magnitudeAtLeast_ten_toBinary64_iff _ numeral.decimal

/-- The short spelling stands for the same amount. -/
theorem amount_short :
    numeral.short.amount = numeral.amount := by
  have same : numeral.short.decimal = numeral.decimal := numeral.ofParts_shortWhole
  rw [amount, amount, same]
  exact if_congr numeral.sign_short_iff rfl rfl

end Numeral

/-! ## Texts of style numbers -/

private theorem decimal_ascii
    (negative : Bool)
    {whole : List Char}
    {fraction : Option (List Char)}
    (digits : ∀ digit ∈ whole ++ fraction.getD [], digit.isDigit = true)
    (filled : whole ≠ [] ∨ fraction.getD [] ≠ []) :
    (Numeral.ascii negative whole fraction digits filled).decimal =
      ⟨Decimal.digitsValue (whole ++ fraction.getD []), 0 - (fraction.getD []).length⟩ :=
  rfl

/-- Digits that are written out stand for the decimal. -/
theorem exists_numeral_writePositional
    (negative : Bool)
    (decimal : Decimal) :
    ∃ numeral : Numeral,
      numeral.text = (if negative then ['-'] else []) ++
        (NumberFormat.writePositional "" decimal).toList ∧
      numeral.IsAscii ∧ numeral.sign = (if negative then some '-' else none) ∧
      numeral.decimal.toRat = decimal.toRat := by
  obtain ⟨whole, fraction, text, digits, filled, value, length⟩ :=
    exists_parts_writePositional decimal
  refine ⟨Numeral.ascii negative whole fraction digits (.inl filled), ?_, digits, rfl, ?_⟩
  · rw [Numeral.text_ascii, text]
  · have split : (10 : ℚ) ^ decimal.exponent =
        10 ^ decimal.exponent.toNat * 10 ^ (0 - ((-decimal.exponent).toNat : Int)) := by
      rw [← zpow_natCast, ← zpow_add₀ (by norm_num)]
      congr 1
      omega
    rw [decimal_ascii, Decimal.toRat, Decimal.toRat, value, length, split]
    push_cast
    ring

/-- A whole number stands for itself. -/
theorem exists_numeral_repr
    (negative : Bool)
    (magnitude : Nat) :
    ∃ numeral : Numeral,
      numeral.text = (if negative then ['-'] else []) ++ (Nat.repr magnitude).toList ∧
      numeral.IsAscii ∧ numeral.sign = (if negative then some '-' else none) ∧
      numeral.decimal.toRat = magnitude := by
  obtain ⟨numeral, text, ascii, sign, amount⟩ :=
    exists_numeral_writePositional negative ⟨magnitude, 0⟩
  refine ⟨numeral, ?_, ascii, sign, ?_⟩
  · rw [text]
    simp [NumberFormat.writePositional, NumberFormat.zeros]
  · rw [amount, Decimal.toRat, zpow_zero, mul_one]

/-- The text of a number rounded to four places stands for a multiple of a ten-thousandth that
rounds to it. -/
theorem exists_numeral_styleText
    {value : Binary64}
    {negative : Bool}
    {significand : Nat}
    {exponent : Int}
    (rounded : value.roundToFourPlaces = .finite negative significand exponent)
    (nonzero : 0 < significand) :
    ∃ (numeral : Numeral) (whole : Nat),
      value.styleText.toList = numeral.text ∧ numeral.IsAscii ∧
      numeral.sign = (if negative then some '-' else none) ∧
      numeral.decimal.toRat = whole / 10000 ∧
      Binary64.RoundsTo significand exponent (whole / 10000) := by
  obtain ⟨bits, -⟩ := Binary64.bounds_of_roundToFourPlaces rounded nonzero
  unfold Binary64.styleText
  dsimp only
  rw [rounded]
  split
  · rename_i zero
    exact absurd (of_decide_eq_true zero) nonzero.ne'
  · split
    · rename_i small
      obtain ⟨magnitude, positive, size, partIs⟩ :=
        wholePart_of_isWhole nonzero (Bool.and_eq_true_iff.mp small).1
      obtain ⟨numeral, text, ascii, sign, amount⟩ := exists_numeral_repr negative magnitude
      have scaled : ((10000 * magnitude : Nat) / 10000 : ℚ) = magnitude := by
        push_cast
        ring
      refine ⟨numeral, 10000 * magnitude, ?_, ascii, sign, ?_, ?_⟩
      · rw [toList_wholeText positive partIs, text]
      · rw [amount, scaled]
      · rw [scaled, size]
        exact Binary64.roundsTo_self significand exponent
    · obtain ⟨point, positive, rounds⟩ :=
        Binary64.exists_roundsTo_of_roundToFourPlaces rounded nonzero
      obtain ⟨whole, amount, roundsToo⟩ :=
        Decimal.exists_toRat_shortest .up nonzero bits positive rounds
      obtain ⟨numeral, text, ascii, sign, same⟩ :=
        exists_numeral_writePositional negative (Decimal.shortest .up significand exponent)
      refine ⟨numeral, whole, ?_, ascii, sign, same.trans amount, roundsToo⟩
      rw [NumberFormat.write, if_neg nonzero.ne', String.toList_append, apply_ite String.toList,
        text]
      rfl

end AtomicCss
