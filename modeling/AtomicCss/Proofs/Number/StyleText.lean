import AtomicCss.Number.Format
import AtomicCss.Proofs.Number.Decimals
import AtomicCss.Proofs.Number.Numeral
import Mathlib.Data.Nat.Cast.Field

/-!
Contract: the text of a number in a style reads back as a number.

Owns:
- decimals that are no zero as binary64 numbers;
- the size of a number that was rounded to four places;
- the forms that the text of a style number takes: a zero, a number that is none, or the words for
  infinity and not-a-number.

Does not own: which number the text reads back as.
-/

namespace AtomicCss

/-! ## Decimals that are no zero -/

namespace Decimal

private theorem digitsValue_toDigits
    (value : Nat) :
    digitsValue (Nat.toDigits 10 value) = value :=
  Nat.ofDigitChars_ten_toDigits

private theorem digitsValue_replicate
    (count : Nat) :
    digitsValue (List.replicate count '0') = 0 := by
  induction count with
  | zero => rfl
  | succ smaller inductionHypothesis =>
      rw [List.replicate_succ]
      exact inductionHypothesis

private theorem digitsValue_append
    (first second : List Char) :
    digitsValue (first ++ second) =
      10 ^ second.length * digitsValue first + digitsValue second := by
  show Nat.ofDigitChars 10 (first ++ second) 0 = _
  rw [Nat.ofDigitChars_append, Nat.ofDigitChars_eq_ofDigitChars_zero]
  rfl

/-- Two hundred places behind the point, a digit is too large to become zero. -/
theorem tiny_lt_two_hundred_places :
    (2 : ℚ) ^ (-1075 : Int) < 10 ^ (-200 : Int) :=
  calc (2 : ℚ) ^ (-1075 : Int)
      < 2 ^ (4 * -200 : Int) := zpow_lt_zpow_right₀ (by norm_num) (by decide)
    _ = (16 ^ 200)⁻¹ := by
        rw [zpow_mul, zpow_neg]
        norm_num
    _ ≤ (10 ^ 200)⁻¹ := inv_anti₀ (by positivity) (pow_le_pow_left₀ (by norm_num) (by norm_num) 200)
    _ = 10 ^ (-200 : Int) := by
        rw [zpow_neg]
        norm_num

/-- A decimal with a digit other than zero, at most two hundred places behind the point, is no zero
as a binary64 number. -/
theorem isZero_toBinary64
    {decimal : Decimal}
    (nonzero : 0 < decimal.digits)
    (places : -200 ≤ decimal.exponent)
    (negative : Bool) :
    (decimal.toBinary64 negative).isZero = false := by
  have count := digitCount_pos decimal.digits
  have notTiny : (2 : ℚ) ^ (-1075 : Int) < decimal.toRat :=
    calc (2 : ℚ) ^ (-1075 : Int)
        < 10 ^ (-200 : Int) := tiny_lt_two_hundred_places
      _ ≤ 10 ^ (decimal.exponent + digitCount decimal.digits - 1) :=
          zpow_le_zpow_right₀ (by norm_num) (by omega)
      _ ≤ decimal.toRat := (toRat_bounds nonzero).1
  rw [Bool.eq_false_iff, Ne, isZero_toBinary64_iff]
  exact not_le.mpr notTiny

end Decimal

/-! ## Four places -/

namespace Binary64

theorem significand_of_ofRatio_zero
    {negative sign : Bool}
    {denominator significand : Nat}
    {exponent : Int}
    (finite : ofRatio negative 0 denominator = .finite sign significand exponent) :
    significand = 0 := by
  rw [ofRatio, if_pos rfl] at finite
  exact (Binary64.finite.inj finite).2.1.symm

/-- A number rounded to a whole one is not written with a small exponent. -/
theorem exponent_of_roundHalfAway
    {value : Binary64}
    {negative : Bool}
    {significand : Nat}
    {exponent : Int}
    (rounded : value.roundHalfAway = .finite negative significand exponent)
    (nonzero : 0 < significand) :
    -53 ≤ exponent := by
  cases value with
  | infinite _ | nan => cases rounded
  | finite sign whole power =>
      rw [roundHalfAway] at rounded
      split at rounded
      · obtain ⟨-, -, rfl⟩ := Binary64.finite.inj rounded
        omega
      · dsimp only at rounded
        generalize (2 * whole + _) / _ = nearest at rounded
        rcases Nat.eq_zero_or_pos nearest with rfl | positive
        · exact absurd (significand_of_ofRatio_zero rounded) nonzero.ne'
        · have bound := (bounds_of_ofRatio Nat.one_pos positive rounded).2
          have single : Nat.log2 1 = 0 := by decide
          omega

/-- Ten thousand as a binary64 number. -/
theorem ofNat_ten_thousand :
    ofNat 10000 = .finite false (10000 * 2 ^ 39) (-39) := by
  decide +kernel

/-- A number rounded to four places has at most 53 bits and no tiny exponent. -/
theorem bounds_of_roundToFourPlaces
    {value : Binary64}
    {negative : Bool}
    {significand : Nat}
    {exponent : Int}
    (rounded : value.roundToFourPlaces = .finite negative significand exponent)
    (nonzero : 0 < significand) :
    significand ≤ 2 ^ 53 ∧ -120 ≤ exponent := by
  unfold roundToFourPlaces at rounded
  rw [ofNat_ten_thousand] at rounded
  cases whole : (value.mul (.finite false (10000 * 2 ^ 39) (-39))).roundHalfAway with
  | infinite _ | nan =>
      rw [whole] at rounded
      cases rounded
  | finite sign digits power =>
      rw [whole, div, if_neg (by norm_num)] at rounded
      dsimp only at rounded
      rcases Nat.eq_zero_or_pos digits with rfl | positive
      · rw [Nat.zero_mul] at rounded
        exact absurd (significand_of_ofRatio_zero rounded) nonzero.ne'
      · have least := exponent_of_roundHalfAway whole positive
        obtain ⟨up, down⟩ := powerRatio_pos Nat.two_pos (power - -39)
        have denominator :
            10000 * 2 ^ 39 * (powerRatio 2 (power - -39)).2 < 2 ^ 68 := by
          have small : (powerRatio 2 (power - -39)).2 ≤ 2 ^ 14 :=
            Decimal.powerRatio_snd_le (by omega)
          omega
        have positiveDenominator : 0 < 10000 * 2 ^ 39 * (powerRatio 2 (power - -39)).2 := by omega
        obtain ⟨bits, bound⟩ :=
          bounds_of_ofRatio positiveDenominator (Nat.mul_pos positive up) rounded
        have length := (Nat.log2_lt positiveDenominator.ne').mpr denominator
        exact ⟨bits, by omega⟩

end Binary64

/-! ## Forms of the text -/

def Numeral.ascii
    (negative : Bool)
    (whole : List Char)
    (fraction : Option (List Char))
    (digits : ∀ digit ∈ whole ++ fraction.getD [], digit.isDigit = true)
    (filled : whole ≠ [] ∨ fraction.getD [] ≠ []) : Numeral where
  sign := if negative then some '-' else none
  whole := whole
  fraction := fraction
  signed := by
    cases negative with
    | false | true => simp
  wholeDigits := fun digit member =>
    isDecimalDigit_of_isDigit (digits digit (List.mem_append_left _ member))
  fractionDigits := fun digit member =>
    isDecimalDigit_of_isDigit (digits digit (List.mem_append_right _ member))
  filled := filled

theorem Numeral.text_ascii
    (negative : Bool)
    {whole : List Char}
    {fraction : Option (List Char)}
    (digits : ∀ digit ∈ whole ++ fraction.getD [], digit.isDigit = true)
    (filled : whole ≠ [] ∨ fraction.getD [] ≠ []) :
    (ascii negative whole fraction digits filled).text =
      (if negative then ['-'] else []) ++ (whole ++ pointed fraction) := by
  cases negative with
  | false | true => rfl

/-- The forms of style numbers: zero, another number, or a word. -/
inductive IsStyleNumber : List Char → Prop where
  | zero : IsStyleNumber ['0']
  | number (numeral : Numeral) (unsigned : numeral.sign ≠ some '+') (ascii : numeral.IsAscii)
      (nonzero : numeral.value.isZero = false) : IsStyleNumber numeral.text
  | notANumber : IsStyleNumber "NaN".toList
  | infinite : IsStyleNumber "inf".toList
  | negativeInfinite : IsStyleNumber "-inf".toList

/-- Digits that are not all zeros make up a style number, if the point is not too far before
them. -/
theorem isStyleNumber_ascii
    (negative : Bool)
    {whole : List Char}
    {fraction : Option (List Char)}
    (digits : ∀ digit ∈ whole ++ fraction.getD [], digit.isDigit = true)
    (filled : whole ≠ [] ∨ fraction.getD [] ≠ [])
    (nonzero : 0 < Decimal.digitsValue (whole ++ fraction.getD []))
    (places : (fraction.getD []).length ≤ 200) :
    IsStyleNumber
      ((if negative then ['-'] else []) ++ (whole ++ Numeral.pointed fraction)) := by
  let numeral := Numeral.ascii negative whole fraction digits filled
  have unsigned : numeral.sign ≠ some '+' := by
    cases negative with
    | false | true => simp [numeral, Numeral.ascii]
  have valueNonzero : numeral.value.isZero = false := by
    apply Decimal.isZero_toBinary64
    · exact nonzero
    · show -200 ≤ 0 - ((fraction.getD []).length : Int)
      omega
  rw [← Numeral.text_ascii negative digits filled]
  exact .number numeral unsigned digits valueNonzero

private theorem isDigit_of_mem_toDigits
    {value : Nat}
    {digit : Char}
    (member : digit ∈ Nat.toDigits 10 value) :
    digit.isDigit = true :=
  Nat.isDigit_of_mem_toDigits (by decide) (by decide) member

/-- The parts of digits that are written out with a point where it is needed. -/
theorem exists_parts_writePositional
    (decimal : Decimal) :
    ∃ whole fraction,
      (NumberFormat.writePositional "" decimal).toList = whole ++ Numeral.pointed fraction ∧
      (∀ digit ∈ whole ++ fraction.getD [], digit.isDigit = true) ∧
      whole ≠ [] ∧
      Decimal.digitsValue (whole ++ fraction.getD []) =
        decimal.digits * 10 ^ decimal.exponent.toNat ∧
      (fraction.getD []).length = (-decimal.exponent).toNat := by
  have digits : ∀ digit ∈ Nat.toDigits 10 decimal.digits, digit.isDigit = true :=
    fun digit => isDigit_of_mem_toDigits
  have value := Decimal.digitsValue_toDigits decimal.digits
  have someDigit : Nat.toDigits 10 decimal.digits ≠ [] := Nat.toDigits_ne_nil
  unfold NumberFormat.writePositional
  rw [Nat.repr_eq_ofList_toDigits]
  generalize Nat.toDigits 10 decimal.digits = written at *
  simp only [String.toList_ofList]
  split
  · -- Zeros follow up to the point.
    refine ⟨written ++ List.replicate decimal.exponent.toNat '0', none, ?_, ?_, ?_, ?_, ?_⟩
    · simp [NumberFormat.zeros, Numeral.pointed]
    · simpa [or_imp, forall_and] using digits
    · simp [someDigit]
    · rw [Option.getD_none, List.append_nil, Decimal.digitsValue_append,
        Decimal.digitsValue_replicate, value, List.length_replicate, Nat.add_zero, Nat.mul_comm]
    · rw [Option.getD_none, List.length_nil]
      omega
  · rename_i behind
    have none : decimal.exponent.toNat = 0 := by omega
    rw [none, Nat.pow_zero, Nat.mul_one]
    split
    · -- The point stands between two digits.
      rename_i inside
      let before := written.length - (-decimal.exponent).toNat
      have joined : written.take before ++ written.drop before = written :=
        List.take_append_drop before written
      refine ⟨written.take before, some (written.drop before), ?_, ?_, ?_, ?_, ?_⟩
      · simp [before, Numeral.pointed]
      · rw [Option.getD_some, joined]
        exact digits
      · simp [someDigit, before]
        omega
      · rw [Option.getD_some, joined, value]
      · simp [before]
        omega
    · -- Zeros follow from the point on.
      rename_i outside
      let zeros := List.replicate ((-decimal.exponent).toNat - written.length) '0'
      have front : ['0'] ++ zeros = List.replicate (zeros.length + 1) '0' := by
        simp [zeros, List.replicate_succ]
      refine ⟨['0'], some (zeros ++ written), ?_, ?_, ?_, ?_, ?_⟩
      · simp [zeros, NumberFormat.zeros, Numeral.pointed]
      · simpa [zeros, or_imp, forall_and] using digits
      · simp
      · rw [Option.getD_some, ← List.append_assoc, Decimal.digitsValue_append, value, front,
          Decimal.digitsValue_replicate, Nat.mul_zero, Nat.zero_add]
      · simp [zeros]
        omega

/-- The shortest digits of a number of four places. -/
theorem isStyleNumber_writePositional
    (negative : Bool)
    {decimal : Decimal}
    (nonzero : 0 < decimal.digits)
    (places : -200 ≤ decimal.exponent) :
    IsStyleNumber
      ((if negative then ['-'] else []) ++
        (NumberFormat.writePositional "" decimal).toList) := by
  obtain ⟨whole, fraction, text, digits, filled, value, length⟩ :=
    exists_parts_writePositional decimal
  rw [text]
  refine isStyleNumber_ascii negative digits (.inl filled) ?_ (by omega)
  rw [value]
  positivity

/-- A whole number. -/
theorem isStyleNumber_repr
    (negative : Bool)
    {value : Nat}
    (nonzero : 0 < value) :
    IsStyleNumber ((if negative then ['-'] else []) ++ (Nat.repr value).toList) := by
  have spelled : (Nat.repr value).toList = Nat.toDigits 10 value ++ Numeral.pointed none := by
    rw [Nat.repr_eq_ofList_toDigits, String.toList_ofList, Numeral.pointed, List.append_nil]
  have digits : ∀ digit ∈ Nat.toDigits 10 value ++ (none : Option (List Char)).getD [],
      digit.isDigit = true := by
    rw [Option.getD_none, List.append_nil]
    exact fun digit => isDigit_of_mem_toDigits
  rw [spelled]
  apply isStyleNumber_ascii negative digits (.inl Nat.toDigits_ne_nil)
  · rw [Option.getD_none, List.append_nil, Decimal.digitsValue_toDigits]
    exact nonzero
  · simp

/-- The whole part of a whole number that is no zero. -/
theorem wholePart_of_isWhole
    {negative : Bool}
    {significand : Nat}
    {exponent : Int}
    (nonzero : 0 < significand)
    (whole : (Binary64.finite negative significand exponent).isWhole = true) :
    ∃ magnitude : Nat, 0 < magnitude ∧ (magnitude : ℚ) = significand * 2 ^ exponent ∧
      (Binary64.finite negative significand exponent).wholePart =
        if negative then -(magnitude : Int) else magnitude := by
  obtain ⟨power, unit⟩ := powerRatio_pos Nat.two_pos exponent
  have exact : significand * (powerRatio 2 exponent).1 % (powerRatio 2 exponent).2 = 0 := by
    simpa [Binary64.isWhole] using whole
  have divides := Nat.dvd_of_mod_eq_zero exact
  refine ⟨_, ?_, ?_, rfl⟩
  · exact Nat.div_pos (Nat.le_of_dvd (Nat.mul_pos nonzero power) divides) unit
  · have ratio := powerRatio_div 2 exponent
    rw [Nat.cast_two] at ratio
    rw [Nat.cast_div divides (by exact_mod_cast unit.ne'), Nat.cast_mul, mul_div_assoc, ratio]

/-- The text of a whole number with a sign. -/
theorem toList_wholeText
    {part : Int}
    {negative : Bool}
    {magnitude : Nat}
    (positive : 0 < magnitude)
    (partIs : part = if negative then -(magnitude : Int) else magnitude) :
    ((if part < 0 then "-" else "") ++ Nat.repr part.natAbs).toList =
      (if negative then ['-'] else []) ++ (Nat.repr magnitude).toList := by
  have signIs : (if part < 0 then "-" else "") = if negative then "-" else "" := by
    rw [partIs]
    cases negative with
    | false => exact if_neg (by simp)
    | true => exact if_pos (by simpa using positive)
  have magnitudeIs : part.natAbs = magnitude := by
    rw [partIs]
    cases negative with
    | false | true => simp
  rw [signIs, magnitudeIs, String.toList_append, apply_ite String.toList]
  rfl

/-- The text of every style number has one of the forms. -/
theorem isStyleNumber_styleText
    (value : Binary64) :
    IsStyleNumber value.styleText.toList := by
  unfold Binary64.styleText
  dsimp only
  cases rounded : value.roundToFourPlaces with
  | nan => exact .notANumber
  | infinite negative =>
      cases negative with
      | false => exact .infinite
      | true => exact .negativeInfinite
  | finite negative significand exponent =>
      split
      · exact .zero
      · rename_i notZero
        have nonzero : 0 < significand := by
          rw [Nat.pos_iff_ne_zero]
          simpa [Binary64.isZero] using notZero
        obtain ⟨bits, least⟩ := Binary64.bounds_of_roundToFourPlaces rounded nonzero
        split
        · rename_i small
          obtain ⟨magnitude, positive, -, partIs⟩ :=
            wholePart_of_isWhole nonzero (Bool.and_eq_true_iff.mp small).1
          rw [toList_wholeText positive partIs]
          exact isStyleNumber_repr negative positive
        · obtain ⟨digits, place⟩ := Decimal.shortest_bounds .up nonzero bits exponent
          have bound : 1 - (120 : Int) ≤ Decimal.leadingBound significand exponent := by
            exact_mod_cast Decimal.le_leadingBound exponent least
          have text := isStyleNumber_writePositional negative digits (by omega)
          rw [NumberFormat.write, if_neg nonzero.ne', String.toList_append, apply_ite String.toList]
          exact text

end AtomicCss
