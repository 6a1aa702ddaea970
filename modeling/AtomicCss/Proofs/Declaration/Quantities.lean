import AtomicCss.Proofs.Declaration.Measures
import AtomicCss.Proofs.Declaration.Pieces
import AtomicCss.Proofs.Number.Amounts

/-!
Contract: the quantities that the numbers of a text stand for.

Owns:
- the quantity of a word: the exact amount of its digits, in its unit;
- the quantity of each form that a number is respelled in;
- which numbers keep their quantity when they are respelled.

Does not own: which words are numbers.
-/

namespace AtomicCss.Wording

open AtomicCss.Text

structure Quantity where
  amount : ℚ
  unit : String
deriving DecidableEq

/-- So much of a unit. A second is a thousand milliseconds, and nothing of any unit but the
percentage is nothing. -/
def Quantity.of (amount : ℚ) (unit : String) : Quantity :=
  if unit = "%" then ⟨amount, unit⟩
  else if amount = 0 then ⟨0, ""⟩
  else if unit = "s" then ⟨1000 * amount, "ms"⟩
  else ⟨amount, unit⟩

def amount? (number : List Char) : Option ℚ :=
  let signed := Binary64.splitSign number
  (Decimal.read? signed.2).map fun decimal =>
    if signed.1 then -decimal.toRat else decimal.toRat

/-- The quantity of a word that is a number with a known unit, in any case, or none. -/
def quantity? (word : List Char) : Option Quantity :=
  match NumericWord.read? word with
  | none => none
  | some numeric =>
    if numeric.hasKnownUnit then (amount? numeric.number).map (Quantity.of · numeric.unitName)
    else none

private theorem amount?_text
    {numeral : Numeral}
    (ascii : numeral.IsAscii) :
    amount? numeral.text = some numeral.amount := by
  rw [amount?, numeral.splitSign_text]
  simp only [numeral.read?_unsigned_of_isAscii ascii, Option.map_some, decide_eq_true_eq]
  rfl

theorem IsMeasure.quantity?_eq
    {word unit : List Char}
    {numeral : Numeral}
    (measure : IsMeasure word numeral unit) :
    quantity? word = some (Quantity.of numeral.amount (lowered unit)) := by
  unfold quantity?
  rw [measure.read?_eq]
  dsimp only
  rw [measure.hasKnownUnit, if_pos rfl, amount?_text measure.ascii]
  rfl

/-! ## Spelled numbers -/

/-- The quantity of a number with a unit in lower case. -/
theorem quantity?_text_append
    {numeral : Numeral}
    (ascii : numeral.IsAscii)
    {name : String}
    (isUnit : IsUnit name) :
    quantity? (numeral.text ++ name.toList) = some (Quantity.of numeral.amount name) := by
  have lower : lowered name.toList = name := by
    rw [lowered, isUnit.lower, String.ofList_toList]
  have known : name.toList = [] ∨ Property.knownUnits.contains (lowered name.toList) = true := by
    rw [lower, String.toList_eq_nil_iff]
    exact isUnit.known
  have measure : IsMeasure (numeral.text ++ name.toList) numeral name.toList :=
    ⟨rfl, ascii, isUnit.inUnit, known⟩
  rw [measure.quantity?_eq, lower]

private theorem amount_zeroNumeral :
    zeroNumeral.amount = 0 := by
  have digits : zeroNumeral.decimal.digits = 0 := by decide
  have signless : zeroNumeral.sign ≠ some '-' := by decide
  rw [Numeral.amount, if_neg signless, Decimal.toRat, digits, Nat.cast_zero, zero_mul]

theorem amount_of_eq_zero_iff
    {amount : ℚ}
    {unit : String} :
    (Quantity.of amount unit).amount = 0 ↔ amount = 0 := by
  unfold Quantity.of
  split
  · rfl
  · split
    · rename_i zero
      simp [zero]
    · split
      · simp
      · rfl

/-- A number that is written as zero keeps its quantity exactly if it is zero. -/
theorem quantity?_zeroText_iff
    (depth : Nat)
    {unit : String}
    (isUnit : IsUnit unit)
    (amount : ℚ) :
    quantity? (zeroText depth unit).toList = some (Quantity.of amount unit) ↔ amount = 0 := by
  have written : (zeroText depth unit).toList =
      zeroNumeral.text ++ (zeroUnit depth unit).toList := by
    rw [zeroText_eq, String.toList_append]
    rfl
  rw [written, quantity?_text_append isAscii_zeroNumeral (isUnit_zeroUnit depth isUnit),
    amount_zeroNumeral, Option.some.injEq]
  constructor
  · intro same
    rw [← amount_of_eq_zero_iff, ← same, amount_of_eq_zero_iff]
  · rintro rfl
    by_cases percent : unit = "%"
    · rw [percent]
      rfl
    · have notPercent : zeroUnit depth unit ≠ "%" := by
        unfold zeroUnit
        rw [if_neg percent]
        split
        · decide
        · split
          · exact percent
          · decide
      rw [Quantity.of, Quantity.of, if_neg percent, if_neg notPercent, if_pos rfl, if_pos rfl]

/-! ## Times in seconds -/

section Seconds

variable {value : Binary64} {negative : Bool} {significand : Nat} {exponent : Int}

/-- The quantity of a time in seconds, which has at most four places. -/
theorem exists_quantity?_seconds
    (rounded : value.roundToFourPlaces = .finite negative significand exponent)
    (nonzero : 0 < significand) :
    ∃ tenths : Nat, Binary64.RoundsTo significand exponent (tenths / 10000) ∧
      quantity? (Property.shortNumber value ++ "s").toList =
        some ⟨(if negative then -1 else 1) * (tenths / 10), "ms"⟩ := by
  obtain ⟨numeral, tenths, text, ascii, sign, amount, rounds⟩ :=
    exists_numeral_styleText rounded nonzero
  have positive : 0 < numeral.decimal.toRat := amount ▸ rounds.pos nonzero
  refine ⟨tenths, rounds, ?_⟩
  have wholesome : ¬(numeral.whole = ['0'] ∧ numeral.fraction = some []) := by
    rintro ⟨whole, fraction⟩
    have zero : numeral.decimal = ⟨0, 0⟩ := by
      rw [Numeral.decimal, whole, fraction]
      rfl
    rw [zero, Decimal.toRat, Nat.cast_zero, zero_mul] at positive
    exact positive.false
  have unsigned : numeral.sign ≠ some '+' := by
    rw [sign]
    cases negative with
    | false | true => decide
  have signed : numeral.amount = (if negative then -1 else 1) * (tenths / 10000) := by
    rw [Numeral.amount, amount, sign]
    cases negative with
    | false | true => simp
  have nonzeroAmount : numeral.amount ≠ 0 := by
    rw [← abs_pos, numeral.abs_amount]
    exact positive
  have scaled : Quantity.of numeral.amount "s" = ⟨1000 * numeral.amount, "ms"⟩ := by
    rw [Quantity.of, if_neg (by decide), if_neg nonzeroAmount, if_pos rfl]
  rw [toList_seconds, text, numeral.dropLeadingZero_text unsigned wholesome,
    quantity?_text_append (numeral.isAscii_short ascii) isUnit_second, numeral.amount_short, scaled,
    signed]
  congr 2
  ring

end Seconds

/-- A time in seconds stands for a whole number of tenths of a millisecond, or for no such time. -/
theorem exists_tenths_of_seconds
    {value : Binary64}
    {amount : ℚ}
    (same : quantity? (Property.shortNumber value ++ "s").toList = some ⟨amount, "ms"⟩) :
    ∃ tenths : Int, 10 * amount = tenths := by
  have spelled := toList_seconds value
  cases rounded : value.roundToFourPlaces with
  | nan =>
      have text : value.styleText = "NaN" := by
        rw [Binary64.styleText, rounded]
        rfl
      rw [spelled, text] at same
      cases same
  | infinite negative =>
      have text : value.styleText = (if negative then "-" else "") ++ "inf" := by
        rw [Binary64.styleText, rounded]
        rfl
      rw [spelled, text] at same
      cases negative with
      | false | true => cases same
  | finite negative significand exponent =>
      rcases Nat.eq_zero_or_pos significand with rfl | nonzero
      · have text : value.styleText = "0" := by
          rw [Binary64.styleText, rounded]
          rfl
        have zero : Property.dropLeadingZero "0".toList ++ "s".toList =
            zeroNumeral.text ++ "s".toList := rfl
        rw [spelled, text, zero, quantity?_text_append isAscii_zeroNumeral isUnit_second,
          amount_zeroNumeral, Quantity.of, if_neg (by decide), if_pos rfl, Option.some.injEq,
          Quantity.mk.injEq] at same
        exact absurd same.2 (by decide)
      · obtain ⟨tenths, -, quantity⟩ := exists_quantity?_seconds rounded nonzero
        rw [quantity, Option.some.injEq, Quantity.mk.injEq] at same
        refine ⟨if negative then -tenths else tenths, ?_⟩
        rw [← same.1]
        cases negative with
        | false | true =>
            push_cast
            simp
            ring

/-- A time of a whole number of tenths of a millisecond is kept in seconds. -/
theorem quantity?_seconds_of_tenths
    {numeral : Numeral}
    {tenths : Nat}
    (nonzero : 0 < tenths)
    (small : tenths < 10 ^ 15)
    (exact : 10 * numeral.decimal.toRat = tenths) :
    quantity? (Property.shortNumber (numeral.value.div (Binary64.ofNat 1000)) ++ "s").toList =
      some ⟨numeral.amount, "ms"⟩ := by
  have amountIs : numeral.decimal.toRat = tenths / 10 := by linarith
  have atLeast : (1 : ℚ) ≤ tenths := by exact_mod_cast nonzero
  have atMost : (tenths : ℚ) < 10 ^ 15 := by exact_mod_cast small
  have moderate : Binary64.IsModerate numeral.decimal.toRat := by
    rw [amountIs]
    constructor
    · linarith
    · linarith
  have close := Decimal.liesBetween_toBinary64 moderate (numeral.sign = some '-')
  rw [← numeral.value_eq, amountIs] at close
  obtain ⟨significand, exponent, rounded, positive, rounds, unit⟩ :=
    Binary64.exists_seconds nonzero small close
  obtain ⟨written, writtenRounds, quantity⟩ := exists_quantity?_seconds rounded positive
  -- Both round to one number, whose last place is less than a ten-thousandth.
  have same : written = tenths := by
    obtain ⟨low, high⟩ := abs_le.mp rounds.near
    obtain ⟨writtenLow, writtenHigh⟩ := abs_le.mp writtenRounds.near
    have below : (written : ℚ) < tenths + 1 := by linarith
    have above : (tenths : ℚ) < written + 1 := by linarith
    have belowNat : written < tenths + 1 := by exact_mod_cast below
    have aboveNat : tenths < written + 1 := by exact_mod_cast above
    omega
  rw [quantity, same, Numeral.amount, amountIs]
  by_cases minus : numeral.sign = some '-'
  · simp [minus]
  · simp [minus]

/-! ## Respelled numbers -/

namespace IsMeasure

variable {word unit : List Char} {numeral : Numeral} (measure : IsMeasure word numeral unit)

include measure

/-- A number that is read as zero keeps its quantity exactly if it is zero. -/
theorem quantity_kept_of_isZero
    (zero : numeral.value.isZero = true)
    (depth : Nat) :
    quantity? (respellWord depth word) = quantity? word ↔ numeral.amount = 0 := by
  rw [measure.respellWord_eq, numberText, if_pos zero, measure.quantity?_eq]
  exact quantity?_zeroText_iff depth measure.isUnit_lowered numeral.amount

/-- A number that only loses what is needless keeps its quantity. -/
theorem quantity_kept_of_short
    (nonzero : numeral.value.isZero = false)
    (brief : ¬(lowered unit = "ms" ∧ numeral.value.magnitudeAtLeast 10 = true))
    (depth : Nat) :
    quantity? (respellWord depth word) = quantity? word := by
  have shortened := numeral.dropLeadingZero_dropPlus_text (numeral.wholesome_of_value nonzero)
  rw [measure.respellWord_eq, numberText, if_neg (by simp [nonzero]), if_neg (by simpa using brief),
    shortened, String.toList_append, String.toList_ofList,
    quantity?_text_append (numeral.isAscii_short measure.ascii) measure.isUnit_lowered,
    numeral.amount_short, measure.quantity?_eq]

/-- A number that is not given in seconds keeps its quantity unless it is read as zero. -/
theorem quantity_kept_iff
    (brief : lowered unit ≠ "ms" ∨ |numeral.amount| < 10 - 1 / 2 ^ 50)
    (depth : Nat) :
    quantity? (respellWord depth word) = quantity? word ↔
      numeral.amount = 0 ∨ 2 ^ (-1075 : Int) < |numeral.amount| := by
  by_cases zero : numeral.value.isZero = true
  · rw [measure.quantity_kept_of_isZero zero, or_iff_left]
    exact not_lt.mpr (numeral.isZero_value_iff.mp zero)
  · have nonzero : numeral.value.isZero = false := by simpa using zero
    rw [numeral.isZero_value_iff, not_le] at zero
    refine iff_of_true (measure.quantity_kept_of_short nonzero ?_ depth) (.inr zero)
    rintro ⟨milliseconds, long⟩
    rw [numeral.magnitudeAtLeast_ten_value_iff] at long
    rcases brief with other | less
    · exact other milliseconds
    · exact absurd long (not_le.mpr less)

section Long

variable (milliseconds : lowered unit = "ms") (long : 10 - 1 / 2 ^ 50 ≤ |numeral.amount|)

include milliseconds long

/-- A time of ten milliseconds or more is given in seconds. -/
theorem quantity_kept_iff_seconds
    (depth : Nat) :
    quantity? (respellWord depth word) = quantity? word ↔
      quantity? (Property.shortNumber (numeral.value.div (Binary64.ofNat 1000)) ++ "s").toList =
        some ⟨numeral.amount, "ms"⟩ := by
  have tiny : (2 : ℚ) ^ (-1075 : Int) ≤ 2 ^ (0 : Int) :=
    zpow_le_zpow_right₀ one_le_two (by decide)
  rw [zpow_zero] at tiny
  have nonzero : numeral.value.isZero = false := by
    rw [Bool.eq_false_iff, ne_eq, numeral.isZero_value_iff, not_le]
    linarith
  have some : numeral.amount ≠ 0 := by
    rw [← abs_pos]
    linarith
  have isLong := numeral.magnitudeAtLeast_ten_value_iff.mpr long
  rw [measure.quantity?_eq, measure.respellWord_eq, numberText, if_neg (by simp [nonzero]),
    if_pos (by simp [milliseconds, isLong]), milliseconds, Quantity.of, if_neg (by decide),
    if_neg some, if_neg (by decide)]

/-- A time in seconds that keeps its quantity is a whole number of tenths of a millisecond. -/
theorem exists_tenths_of_kept
    {depth : Nat}
    (kept : quantity? (respellWord depth word) = quantity? word) :
    ∃ tenths : Int, 10 * numeral.amount = tenths := by
  rw [measure.quantity_kept_iff_seconds milliseconds long] at kept
  exact exists_tenths_of_seconds kept

/-- A time of a whole number of tenths of a millisecond keeps its quantity if it is not huge. -/
theorem quantity_kept_of_tenths
    (small : |numeral.amount| < 10 ^ 14)
    {tenths : Int}
    (exact : 10 * numeral.amount = tenths)
    (depth : Nat) :
    quantity? (respellWord depth word) = quantity? word := by
  have absolute : 10 * |numeral.amount| = tenths.natAbs := by
    rw [Nat.cast_natAbs, Int.cast_abs, ← exact, abs_mul, abs_of_pos (by norm_num : (0 : ℚ) < 10)]
  have nonzero : (0 : ℚ) < tenths.natAbs := by linarith
  have bounded : (tenths.natAbs : ℚ) < 10 ^ 15 := by linarith
  rw [numeral.abs_amount] at absolute
  rw [measure.quantity_kept_iff_seconds milliseconds long]
  exact quantity?_seconds_of_tenths (by exact_mod_cast nonzero) (by exact_mod_cast bounded) absolute

end Long

end IsMeasure

/-- The numbers of a text that keep their quantity when they are respelled. Each word is replaced by
its own spelling. A number that is not a time of ten milliseconds or more keeps its quantity unless
it is so near to zero that it is read as zero. A time of ten milliseconds or more keeps its quantity
only if it has at most one digit after its point that counts, and up to a hundred trillion
milliseconds it does so then; a longer time may lose digits of its own. -/
theorem quantities_kept_to_tenths
    (text : List Char) :
    pieces (respellNumbers text) = (pieces text).map Piece.respelled ∧
      ∀ depth word numeral unit,
        Piece.word depth word ∈ pieces text → IsMeasure word numeral unit →
          ((lowered unit ≠ "ms" ∨ |numeral.amount| < 10 - 1 / 2 ^ 50) →
            (quantity? (respellWord depth word) = quantity? word ↔
              numeral.amount = 0 ∨ 2 ^ (-1075 : Int) < |numeral.amount|)) ∧
          (lowered unit = "ms" → 10 - 1 / 2 ^ 50 ≤ |numeral.amount| →
            (quantity? (respellWord depth word) = quantity? word →
              ∃ tenths : Int, 10 * numeral.amount = tenths) ∧
            (|numeral.amount| < 10 ^ 14 → (∃ tenths : Int, 10 * numeral.amount = tenths) →
              quantity? (respellWord depth word) = quantity? word)) := by
  refine ⟨pieces_respellNumbers text, fun depth word numeral unit _ measure => ⟨?_, ?_⟩⟩
  · exact fun brief => measure.quantity_kept_iff brief depth
  · refine fun milliseconds long => ⟨measure.exists_tenths_of_kept milliseconds long, ?_⟩
    rintro small ⟨tenths, exact⟩
    exact measure.quantity_kept_of_tenths milliseconds long small exact depth

-- A longer time may change though it has no digits after its point.
example : respellWord 0 "9007199254740993ms".toList = "9007199254740.992s".toList := by
  decide +kernel

/-- A time with three digits after its point, which loses the last two in seconds. -/
theorem time_with_microseconds_changes :
    let word := "12.345ms".toList
    Piece.word 0 word ∈ pieces word ∧ respellWord 0 word = ".0123s".toList ∧
      quantity? (respellWord 0 word) ≠ quantity? word := by
  intro word
  have digits : ∀ digit ∈ ['1', '2'] ++ (some ['3', '4', '5']).getD [], digit.isDigit = true :=
    List.all_eq_true.mp (by decide)
  have inUnit : ∀ character ∈ ['m', 's'], isUnitChar character = true :=
    List.all_eq_true.mp (by decide)
  let numeral := Numeral.ascii false ['1', '2'] (some ['3', '4', '5']) digits (.inl (by decide))
  have listed : Piece.word 0 word ∈ pieces word := by decide
  have measure : IsMeasure word numeral ['m', 's'] := ⟨rfl, digits, inUnit, .inr (by decide)⟩
  have amount : numeral.amount = 12345 / 1000 := by
    have written : numeral.decimal = ⟨12345, -3⟩ := rfl
    have signless : numeral.sign ≠ some '-' := by
      rintro ⟨⟩
    rw [Numeral.amount, if_neg signless, written, Decimal.toRat]
    norm_num
  refine ⟨listed, by decide +kernel, fun kept => ?_⟩
  have long : 10 - 1 / 2 ^ 50 ≤ |numeral.amount| := by
    rw [amount]
    norm_num
  have ofWord := (quantities_kept_to_tenths word).2 0 word numeral ['m', 's'] listed measure
  obtain ⟨tenths, exact⟩ := (ofWord.2 rfl long).1 kept
  rw [amount] at exact
  have whole : (20 * tenths : ℚ) = 2469 := by linarith
  have wholeInt : 20 * tenths = 2469 := by exact_mod_cast whole
  omega

end AtomicCss.Wording
