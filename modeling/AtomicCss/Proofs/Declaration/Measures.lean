import AtomicCss.Proofs.Declaration.NumericWords

/-!
Contract: the words of a style text that are respelled as numbers.

Owns:
- numbers with a known unit or none, and their spelling;
- that every other word stays as it is;
- which of them are spelled differently among the arguments of a function.

Does not own: what a number with a unit stands for.
-/

namespace AtomicCss.Wording

open AtomicCss.Text

def lowered (unit : List Char) : String :=
  String.ofList (unit.map Char.toLower)

/-- A word that is a number in ASCII digits with a known unit, in any case, or none. -/
structure IsMeasure (word : List Char) (numeral : Numeral) (unit : List Char) : Prop where
  spelled : word = numeral.text ++ unit
  ascii : numeral.IsAscii
  inUnit : ∀ character ∈ unit, isUnitChar character = true
  known : unit = [] ∨ Property.knownUnits.contains (lowered unit) = true

/-- Among the arguments of a function, a number has another spelling if it has a plus sign, a zero
before its point, or capitals in its unit, if it is zero and not written so, or if it is in
milliseconds and zero or at least ten. -/
def ChangesInCall (numeral : Numeral) (unit : List Char) : Prop :=
  numeral.sign = some '+' ∨
    (numeral.whole = ['0'] ∧ numeral.fraction.getD [] ≠ []) ∨
    unit.map Char.toLower ≠ unit ∨
    (numeral.value.isZero = true ∧ numeral.text ≠ ['0']) ∨
    (lowered unit = "ms" ∧
      (numeral.value.isZero = true ∨ numeral.value.magnitudeAtLeast 10 = true))

def IsMisspelledInCall (word : List Char) : Prop :=
  ∃ numeral unit, IsMeasure word numeral unit ∧ ChangesInCall numeral unit

theorem toList_lowered
    (unit : List Char) :
    (lowered unit).toList = unit.map Char.toLower :=
  String.toList_ofList

/-! ## Words and numbers -/

namespace IsMeasure

variable {word unit : List Char} {numeral : Numeral} (measure : IsMeasure word numeral unit)

include measure

theorem read?_eq :
    NumericWord.read? word = some ⟨numeral.text, unit⟩ := by
  rw [measure.spelled]
  exact NumericWord.read?_text_append measure.inUnit numeral

theorem hasKnownUnit :
    NumericWord.hasKnownUnit ⟨numeral.text, unit⟩ = true := by
  rw [NumericWord.hasKnownUnit, Bool.or_eq_true, List.isEmpty_iff]
  exact measure.known

theorem isUnit_lowered :
    IsUnit (lowered unit) :=
  @isUnit_unitName ⟨numeral.text, unit⟩ measure.inUnit measure.hasKnownUnit

/-- The spelling of a number with a unit. -/
theorem respellWord_eq
    (depth : Nat) :
    respellWord depth word =
      (numberText depth numeral.text numeral.value (lowered unit)).toList := by
  have value : Binary64.read? numeral.text = some numeral.value :=
    (numeral.read?_text_eq_some_iff _).mpr ⟨measure.ascii, rfl⟩
  unfold respellWord
  simp only [measure.read?_eq, measure.hasKnownUnit, if_true, value]
  rfl

end IsMeasure

/-- A word that is no such number stays as it is. -/
theorem respellWord_of_not_isMeasure
    {word : List Char}
    (other : ∀ numeral unit, ¬IsMeasure word numeral unit)
    (depth : Nat) :
    respellWord depth word = word := by
  unfold respellWord
  split
  · rfl
  · rename_i numeric reads
    obtain ⟨numeral, number, inUnit, wordIs⟩ := NumericWord.exists_numeral_of_read? reads
    split
    · rename_i known
      rw [NumericWord.hasKnownUnit, Bool.or_eq_true, List.isEmpty_iff] at known
      split
      · rfl
      · rename_i value valueReads
        rw [number, Numeral.read?_text_eq_some_iff] at valueReads
        exact absurd ⟨wordIs, valueReads.1, inUnit, known⟩ (other numeral numeric.unit)
    · rfl

/-- No character of a number may stand in a unit. -/
theorem isUnitChar_of_mem_text
    {numeral : Numeral}
    {character : Char}
    (member : character ∈ numeral.text) :
    isUnitChar character = false := by
  have notUnit (digit : isDecimalDigit character = true) : isUnitChar character = false := by
    rw [Bool.eq_false_iff]
    intro inUnit
    rw [(unitChar_facts inUnit).1] at digit
    cases digit
  rw [Numeral.text, Numeral.unsigned, List.mem_append, List.mem_append] at member
  rcases member with sign | digit | pointed
  · rcases numeral.signed with unsigned | plus | minus
    · simp [unsigned] at sign
    · obtain rfl : character = '+' := by simpa [plus] using sign
      decide
    · obtain rfl : character = '-' := by simpa [minus] using sign
      decide
  · exact notUnit (numeral.wholeDigits character digit)
  · cases fraction : numeral.fraction with
    | none => simp [fraction, Numeral.pointed] at pointed
    | some digits =>
        rw [fraction, Numeral.pointed, List.mem_cons] at pointed
        rcases pointed with rfl | digit
        · decide
        · apply notUnit
          apply numeral.fractionDigits character
          rwa [fraction]

/-- A number and its unit are found again in the word they make up. -/
theorem text_append_inj
    {numeral other : Numeral}
    {unit suffix : List Char}
    (inUnit : ∀ character ∈ unit, isUnitChar character = true)
    (inSuffix : ∀ character ∈ suffix, isUnitChar character = true)
    (same : numeral.text ++ unit = other.text ++ suffix) :
    numeral.text = other.text ∧ unit = suffix := by
  have reads := NumericWord.read?_text_append inUnit numeral
  rw [same, NumericWord.read?_text_append inSuffix other, Option.some.injEq,
    NumericWord.mk.injEq] at reads
  exact ⟨reads.1.symm, reads.2.symm⟩

/-! ## Among arguments -/

/-- A number is in its short spelling if it has neither a plus sign nor a zero before its point that
is not needed. -/
theorem text_short_eq_iff
    (numeral : Numeral) :
    numeral.short.text = numeral.text ↔
      numeral.sign ≠ some '+' ∧ ¬(numeral.whole = ['0'] ∧ numeral.fraction.getD [] ≠ []) := by
  constructor
  · intro same
    have lengths := congrArg List.length same
    simp only [Numeral.text, Numeral.unsigned, List.length_append, Numeral.short,
      Numeral.shortWhole] at lengths
    refine ⟨fun plus => ?_, fun needless => ?_⟩
    · rw [if_pos plus, plus] at lengths
      split at lengths
      · simp at lengths
        omega
      · simp at lengths
    · rw [if_pos needless, needless.1] at lengths
      split at lengths
      · simp at lengths
        omega
      · simp at lengths
  · rintro ⟨notPlus, needed⟩
    simp only [Numeral.text, Numeral.unsigned, Numeral.short, Numeral.shortWhole, if_neg notPlus,
      if_neg needed]

private theorem text_short_of_zero
    {numeral : Numeral}
    (zero : numeral.text = ['0']) :
    numeral.short.text = numeral.text := by
  have length := congrArg List.length zero
  rw [Numeral.text, Numeral.unsigned] at length
  rw [text_short_eq_iff]
  constructor
  · intro plus
    rw [Numeral.text, plus] at zero
    exact absurd (List.cons.inj zero).1 (by decide)
  · rintro ⟨whole, someDigit⟩
    cases fraction : numeral.fraction with
    | none => simp [fraction] at someDigit
    | some digits =>
        simp only [whole, fraction, Numeral.pointed, List.length_append, List.length_cons] at length
        omega

/-- Among arguments, a zero keeps its unit, except for milliseconds. -/
theorem zeroUnit_succ
    (depth : Nat)
    (unit : String) :
    zeroUnit (depth + 1) unit = if unit = "ms" then "s" else unit := by
  unfold zeroUnit
  by_cases milliseconds : unit = "ms"
  · subst milliseconds
    rfl
  · rw [if_neg milliseconds]
    split
    · rename_i percent
      exact percent.symm
    · split
      · rename_i time
        simpa [Property.timeUnits, milliseconds, eq_comm] using time
      · rw [if_pos (by simp)]

/-- A time in seconds has no unit but the second. -/
theorem unit_of_seconds
    {value : Binary64}
    {numeral : Numeral}
    {unit : List Char}
    (measure : IsMeasure (Property.shortNumber value ++ "s").toList numeral unit) :
    unit = ['s'] := by
  have reads := measure.read?_eq
  have form := isStyleNumber_styleText value
  rw [toList_seconds] at reads
  generalize value.styleText.toList = written at form reads
  have isRead :
      (NumericWord.read? (Property.dropLeadingZero written ++ "s".toList)).isSome = true := by
    rw [reads]
    rfl
  cases form with
  | zero =>
      have zero : NumericWord.read? ['0', 's'] = some ⟨['0'], ['s']⟩ := by decide +kernel
      exact (congrArg NumericWord.unit (Option.some.inj (zero.symm.trans reads))).symm
  | number other unsigned _ nonzero =>
      rw [other.dropLeadingZero_text unsigned (other.wholesome_of_value nonzero),
        NumericWord.read?_text_append isUnit_second.inUnit] at reads
      exact (congrArg NumericWord.unit (Option.some.inj reads)).symm
  | notANumber | infinite | negativeInfinite =>
      exact absurd isRead (by decide +kernel)

/-- A zero is left alone among arguments if it is the one zero and not in milliseconds. -/
theorem zero_kept_iff
    (depth : Nat)
    {word : List Char}
    {numeral : Numeral}
    {unit : List Char}
    (measure : IsMeasure word numeral unit) :
    (zeroText (depth + 1) (lowered unit)).toList = word ↔
      numeral.text = ['0'] ∧ unit.map Char.toLower = unit ∧ lowered unit ≠ "ms" := by
  have written : (zeroText (depth + 1) (lowered unit)).toList =
      zeroNumeral.text ++ (zeroUnit (depth + 1) (lowered unit)).toList := by
    rw [zeroText_eq, String.toList_append]
    rfl
  have inZeroUnit := (isUnit_zeroUnit (depth + 1) measure.isUnit_lowered).inUnit
  rw [written, measure.spelled]
  constructor
  · intro same
    obtain ⟨zero, unitIs⟩ := text_append_inj inZeroUnit measure.inUnit same
    rw [zeroUnit_succ] at unitIs
    split at unitIs
    · rename_i milliseconds
      rw [← unitIs] at milliseconds
      exact absurd milliseconds (by decide)
    · rename_i other
      rw [toList_lowered] at unitIs
      exact ⟨zero.symm, unitIs, other⟩
  · rintro ⟨zero, lower, other⟩
    rw [zeroUnit_succ, if_neg other, toList_lowered, lower, zero]
    rfl

/-- A nonzero number in its short spelling is left alone if its unit is in lower case. -/
theorem short_kept_iff
    {word : List Char}
    {numeral : Numeral}
    {unit : List Char}
    (measure : IsMeasure word numeral unit) :
    numeral.short.text ++ (lowered unit).toList = word ↔
      numeral.short.text = numeral.text ∧ unit.map Char.toLower = unit := by
  rw [measure.spelled, toList_lowered]
  constructor
  · intro same
    have inLowered := measure.isUnit_lowered.inUnit
    rw [toList_lowered] at inLowered
    exact text_append_inj inLowered measure.inUnit same
  · rintro ⟨short, lower⟩
    rw [short, lower]

/-- Among arguments, a number stays as it is unless it has another spelling there. -/
theorem IsMeasure.respellWord_succ_eq_self_iff
    {word : List Char}
    {numeral : Numeral}
    {unit : List Char}
    (measure : IsMeasure word numeral unit)
    (depth : Nat) :
    respellWord (depth + 1) word = word ↔ ¬ChangesInCall numeral unit := by
  rw [measure.respellWord_eq, numberText, ChangesInCall]
  by_cases zero : numeral.value.isZero = true
  · rw [if_pos zero, zero_kept_iff depth measure]
    constructor
    · rintro ⟨isZero, lower, other⟩
      have short := (text_short_eq_iff numeral).mp (text_short_of_zero isZero)
      simp [short.1, short.2, isZero, lower, other]
    · intro kept
      simp only [not_or, not_and, zero, true_and, true_or, not_true, imp_false, ne_eq,
        not_not] at kept
      exact ⟨kept.2.2.2.1, kept.2.2.1, kept.2.2.2.2⟩
  · have nonzero : numeral.value.isZero = false := by simpa using zero
    rw [if_neg zero]
    split
    · rename_i long
      simp only [Bool.and_eq_true, decide_eq_true_eq] at long
      constructor
      · intro same
        rw [← same] at measure
        have seconds := unit_of_seconds measure
        rw [seconds] at long
        exact absurd long.1 (by decide)
      · intro kept
        simp [long.1, long.2] at kept
    · rename_i brief
      simp only [Bool.and_eq_true, decide_eq_true_eq] at brief
      rw [String.toList_append, String.toList_ofList,
        numeral.dropLeadingZero_dropPlus_text (numeral.wholesome_of_value nonzero),
        short_kept_iff measure, text_short_eq_iff]
      simp only [nonzero, Bool.false_eq_true, false_and, false_or, brief, or_false, not_or,
        not_not, ne_eq, and_assoc]

/-- Among arguments, a word stays as it is unless it has another spelling there. -/
theorem respellWord_succ_eq_self_iff
    (depth : Nat)
    (word : List Char) :
    respellWord (depth + 1) word = word ↔ ¬IsMisspelledInCall word := by
  constructor
  · rintro same ⟨numeral, unit, measure, changes⟩
    exact (measure.respellWord_succ_eq_self_iff depth).mp same changes
  · intro kept
    by_cases isMeasure : ∃ numeral unit, IsMeasure word numeral unit
    · obtain ⟨numeral, unit, measure⟩ := isMeasure
      rw [measure.respellWord_succ_eq_self_iff]
      exact fun changes => kept ⟨numeral, unit, measure, changes⟩
    · apply respellWord_of_not_isMeasure
      exact fun numeral unit measure => isMeasure ⟨numeral, unit, measure⟩

end AtomicCss.Wording
