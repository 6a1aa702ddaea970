import AtomicCss.Proofs.Declaration.PlainWords
import Mathlib.Data.List.TakeWhile

/-!
Contract: numbers as they are written in style text.

Owns:
- the parts of such a number and the text they make up;
- the reading of a word as a number and a unit, which finds exactly these parts;
- the binary64 number that the digits stand for, where they are ASCII ones;
- the spelling without a plus sign and without a zero before the point.

Does not own: the units, and the numbers that a compilation writes by itself.
-/

namespace AtomicCss

open AtomicCss.Text AtomicCss.Wording

/-- A number in style text: a sign, if any, and digits of any script with at most one point. -/
structure Numeral where
  sign : Option Char
  whole : List Char
  fraction : Option (List Char)
  signed : sign = none ∨ sign = some '+' ∨ sign = some '-'
  wholeDigits : ∀ digit ∈ whole, isDecimalDigit digit = true
  fractionDigits : ∀ digit ∈ fraction.getD [], isDecimalDigit digit = true
  filled : whole ≠ [] ∨ fraction.getD [] ≠ []

/-! ## Characters -/

section Characters

variable {character : Char}

theorem isNameChar_of_isDigit
    (digit : character.isDigit = true) :
    isNameChar character = true := by
  simp [isNameChar, Char.isAlphanum, digit]

theorem isNameChar_of_isAlpha
    (letter : character.isAlpha = true) :
    isNameChar character = true := by
  simp [isNameChar, Char.isAlphanum, letter]

/-- The ASCII digits are decimal digits. -/
theorem isDecimalDigit_of_isDigit
    (digit : character.isDigit = true) :
    isDecimalDigit character = true := by
  have passed := passes_of_toNat_lt (fun other => !other.isDigit || isDecimalDigit other)
    (by decide) (toNat_lt_of_isDigit digit)
  simpa [digit] using passed

private theorem ne_of_isDecimalDigit
    {other : Char}
    (digit : isDecimalDigit character = true)
    (notDigit : isDecimalDigit other = false) :
    character ≠ other := by
  rintro rfl
  exact absurd digit (by simp [notDigit])

/-- No decimal digit changes in lower case. -/
theorem toLower_of_isDecimalDigit
    (digit : isDecimalDigit character = true) :
    character.toLower = character := by
  apply toLower_of_not_isUpper
  rw [Bool.eq_false_iff]
  intro upper
  have passed := passes_of_toNat_lt (fun other => !other.isUpper || !isDecimalDigit other)
    (by decide) (toNat_lt_of_isUpper upper)
  simp [upper, digit] at passed

/-- What stands in units is no digit, and stays such in lower case. -/
theorem unitChar_facts
    (inUnit : isUnitChar character = true) :
    isDecimalDigit character = false ∧ character ≠ '.' ∧ isUnitChar character.toLower = true ∧
      character.toLower.toLower = character.toLower := by
  by_cases percent : character = '%'
  · subst percent
    decide
  · have letter : character.isAlpha = true := by simpa [isUnitChar, percent] using inUnit
    have passed := passes_of_toNat_lt
      (fun other => !other.isAlpha || (!isDecimalDigit other && other != '.' &&
        isUnitChar other.toLower && other.toLower.toLower == other.toLower))
      (by decide) (toNat_lt_of_isAlpha letter)
    simpa [letter, and_assoc] using passed

end Characters

namespace Numeral

variable (numeral : Numeral)

def pointed : Option (List Char) → List Char
  | none => []
  | some digits => '.' :: digits

def unsigned : List Char :=
  numeral.whole ++ pointed numeral.fraction

def text : List Char :=
  numeral.sign.toList ++ numeral.unsigned

def IsAscii : Prop :=
  ∀ digit ∈ numeral.whole ++ numeral.fraction.getD [], digit.isDigit = true

/-- Without a sign, a number starts with a digit or with a point. -/
theorem exists_head_unsigned :
    ∃ first rest, numeral.unsigned = first :: rest ∧
      (isDecimalDigit first = true ∨ first = '.') := by
  unfold unsigned
  cases whole : numeral.whole with
  | cons first rest =>
      have digit := numeral.wholeDigits first (whole ▸ List.mem_cons_self)
      exact ⟨first, _, rfl, .inl digit⟩
  | nil =>
      cases fraction : numeral.fraction with
      | some digits => exact ⟨'.', digits, rfl, .inr rfl⟩
      | none =>
          have filled := numeral.filled
          simp [whole, fraction] at filled

/-- So it starts with no sign. -/
theorem head_unsigned_ne_sign
    {first : Char}
    {rest : List Char}
    (starts : numeral.unsigned = first :: rest) :
    first ≠ '+' ∧ first ≠ '-' := by
  obtain ⟨head, tail, equal, digitOrPoint⟩ := numeral.exists_head_unsigned
  obtain ⟨rfl, -⟩ := List.cons.inj (equal.symm.trans starts)
  rcases digitOrPoint with digit | rfl
  · exact ⟨ne_of_isDecimalDigit digit (by decide), ne_of_isDecimalDigit digit (by decide)⟩
  · decide

end Numeral

/-! ## Words -/

namespace Wording.NumericWord

def signOf : List Char → List Char
  | '+' :: _ => ['+']
  | '-' :: _ => ['-']
  | _ => []

def splitPoint : List Char → List Char × List Char
  | '.' :: rest => ('.' :: rest.takeWhile isDecimalDigit, rest.dropWhile isDecimalDigit)
  | rest => ([], rest)

/-- `read?` in its two steps: the sign, then digits and unit. -/
theorem read?_eq
    (word : List Char) :
    read? word =
      let unsigned := word.drop (signOf word).length
      let whole := unsigned.takeWhile isDecimalDigit
      let pointed := splitPoint (unsigned.dropWhile isDecimalDigit)
      if (!whole.isEmpty || 1 < pointed.1.length) && pointed.2.all isUnitChar then
        some ⟨signOf word ++ whole ++ pointed.1, pointed.2⟩
      else none :=
  rfl

private theorem signOf_text_append
    (numeral : Numeral)
    (unit : List Char) :
    signOf (numeral.text ++ unit) = numeral.sign.toList := by
  unfold Numeral.text
  rcases numeral.signed with unsigned | plus | minus
  · obtain ⟨first, rest, starts, -⟩ := numeral.exists_head_unsigned
    obtain ⟨notPlus, notMinus⟩ := numeral.head_unsigned_ne_sign starts
    rw [unsigned, starts]
    unfold signOf
    split
    · rename_i equal
      exact absurd (List.cons.inj equal).1 notPlus
    · rename_i equal
      exact absurd (List.cons.inj equal).1 notMinus
    · rfl
  · rw [plus]
    rfl
  · rw [minus]
    rfl

section Units

variable {unit : List Char} (inUnit : ∀ character ∈ unit, isUnitChar character = true)
include inUnit

/-- A unit starts with no digit. -/
theorem digits_of_unit :
    unit.takeWhile isDecimalDigit = [] ∧ unit.dropWhile isDecimalDigit = unit := by
  cases unit with
  | nil => exact ⟨rfl, rfl⟩
  | cons first rest =>
      have notDigit := (unitChar_facts (inUnit first List.mem_cons_self)).1
      simp [notDigit]

private theorem splitPoint_pointed_append
    {fraction : Option (List Char)}
    (digits : ∀ digit ∈ fraction.getD [], isDecimalDigit digit = true) :
    splitPoint (Numeral.pointed fraction ++ unit) = (Numeral.pointed fraction, unit) := by
  obtain ⟨none, all⟩ := digits_of_unit inUnit
  cases fraction with
  | some written =>
      rw [Option.getD_some] at digits
      show ('.' :: (written ++ unit).takeWhile isDecimalDigit,
        (written ++ unit).dropWhile isDecimalDigit) = ('.' :: written, unit)
      rw [List.takeWhile_append_of_pos digits, List.dropWhile_append_of_pos digits, none, all,
        List.append_nil]
  | none =>
      show splitPoint unit = ([], unit)
      unfold splitPoint
      split
      · exact absurd rfl (unitChar_facts (inUnit '.' List.mem_cons_self)).2.1
      · rfl

/-- A number with a unit after it is read as these two. -/
theorem read?_text_append
    (numeral : Numeral) :
    read? (numeral.text ++ unit) = some ⟨numeral.text, unit⟩ := by
  have unsigned :
      (numeral.text ++ unit).drop numeral.sign.toList.length =
        numeral.whole ++ (Numeral.pointed numeral.fraction ++ unit) := by
    rw [Numeral.text, Numeral.unsigned, List.append_assoc, List.append_assoc, List.drop_left]
  -- The digits before the point end at the point or at the unit.
  have ends :
      (Numeral.pointed numeral.fraction ++ unit).takeWhile isDecimalDigit = [] ∧
        (Numeral.pointed numeral.fraction ++ unit).dropWhile isDecimalDigit =
          Numeral.pointed numeral.fraction ++ unit := by
    cases numeral.fraction with
    | none => exact digits_of_unit inUnit
    | some digits => exact ⟨rfl, rfl⟩
  have filled :
      (!numeral.whole.isEmpty || 1 < (Numeral.pointed numeral.fraction).length) = true := by
    rcases numeral.filled with whole | fraction
    · simp [whole]
    · cases present : numeral.fraction with
      | none => simp [present] at fraction
      | some digits =>
          have someDigit : digits ≠ [] := by simpa [present] using fraction
          simp [Numeral.pointed, List.length_pos_iff, someDigit]
  rw [read?_eq, signOf_text_append]
  simp only [unsigned, List.takeWhile_append_of_pos numeral.wholeDigits,
    List.dropWhile_append_of_pos numeral.wholeDigits, ends, List.append_nil,
    splitPoint_pointed_append inUnit numeral.fractionDigits, filled,
    List.all_eq_true.mpr inUnit, Bool.and_self, if_true]
  rw [Numeral.text, Numeral.unsigned, List.append_assoc]

end Units

private theorem signOf_cases
    (word : List Char) :
    ∃ sign, (sign = none ∨ sign = some '+' ∨ sign = some '-') ∧ signOf word = sign.toList ∧
      word = sign.toList ++ word.drop sign.toList.length := by
  unfold signOf
  split
  · exact ⟨some '+', by simp, rfl, rfl⟩
  · exact ⟨some '-', by simp, rfl, rfl⟩
  · exact ⟨none, by simp, rfl, rfl⟩

private theorem splitPoint_cases
    (rest : List Char) :
    ∃ fraction unit, splitPoint rest = (Numeral.pointed fraction, unit) ∧
      rest = Numeral.pointed fraction ++ unit ∧
      ∀ digit ∈ fraction.getD [], isDecimalDigit digit = true := by
  unfold splitPoint
  split
  · rename_i after
    refine ⟨some (after.takeWhile isDecimalDigit), _, rfl, ?_, fun _ => List.mem_takeWhile_imp⟩
    simp [Numeral.pointed]
  · exact ⟨none, rest, rfl, rfl, by simp⟩

/-- What is read as a number and a unit is such a number with such a unit after it. -/
theorem exists_numeral_of_read?
    {word : List Char}
    {numeric : NumericWord}
    (reads : read? word = some numeric) :
    ∃ numeral : Numeral, numeric.number = numeral.text ∧
      (∀ character ∈ numeric.unit, isUnitChar character = true) ∧
      word = numeral.text ++ numeric.unit := by
  obtain ⟨sign, signed, signIs, wordIs⟩ := signOf_cases word
  let unsigned := word.drop sign.toList.length
  obtain ⟨fraction, unit, split, restIs, fractionDigits⟩ :=
    splitPoint_cases (unsigned.dropWhile isDecimalDigit)
  have unsignedIs :
      unsigned = unsigned.takeWhile isDecimalDigit ++ (Numeral.pointed fraction ++ unit) := by
    rw [← restIs, List.takeWhile_append_dropWhile]
  rw [read?_eq, signIs] at reads
  simp only [unsigned, split, Option.ite_none_right_eq_some, Bool.and_eq_true, Bool.or_eq_true,
    decide_eq_true_eq, Bool.not_eq_true', List.isEmpty_eq_false_iff, List.all_eq_true,
    Option.some.injEq] at reads
  obtain ⟨⟨hasDigits, inUnit⟩, rfl⟩ := reads
  have filled : unsigned.takeWhile isDecimalDigit ≠ [] ∨ fraction.getD [] ≠ [] := by
    apply hasDigits.imp_right
    intro long
    cases fraction with
    | none => simp [Numeral.pointed] at long
    | some digits => simpa [Numeral.pointed, List.length_pos_iff] using long
  refine ⟨⟨sign, unsigned.takeWhile isDecimalDigit, fraction, signed,
    fun _ => List.mem_takeWhile_imp, fractionDigits, filled⟩, ?_, inUnit, ?_⟩
  · simp [Numeral.text, Numeral.unsigned, unsigned]
  · rw [Numeral.text, Numeral.unsigned, List.append_assoc, List.append_assoc, ← unsignedIs]
    exact wordIs

end Wording.NumericWord

/-! ## Values -/

/-- Whether there is a minus sign, and what follows the sign. -/
def Binary64.splitSign : List Char → Bool × List Char
  | '+' :: body => (false, body)
  | '-' :: body => (true, body)
  | body => (false, body)

/-- `read?` in its two steps: the sign, then a word or a decimal. -/
theorem Binary64.read?_eq
    (text : List Char) :
    read? text =
      let signed := splitSign text
      let word := String.ofList (signed.2.map Char.toLower)
      if word = "inf" || word = "infinity" then some (.infinite signed.1)
      else if word = "nan" then some .nan
      else (Decimal.read? signed.2).map (Decimal.toBinary64 signed.1) :=
  rfl

namespace Decimal

/-- A point with the ASCII digits after it, without the point, split from what follows. -/
def splitFraction : List Char → List Char × List Char
  | '.' :: rest => (rest.takeWhile Char.isDigit, rest.dropWhile Char.isDigit)
  | rest => ([], rest)

def readTail? (whole fraction : List Char) : List Char → Option Decimal
  | [] => some (ofParts whole fraction 0)
  | mark :: exponent =>
    if mark = 'e' || mark = 'E' then (readExponent? exponent).map (ofParts whole fraction)
    else none

/-- `read?` in its two steps: digits, then an exponent. -/
theorem read?_eq
    (text : List Char) :
    read? text =
      let whole := text.takeWhile Char.isDigit
      let pointed := splitFraction (text.dropWhile Char.isDigit)
      if whole.isEmpty && pointed.1.isEmpty then none else readTail? whole pointed.1 pointed.2 :=
  rfl

/-- A decimal does not go on after its digits with those of another script. -/
theorem readTail?_dropWhile_of_foreign
    {digits : List Char}
    (decimal : ∀ digit ∈ digits, isDecimalDigit digit = true)
    (foreign : ¬∀ digit ∈ digits, digit.isDigit = true)
    (whole fraction more : List Char) :
    readTail? whole fraction (digits.dropWhile Char.isDigit ++ more) = none := by
  cases remaining : digits.dropWhile Char.isDigit with
  | nil => exact absurd (List.dropWhile_eq_nil_iff.mp remaining) foreign
  | cons first rest =>
      have isDigit : isDecimalDigit first = true :=
        decimal first ((List.dropWhile_suffix _).mem (remaining ▸ List.mem_cons_self))
      have notSmall : first ≠ 'e' := ne_of_isDecimalDigit isDigit (by decide)
      have notLarge : first ≠ 'E' := ne_of_isDecimalDigit isDigit (by decide)
      simp [readTail?, notSmall, notLarge]

end Decimal

namespace Numeral

variable (numeral : Numeral)

def value : Binary64 :=
  Decimal.toBinary64 (numeral.sign = some '-')
    (Decimal.ofParts numeral.whole (numeral.fraction.getD []) 0)

theorem isAscii_iff :
    numeral.IsAscii ↔
      (∀ digit ∈ numeral.whole, digit.isDigit = true) ∧
        ∀ digit ∈ numeral.fraction.getD [], digit.isDigit = true :=
  List.forall_mem_append

private theorem read?_unsigned_of_foreign
    (foreign : ¬∀ digit ∈ numeral.whole, digit.isDigit = true) :
    Decimal.read? numeral.unsigned = none := by
  have tail :=
    Decimal.readTail?_dropWhile_of_foreign numeral.wholeDigits foreign
      (numeral.unsigned.takeWhile Char.isDigit) [] (pointed numeral.fraction)
  cases rest : numeral.whole.dropWhile Char.isDigit with
  | nil => exact absurd (List.dropWhile_eq_nil_iff.mp rest) foreign
  | cons first others =>
      have isDigit : isDecimalDigit first = true :=
        numeral.wholeDigits first ((List.dropWhile_suffix _).mem (rest ▸ List.mem_cons_self))
      have notPoint : first ≠ '.' := ne_of_isDecimalDigit isDigit (by decide)
      have pointless :
          Decimal.splitFraction (first :: others ++ pointed numeral.fraction) =
            ([], first :: others ++ pointed numeral.fraction) := by
        unfold Decimal.splitFraction
        split
        · rename_i equal
          exact absurd (List.cons.inj equal).1 notPoint
        · rfl
      rw [rest] at tail
      rw [Decimal.read?_eq, unsigned, List.dropWhile_append, rest]
      simp only [List.isEmpty_cons, Bool.false_eq_true, if_false, pointless]
      rw [← unsigned, tail, ite_self]

/-- The digits before the point are read up to the point. -/
theorem read?_unsigned_of_whole
    (whole : ∀ digit ∈ numeral.whole, digit.isDigit = true) :
    Decimal.read? numeral.unsigned =
      let rest := Decimal.splitFraction (pointed numeral.fraction)
      if numeral.whole.isEmpty && rest.1.isEmpty then none
      else Decimal.readTail? numeral.whole rest.1 rest.2 := by
  have ends :
      (pointed numeral.fraction).takeWhile Char.isDigit = [] ∧
        (pointed numeral.fraction).dropWhile Char.isDigit = pointed numeral.fraction := by
    cases numeral.fraction with
    | none | some _ => exact ⟨rfl, rfl⟩
  rw [Decimal.read?_eq, unsigned, List.takeWhile_append_of_pos whole,
    List.dropWhile_append_of_pos whole, ends.1, ends.2, List.append_nil]

theorem read?_unsigned_of_isAscii
    (ascii : numeral.IsAscii) :
    Decimal.read? numeral.unsigned =
      some (Decimal.ofParts numeral.whole (numeral.fraction.getD []) 0) := by
  obtain ⟨whole, digits⟩ := numeral.isAscii_iff.mp ascii
  have filled := numeral.filled
  rw [numeral.read?_unsigned_of_whole whole]
  cases fraction : numeral.fraction with
  | none =>
      have someDigit : numeral.whole ≠ [] := by simpa [fraction] using filled
      simp [pointed, Decimal.splitFraction, Decimal.readTail?, someDigit]
  | some written =>
      rw [fraction, Option.getD_some] at digits filled
      have taken : written.takeWhile Char.isDigit = written := List.takeWhile_eq_self_iff.mpr digits
      have dropped : written.dropWhile Char.isDigit = [] := List.dropWhile_eq_nil_iff.mpr digits
      have someDigit : (numeral.whole.isEmpty && written.isEmpty) = false := by
        simpa [imp_iff_not_or] using filled
      simp only [pointed, Decimal.splitFraction, taken, dropped, someDigit]
      rfl

private theorem read?_unsigned_of_not_isAscii
    (foreign : ¬numeral.IsAscii) :
    Decimal.read? numeral.unsigned = none := by
  rw [isAscii_iff, Classical.not_and_iff_not_or_not] at foreign
  by_cases whole : ∀ digit ∈ numeral.whole, digit.isDigit = true
  · have decimal := numeral.fractionDigits
    have inFraction := foreign.resolve_left (not_not.mpr whole)
    rw [numeral.read?_unsigned_of_whole whole]
    cases fraction : numeral.fraction with
    | none => simp [fraction] at inFraction
    | some written =>
        rw [fraction, Option.getD_some] at decimal inFraction
        have tail :=
          Decimal.readTail?_dropWhile_of_foreign decimal inFraction numeral.whole
            (written.takeWhile Char.isDigit) []
        rw [List.append_nil] at tail
        simp only [pointed, Decimal.splitFraction, tail, ite_self]
  · exact numeral.read?_unsigned_of_foreign whole

/-- A number without its sign is no word for infinity or not-a-number. -/
theorem lower_unsigned_ne :
    let word := String.ofList (numeral.unsigned.map Char.toLower)
    word ≠ "inf" ∧ word ≠ "infinity" ∧ word ≠ "nan" := by
  intro word
  obtain ⟨first, rest, starts, digitOrPoint⟩ := numeral.exists_head_unsigned
  have lowered : first.toLower = first := by
    rcases digitOrPoint with digit | rfl
    · exact toLower_of_isDecimalDigit digit
    · decide
  have wordIs : word.toList = first :: rest.map Char.toLower := by
    simp [word, starts, lowered]
  have heads : first ≠ 'i' ∧ first ≠ 'n' := by
    rcases digitOrPoint with digit | rfl
    · exact ⟨ne_of_isDecimalDigit digit (by decide), ne_of_isDecimalDigit digit (by decide)⟩
    · decide
  refine ⟨?_, ?_, ?_⟩
  all_goals
    intro same
    rw [same] at wordIs
  · exact heads.1 (List.cons.inj wordIs).1.symm
  · exact heads.1 (List.cons.inj wordIs).1.symm
  · exact heads.2 (List.cons.inj wordIs).1.symm

theorem splitSign_text :
    Binary64.splitSign numeral.text = (decide (numeral.sign = some '-'), numeral.unsigned) := by
  unfold text
  rcases numeral.signed with unsigned | plus | minus
  · obtain ⟨first, rest, starts, -⟩ := numeral.exists_head_unsigned
    obtain ⟨notPlus, notMinus⟩ := numeral.head_unsigned_ne_sign starts
    rw [unsigned, starts]
    unfold Binary64.splitSign
    split
    · rename_i equal
      exact absurd (List.cons.inj equal).1 notPlus
    · rename_i equal
      exact absurd (List.cons.inj equal).1 notMinus
    · rfl
  · rw [plus]
    rfl
  · rw [minus]
    rfl

/-- The sign decides only which of the two numbers is meant. -/
theorem read?_text_eq_map :
    Binary64.read? numeral.text =
      (Decimal.read? numeral.unsigned).map
        (Decimal.toBinary64 (decide (numeral.sign = some '-'))) := by
  obtain ⟨notInf, notInfinity, notNan⟩ := numeral.lower_unsigned_ne
  rw [Binary64.read?_eq, splitSign_text]
  simp [notInf, notInfinity, notNan]

/-- A number with ASCII digits is read as its value, and no other is read. -/
theorem read?_text_eq_some_iff
    (value : Binary64) :
    Binary64.read? numeral.text = some value ↔ numeral.IsAscii ∧ numeral.value = value := by
  rw [read?_text_eq_map]
  by_cases ascii : numeral.IsAscii
  · rw [numeral.read?_unsigned_of_isAscii ascii]
    simp [ascii, Numeral.value]
  · rw [numeral.read?_unsigned_of_not_isAscii ascii]
    simp [ascii]

/-! ## The short spelling -/

def shortWhole : List Char :=
  if numeral.whole = ['0'] ∧ numeral.fraction.getD [] ≠ [] then [] else numeral.whole

/-- The number without a plus sign and without a zero before its point. -/
def short : Numeral where
  sign := if numeral.sign = some '+' then none else numeral.sign
  whole := numeral.shortWhole
  fraction := numeral.fraction
  signed := by
    rcases numeral.signed with unsigned | plus | minus
    · simp [unsigned]
    · simp [plus]
    · simp [minus]
  wholeDigits := by
    unfold shortWhole
    split
    · simp
    · exact numeral.wholeDigits
  fractionDigits := numeral.fractionDigits
  filled := by
    unfold shortWhole
    split
    · rename_i needless
      exact .inr needless.2
    · exact numeral.filled

private theorem dropPlus_text :
    dropPlus numeral.text = numeral.short.sign.toList ++ numeral.unsigned := by
  obtain ⟨first, rest, starts, -⟩ := numeral.exists_head_unsigned
  obtain ⟨notPlus, -⟩ := numeral.head_unsigned_ne_sign starts
  have unsignedKept : dropPlus numeral.unsigned = numeral.unsigned := by
    rw [starts]
    unfold dropPlus
    split
    · rename_i equal
      exact absurd (List.cons.inj equal).1 notPlus
    · rfl
  unfold text short
  rcases numeral.signed with unsigned | plus | minus
  · simp [unsigned, unsignedKept]
  · simp [plus, dropPlus, unsignedKept]
  · simp [minus, dropPlus]

/-- A text that starts with a zero and a point has no other digit before the point. -/
theorem parts_of_unsigned_eq
    {digits : List Char}
    (spelled : numeral.unsigned = '0' :: '.' :: digits) :
    numeral.whole = ['0'] ∧ numeral.fraction = some digits := by
  have wholeDigits := numeral.wholeDigits
  unfold unsigned at spelled
  cases fraction : numeral.fraction with
  | none =>
      -- The point would be one of the digits.
      rw [fraction, pointed, List.append_nil] at spelled
      have point := wholeDigits '.' (by simp [spelled])
      exact absurd rfl (ne_of_isDecimalDigit point (by decide))
  | some written =>
      rw [fraction, pointed] at spelled
      match whole : numeral.whole with
      | [] =>
          rw [whole] at spelled
          exact absurd (List.cons.inj spelled).1 (by decide)
      | [only] =>
          rw [whole] at spelled
          obtain ⟨rfl, rest⟩ := List.cons.inj spelled
          obtain ⟨-, rfl⟩ := List.cons.inj rest
          exact ⟨rfl, rfl⟩
      | first :: second :: others =>
          rw [whole] at spelled
          have isPoint : second = '.' := (List.cons.inj (List.cons.inj spelled).2).1
          have digit := wholeDigits second (by simp [whole])
          exact absurd isPoint (ne_of_isDecimalDigit digit (by decide))

/-- A zero before the point is dropped if digits follow the point. -/
theorem dropLeadingZero_unsigned
    (wholesome : ¬(numeral.whole = ['0'] ∧ numeral.fraction = some [])) :
    Property.dropLeadingZero numeral.unsigned = numeral.short.unsigned := by
  show _ = numeral.shortWhole ++ pointed numeral.fraction
  unfold Property.dropLeadingZero
  split
  · rename_i digits spelled
    obtain ⟨whole, fraction⟩ := numeral.parts_of_unsigned_eq spelled
    have someDigit : digits ≠ [] := by
      rintro rfl
      exact wholesome ⟨whole, fraction⟩
    simp [shortWhole, whole, fraction, someDigit, pointed]
  · rename_i spelled
    exact absurd rfl (numeral.head_unsigned_ne_sign spelled).2
  · rename_i notZero _
    have needed : ¬(numeral.whole = ['0'] ∧ numeral.fraction.getD [] ≠ []) := by
      rintro ⟨whole, someDigit⟩
      cases fraction : numeral.fraction with
      | none => simp [fraction] at someDigit
      | some digits => exact notZero digits (by simp [unsigned, whole, fraction, pointed])
    rw [shortWhole, if_neg needed]
    rfl

private theorem dropLeadingZero_minus
    {first : Char}
    (notMinus : first ≠ '-')
    (rest : List Char) :
    Property.dropLeadingZero ('-' :: first :: rest) =
      '-' :: Property.dropLeadingZero (first :: rest) := by
  by_cases zero : first = '0'
  · subst zero
    cases rest with
    | nil => rfl
    | cons second others =>
        by_cases point : second = '.'
        · subst point
          rfl
        · simp [Property.dropLeadingZero, point]
  · simp [Property.dropLeadingZero, zero, notMinus]

/-- The two steps toward the short spelling lead there, for a number that is not just a zero with a
point after it. -/
theorem dropLeadingZero_dropPlus_text
    (wholesome : ¬(numeral.whole = ['0'] ∧ numeral.fraction = some [])) :
    Property.dropLeadingZero (dropPlus numeral.text) = numeral.short.text := by
  have dropped := numeral.dropLeadingZero_unsigned wholesome
  rw [dropPlus_text, text]
  rcases numeral.short.signed with unsigned | plus | minus
  · rw [unsigned]
    exact dropped
  · have notPlus : numeral.short.sign ≠ some '+' := by
      unfold short
      split
      · simp
      · assumption
    exact absurd plus notPlus
  · obtain ⟨first, rest, starts, -⟩ := numeral.exists_head_unsigned
    have notMinus := (numeral.head_unsigned_ne_sign starts).2
    rw [minus, ← dropped, starts]
    exact dropLeadingZero_minus notMinus rest

/-- Without a plus sign, the zero before the point is all there is to drop. -/
theorem dropLeadingZero_text
    (unsigned : numeral.sign ≠ some '+')
    (wholesome : ¬(numeral.whole = ['0'] ∧ numeral.fraction = some [])) :
    Property.dropLeadingZero numeral.text = numeral.short.text := by
  have plain : dropPlus numeral.text = numeral.text := by
    rw [dropPlus_text, text]
    simp [short, unsigned]
  rw [← numeral.dropLeadingZero_dropPlus_text wholesome, plain]

theorem sign_short_iff :
    numeral.short.sign = some '-' ↔ numeral.sign = some '-' := by
  rcases numeral.signed with unsigned | plus | minus
  · simp [short, unsigned]
  · simp [short, plus]
  · simp [short, minus]

theorem ofParts_shortWhole :
    Decimal.ofParts numeral.shortWhole (numeral.fraction.getD []) 0 =
      Decimal.ofParts numeral.whole (numeral.fraction.getD []) 0 := by
  unfold shortWhole
  split
  · rename_i needless
    rw [needless.1]
    rfl
  · rfl

/-- The short spelling stands for the same number. -/
theorem value_short :
    numeral.short.value = numeral.value := by
  unfold value
  rw [decide_eq_decide.mpr numeral.sign_short_iff, ← numeral.ofParts_shortWhole]
  rfl

theorem isAscii_short
    (ascii : numeral.IsAscii) :
    numeral.short.IsAscii := by
  obtain ⟨whole, fraction⟩ := numeral.isAscii_iff.mp ascii
  rw [isAscii_iff]
  refine ⟨?_, fraction⟩
  show ∀ digit ∈ numeral.shortWhole, _
  unfold shortWhole
  split
  · simp
  · exact whole

private theorem whole_eq_of_short
    (whole : numeral.short.whole = ['0']) :
    numeral.whole = ['0'] ∧ numeral.fraction.getD [] = [] := by
  have unfolded : numeral.shortWhole = ['0'] := whole
  unfold shortWhole at unfolded
  split at unfolded
  · cases unfolded
  · rename_i needed
    exact ⟨unfolded, not_not.mp fun someDigit => needed ⟨unfolded, someDigit⟩⟩

/-- The short spelling is its own short spelling. -/
theorem text_short_short :
    numeral.short.short.text = numeral.short.text := by
  have sign : numeral.short.short.sign = numeral.short.sign := by
    rcases numeral.signed with unsigned | plus | minus
    · simp [short, unsigned]
    · simp [short, plus]
    · simp [short, minus]
  have whole : numeral.short.short.whole = numeral.short.whole := by
    apply if_neg
    rintro ⟨zero, someDigit⟩
    exact someDigit (numeral.whole_eq_of_short zero).2
  rw [text, unsigned, sign, whole]
  rfl

/-- Nothing is left to drop from the short spelling. -/
theorem dropLeadingZero_dropPlus_short
    (wholesome : ¬(numeral.whole = ['0'] ∧ numeral.fraction = some [])) :
    Property.dropLeadingZero (dropPlus numeral.short.text) = numeral.short.text := by
  rw [dropLeadingZero_dropPlus_text, text_short_short]
  rintro ⟨whole, fraction⟩
  exact wholesome ⟨(numeral.whole_eq_of_short whole).1, fraction⟩

/-- A zero with a point after it is a zero. -/
theorem wholesome_of_value
    (nonzero : numeral.value.isZero = false) :
    ¬(numeral.whole = ['0'] ∧ numeral.fraction = some []) := by
  rintro ⟨whole, fraction⟩
  have zero : numeral.value.isZero = true := by
    rw [value, whole, fraction]
    rfl
  rw [zero] at nonzero
  cases nonzero

end Numeral

end AtomicCss
