import AtomicCss.Proofs.Number.StyleText

/-!
Contract: the one spelling of a word is a word in its one spelling.

Owns:
- words as characters that neither separate nor are white space;
- units in their one spelling;
- the forms that a respelled number takes, and that each of them stays as it is.

Does not own: where the words of a text begin and end.
-/

namespace AtomicCss.Wording

open AtomicCss.Text

/-- At least one character, and none that ends a word or is white space. -/
def IsSolid (characters : List Char) : Prop :=
  characters ≠ [] ∧ ∀ character ∈ characters, endsWord character = false ∧ isBlank character = false

instance (characters : List Char) : Decidable (IsSolid characters) :=
  decidable_of_iff
    (characters ≠ [] ∧
      (characters.all fun character => !endsWord character && !isBlank character) = true)
    (by simp [IsSolid])

/-- A unit as it is written after a number, in lower case: none, or a known one. -/
structure IsUnit (name : String) : Prop where
  inUnit : ∀ character ∈ name.toList, isUnitChar character = true
  lower : name.toList.map Char.toLower = name.toList
  known : name = "" ∨ Property.knownUnits.contains name = true

/-! ## Characters -/

private theorem solid_of_isNameChar
    {character : Char}
    (named : isNameChar character = true) :
    endsWord character = false ∧ isBlank character = false :=
  ⟨endsWord_of_isNameChar named, isBlank_of_isNameChar named⟩

def isNumberChar (character : Char) : Bool :=
  isNameChar character || character = '+' || character = '.' || character = '%'

private theorem isNumberChar_of_isDigit
    {character : Char}
    (digit : character.isDigit = true) :
    isNumberChar character = true := by
  simp [isNumberChar, isNameChar_of_isDigit digit]

theorem isNumberChar_of_isUnitChar
    {character : Char}
    (inUnit : isUnitChar character = true) :
    isNumberChar character = true := by
  rw [isUnitChar, Bool.or_eq_true, decide_eq_true_eq] at inUnit
  rcases inUnit with letter | rfl
  · simp [isNumberChar, isNameChar_of_isAlpha letter]
  · decide

theorem isNumberChar_of_mem_text
    {numeral : Numeral}
    (ascii : numeral.IsAscii)
    {character : Char}
    (member : character ∈ numeral.text) :
    isNumberChar character = true := by
  obtain ⟨whole, fraction⟩ := numeral.isAscii_iff.mp ascii
  rw [Numeral.text, Numeral.unsigned, List.mem_append, List.mem_append] at member
  rcases member with sign | digit | pointed
  · rcases numeral.signed with unsigned | plus | minus
    · simp [unsigned] at sign
    · obtain rfl : character = '+' := by simpa [plus] using sign
      decide
    · obtain rfl : character = '-' := by simpa [minus] using sign
      decide
  · exact isNumberChar_of_isDigit (whole character digit)
  · cases present : numeral.fraction with
    | none => simp [present, Numeral.pointed] at pointed
    | some digits =>
        rw [present, Numeral.pointed, List.mem_cons] at pointed
        rcases pointed with rfl | digit
        · decide
        · rw [present, Option.getD_some] at fraction
          exact isNumberChar_of_isDigit (fraction character digit)

private theorem solid_of_isNumberChar
    {character : Char}
    (inNumber : isNumberChar character = true) :
    endsWord character = false ∧ isBlank character = false := by
  simp only [isNumberChar, Bool.or_eq_true, decide_eq_true_eq] at inNumber
  rcases inNumber with ((named | rfl) | rfl) | rfl
  · exact solid_of_isNameChar named
  all_goals decide

private theorem solid_of_isUnitChar
    {character : Char}
    (inUnit : isUnitChar character = true) :
    endsWord character = false ∧ isBlank character = false :=
  solid_of_isNumberChar (isNumberChar_of_isUnitChar inUnit)

private theorem solid_of_mem_text
    {numeral : Numeral}
    (ascii : numeral.IsAscii)
    {character : Char}
    (member : character ∈ numeral.text) :
    endsWord character = false ∧ isBlank character = false :=
  solid_of_isNumberChar (isNumberChar_of_mem_text ascii member)

/-- A number with a unit is a word. -/
theorem isSolid_text_append
    {numeral : Numeral}
    (ascii : numeral.IsAscii)
    {name : String}
    (isUnit : IsUnit name) :
    IsSolid (numeral.text ++ name.toList) := by
  constructor
  · obtain ⟨first, rest, starts, -⟩ := numeral.exists_head_unsigned
    simp [Numeral.text, starts]
  · rw [List.forall_mem_append]
    exact ⟨fun _ => solid_of_mem_text ascii,
      fun character member => solid_of_isUnitChar (isUnit.inUnit character member)⟩

/-! ## Spelled numbers -/

/-- The unit of a word in its one spelling. -/
theorem isUnit_unitName
    {word : NumericWord}
    (inUnit : ∀ character ∈ word.unit, isUnitChar character = true)
    (known : word.hasKnownUnit = true) :
    IsUnit word.unitName := by
  have chars : word.unitName.toList = word.unit.map Char.toLower := String.toList_ofList
  refine ⟨?_, ?_, ?_⟩
  · rw [chars, List.forall_mem_map]
    exact fun character member => (unitChar_facts (inUnit character member)).2.2.1
  · rw [chars, List.map_map]
    exact List.map_congr_left fun character member =>
      (unitChar_facts (inUnit character member)).2.2.2
  · rw [NumericWord.hasKnownUnit, Bool.or_eq_true, List.isEmpty_iff] at known
    apply known.imp_left
    intro missing
    rw [NumericWord.unitName, missing]
    rfl

/-- What a number with a unit is respelled as. -/
theorem respellWord_text_append
    (depth : Nat)
    {numeral : Numeral}
    (ascii : numeral.IsAscii)
    {name : String}
    (isUnit : IsUnit name) :
    respellWord depth (numeral.text ++ name.toList) =
      (numberText depth numeral.text numeral.value name).toList := by
  have unitIs : NumericWord.unitName ⟨numeral.text, name.toList⟩ = name := by
    rw [NumericWord.unitName, isUnit.lower, String.ofList_toList]
  have known : NumericWord.hasKnownUnit ⟨numeral.text, name.toList⟩ = true := by
    rw [NumericWord.hasKnownUnit, unitIs, Bool.or_eq_true, List.isEmpty_iff]
    apply isUnit.known.imp_left
    rintro rfl
    rfl
  have value : Binary64.read? numeral.text = some numeral.value :=
    (numeral.read?_text_eq_some_iff _).mpr ⟨ascii, rfl⟩
  unfold respellWord
  simp only [NumericWord.read?_text_append isUnit.inUnit, known, if_true, value, unitIs]

/-- A word stays as it is, or is respelled as a number with a unit. -/
theorem respellWord_cases
    (depth : Nat)
    (word : List Char) :
    respellWord depth word = word ∨
      ∃ (numeral : Numeral) (name : String), numeral.IsAscii ∧ IsUnit name ∧
        respellWord depth word = (numberText depth numeral.text numeral.value name).toList := by
  unfold respellWord
  split
  · exact .inl rfl
  · rename_i numeric reads
    obtain ⟨numeral, number, inUnit, -⟩ := NumericWord.exists_numeral_of_read? reads
    split
    · rename_i known
      split
      · exact .inl rfl
      · rename_i value valueReads
        rw [number, Numeral.read?_text_eq_some_iff] at valueReads
        obtain ⟨ascii, rfl⟩ := valueReads
        rw [number]
        exact .inr ⟨numeral, numeric.unitName, ascii, isUnit_unitName inUnit known, rfl⟩
    · exact .inl rfl

/-! ## Spellings that stay -/

def IsSettledWord (depth : Nat) (word : List Char) : Prop :=
  respellWord depth word = word ∧ IsSolid word

/-- A nonzero number in its short spelling stays as it is, unless it is a time to be given in
seconds. -/
theorem isSettledWord_short
    (depth : Nat)
    {numeral : Numeral}
    (ascii : numeral.IsAscii)
    (nonzero : numeral.value.isZero = false)
    {name : String}
    (isUnit : IsUnit name)
    (brief : (name = "ms" && numeral.value.magnitudeAtLeast 10) = false) :
    IsSettledWord depth (numeral.short.text ++ name.toList) := by
  have shortAscii := numeral.isAscii_short ascii
  have kept := numeral.dropLeadingZero_dropPlus_short (numeral.wholesome_of_value nonzero)
  refine ⟨?_, isSolid_text_append shortAscii isUnit⟩
  rw [respellWord_text_append depth shortAscii isUnit, numeral.value_short, numberText, nonzero,
    brief, kept]
  simp

/-- A word that is no number stays as it is. -/
theorem isSettledWord_of_read?
    (depth : Nat)
    {word : List Char}
    (unread : NumericWord.read? word = none)
    (solid : IsSolid word) :
    IsSettledWord depth word := by
  refine ⟨?_, solid⟩
  rw [respellWord, unread]

def zeroNumeral : Numeral :=
  Numeral.ascii false ['0'] none (List.all_eq_true.mp (by decide)) (by decide)

theorem isAscii_zeroNumeral :
    zeroNumeral.IsAscii :=
  List.all_eq_true.mp (by decide)

def zeroUnit (depth : Nat) (unit : String) : String :=
  if unit = "%" then "%"
  else if Property.timeUnits.contains unit then "s"
  else if Property.angleUnits.contains unit || 0 < depth then unit
  else ""

theorem zeroText_eq
    (depth : Nat)
    (unit : String) :
    zeroText depth unit = "0" ++ zeroUnit depth unit := by
  unfold zeroText zeroUnit
  split
  · rfl
  · split
    · rfl
    · split
      · rfl
      · rfl

private theorem zeroUnit_zeroUnit
    (depth : Nat)
    (unit : String) :
    zeroUnit depth (zeroUnit depth unit) = zeroUnit depth unit := by
  have none : zeroUnit depth "" = "" := by
    unfold zeroUnit
    split
    · contradiction
    · split
      · contradiction
      · exact ite_self _
  by_cases percent : unit = "%"
  · rw [percent]
    rfl
  · by_cases time : Property.timeUnits.contains unit = true
    · rw [zeroUnit.eq_def depth unit, if_neg percent, if_pos time]
      rfl
    · rw [zeroUnit.eq_def depth unit, if_neg percent, if_neg time]
      split
      · rename_i kept
        rw [zeroUnit, if_neg percent, if_neg time, if_pos kept]
      · exact none

theorem isUnit_zeroUnit
    (depth : Nat)
    {unit : String}
    (isUnit : IsUnit unit) :
    IsUnit (zeroUnit depth unit) := by
  unfold zeroUnit
  split
  · exact ⟨List.all_eq_true.mp (by decide), by decide, .inr (by decide)⟩
  · split
    · exact ⟨List.all_eq_true.mp (by decide), by decide, .inr (by decide)⟩
    · split
      · exact isUnit
      · exact ⟨List.all_eq_true.mp (by decide), by decide, .inl rfl⟩

/-- A zero stays as it is. -/
theorem isSettledWord_zeroText
    (depth : Nat)
    {unit : String}
    (isUnit : IsUnit unit) :
    IsSettledWord depth (zeroText depth unit).toList := by
  have ascii : zeroNumeral.IsAscii := isAscii_zeroNumeral
  have zero : zeroNumeral.value.isZero = true := by decide +kernel
  have unitIs := isUnit_zeroUnit depth isUnit
  have spelled :
      (zeroText depth unit).toList = zeroNumeral.text ++ (zeroUnit depth unit).toList := by
    rw [zeroText_eq, String.toList_append]
    rfl
  rw [spelled]
  refine ⟨?_, isSolid_text_append ascii unitIs⟩
  rw [respellWord_text_append depth ascii unitIs, numberText, zero, if_pos rfl, zeroText_eq,
    zeroUnit_zeroUnit, String.toList_append]
  rfl

/-- The text of a time in seconds. -/
theorem toList_seconds
    (value : Binary64) :
    (Property.shortNumber value ++ "s").toList =
      Property.dropLeadingZero value.styleText.toList ++ "s".toList := by
  rw [Property.shortNumber, String.toList_append, String.toList_ofList]

theorem isUnit_second :
    IsUnit "s" :=
  ⟨List.all_eq_true.mp (by decide), by decide, .inr (by decide)⟩

/-- A time in seconds stays as it is. -/
theorem isSettledWord_seconds
    (depth : Nat)
    (value : Binary64) :
    IsSettledWord depth (Property.shortNumber value ++ "s").toList := by
  rw [toList_seconds]
  have form := isStyleNumber_styleText value
  generalize value.styleText.toList = written at form
  cases form with
  | zero =>
      have settled := isSettledWord_zeroText depth isUnit_second
      rw [zeroText_eq, String.toList_append] at settled
      exact settled
  | number numeral unsigned ascii nonzero =>
      rw [numeral.dropLeadingZero_text unsigned (numeral.wholesome_of_value nonzero)]
      exact isSettledWord_short depth ascii nonzero isUnit_second (by simp)
  | notANumber | infinite | negativeInfinite =>
      exact isSettledWord_of_read? depth (by decide +kernel) (by decide +kernel)

/-- The text of a number stays as it is. -/
theorem isSettledWord_numberText
    (depth : Nat)
    {numeral : Numeral}
    (ascii : numeral.IsAscii)
    {name : String}
    (isUnit : IsUnit name) :
    IsSettledWord depth (numberText depth numeral.text numeral.value name).toList := by
  unfold numberText
  split
  · exact isSettledWord_zeroText depth isUnit
  · rename_i notZero
    have nonzero : numeral.value.isZero = false := by simpa using notZero
    split
    · exact isSettledWord_seconds depth _
    · rename_i notLong
      have brief : (name = "ms" && numeral.value.magnitudeAtLeast 10) = false := by
        simpa using notLong
      rw [numeral.dropLeadingZero_dropPlus_text (numeral.wholesome_of_value nonzero),
        String.toList_append, String.toList_ofList]
      exact isSettledWord_short depth ascii nonzero isUnit brief

/-- Respelling a word twice is respelling it once. -/
theorem respellWord_respellWord
    (depth : Nat)
    (word : List Char) :
    respellWord depth (respellWord depth word) = respellWord depth word := by
  rcases respellWord_cases depth word with same | ⟨numeral, name, ascii, isUnit, respelled⟩
  · rw [same, same]
  · rw [respelled]
    exact (isSettledWord_numberText depth ascii isUnit).1

/-- A respelled word keeps what all its characters have in common with those of numbers. -/
theorem respellWord_keeps
    (depth : Nat)
    {word : List Char}
    (nonempty : word ≠ [])
    {kept : Char → Prop}
    (solidKept : ∀ character,
      endsWord character = false ∧ isBlank character = false → kept character)
    (all : ∀ character ∈ word, kept character) :
    respellWord depth word ≠ [] ∧ ∀ character ∈ respellWord depth word, kept character := by
  rcases respellWord_cases depth word with same | ⟨numeral, name, ascii, isUnit, respelled⟩
  · rw [same]
    exact ⟨nonempty, all⟩
  · rw [respelled]
    obtain ⟨filled, solid⟩ := (isSettledWord_numberText depth ascii isUnit).2
    exact ⟨filled, fun character member => solidKept character (solid character member)⟩

end AtomicCss.Wording
