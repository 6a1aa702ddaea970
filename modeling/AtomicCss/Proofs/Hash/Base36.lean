import AtomicCss.Hash.Murmur
import AtomicCss.Proofs.Text.Ascii
import Mathlib.Algebra.Group.Nat.Defs

/-!
Contract: words in base 36, read back.

Owns:
- the digits of base 36 and their values;
- reading a number from its digits;
- the digits of a word: how many there are, how they start, and which word they spell.

Does not own: what the words are hashes of.
-/

namespace AtomicCss.Hash

def digitValue? (character : Char) : Option Nat :=
  if character.isDigit then some (character.toNat - '0'.toNat)
  else if character.isLower then some (10 + (character.toNat - 'a'.toNat))
  else none

def appendDigit? (value : Nat) (character : Char) : Option Nat :=
  (digitValue? character).map (36 * value + ·)

/-- The number that digits spell in base 36, the highest first. -/
def read36? (digits : List Char) : Option Nat :=
  digits.foldlM appendDigit? 0

/-! ## Digits -/

private theorem digitValue?_digit36
    {value : Nat}
    (small : value < 36) :
    digitValue? (digit36 value) = some value := by
  have tested :
      (List.range 36).all fun other => digitValue? (digit36 other) == some other := by
    decide
  simpa using List.all_eq_true.mp tested value (List.mem_range.mpr small)

private theorem isDigit_or_isLower_digit36
    {value : Nat}
    (small : value < 36) :
    (digit36 value).isDigit = true ∨ (digit36 value).isLower = true := by
  have tested :
      (List.range 36).all fun other => (digit36 other).isDigit || (digit36 other).isLower := by
    decide
  simpa using List.all_eq_true.mp tested value (List.mem_range.mpr small)

section Recursion

variable {count value : Nat}

private theorem digits36_of_lt
    (small : value < 36) :
    digits36 (count + 1) value = [digit36 value] := by
  rw [digits36, if_pos small]

private theorem digits36_of_le
    (large : 36 ≤ value) :
    digits36 (count + 1) value = digits36 count (value / 36) ++ [digit36 (value % 36)] := by
  rw [digits36, if_neg (Nat.not_lt.mpr large)]

end Recursion

private theorem length_digits36_le
    (count value : Nat) :
    (digits36 count value).length ≤ count := by
  induction count generalizing value with
  | zero => exact Nat.le_refl 0
  | succ smaller inductionHypothesis =>
      rcases Nat.lt_or_ge value 36 with small | large
      · rw [digits36_of_lt small, List.length_singleton]
        omega
      · rw [digits36_of_le large, List.length_append, List.length_singleton]
        exact Nat.succ_le_succ (inductionHypothesis (value / 36))

private theorem isDigit_or_isLower_of_mem_digits36
    (count value : Nat) :
    ∀ character ∈ digits36 count value,
      character.isDigit = true ∨ character.isLower = true := by
  induction count generalizing value with
  | zero =>
      intro character member
      cases member
  | succ smaller inductionHypothesis =>
      intro character member
      rcases Nat.lt_or_ge value 36 with small | large
      · rw [digits36_of_lt small, List.mem_singleton] at member
        rw [member]
        exact isDigit_or_isLower_digit36 small
      · rw [digits36_of_le large, List.mem_append, List.mem_singleton] at member
        rcases member with earlier | last
        · exact inductionHypothesis (value / 36) character earlier
        · rw [last]
          exact isDigit_or_isLower_digit36 (Nat.mod_lt value (by decide))

/-! ## Reading back -/

/-- Digits spell the number they were made of, if there is room for all of them. -/
theorem read36?_digits36
    {count value : Nat}
    (fits : value < 36 ^ count) :
    read36? (digits36 count value) = some value := by
  induction count generalizing value with
  | zero =>
      have zero : value = 0 := by simpa using fits
      rw [zero]
      rfl
  | succ smaller inductionHypothesis =>
      rcases Nat.lt_or_ge value 36 with small | large
      · rw [digits36_of_lt small]
        show (appendDigit? 0 (digit36 value)).bind some = some value
        rw [appendDigit?, digitValue?_digit36 small, Option.map_some, Option.bind_some]
        simp
      · have front : value / 36 < 36 ^ smaller := by
          rw [Nat.pow_succ] at fits
          omega
        have last : value % 36 < 36 := Nat.mod_lt value (by decide)
        rw [digits36_of_le large, read36?, List.foldlM_append]
        show (read36? (digits36 smaller (value / 36))).bind
          (fun sofar => (appendDigit? sofar (digit36 (value % 36))).bind some) = some value
        rw [inductionHypothesis front, Option.bind_some, appendDigit?, digitValue?_digit36 last,
          Option.map_some, Option.bind_some, Nat.div_add_mod]

/-- A number other than zero does not start with the digit zero. -/
theorem head_digits36_ne_zero
    {count value : Nat}
    (positive : 0 < value)
    (fits : value < 36 ^ count) :
    (digits36 count value).head? ≠ some '0' := by
  induction count generalizing value with
  | zero =>
      rw [Nat.pow_zero] at fits
      omega
  | succ smaller inductionHypothesis =>
      rcases Nat.lt_or_ge value 36 with small | large
      · intro starts
        rw [digits36_of_lt small, List.head?_singleton, Option.some_inj] at starts
        have spelled := digitValue?_digit36 small
        rw [starts] at spelled
        have zero : value = 0 := (Option.some.inj spelled).symm
        omega
      · have front : value / 36 < 36 ^ smaller := by
          rw [Nat.pow_succ] at fits
          omega
        have frontPositive : 0 < value / 36 := by omega
        have frontStarts := inductionHypothesis frontPositive front
        rw [digits36_of_le large]
        cases spelled : digits36 smaller (value / 36) with
        | nil =>
            have read := read36?_digits36 front
            rw [spelled] at read
            have zero : 0 = value / 36 := Option.some.inj read
            omega
        | cons first rest =>
            rw [spelled] at frontStarts
            exact frontStarts

/-! ## Words -/

private theorem toNat_lt_pow
    (word : UInt32) :
    word.toNat < 36 ^ 7 :=
  Nat.lt_of_lt_of_le word.toNat_lt (by decide)

theorem read36?_base36
    (word : UInt32) :
    read36? (base36 word).toList = some word.toNat := by
  rw [base36, String.toList_ofList]
  exact read36?_digits36 (toNat_lt_pow word)

theorem base36_inj
    {first second : UInt32} :
    base36 first = base36 second ↔ first = second := by
  constructor
  · intro same
    have read := read36?_base36 first
    rw [same, read36?_base36 second] at read
    exact UInt32.toNat_inj.mp (Option.some.inj read).symm
  · exact congrArg base36

/-- A text of one to seven digits and small letters that spells a word, without zeros in front. -/
structure Spells (digits : List Char) (word : UInt32) : Prop where
  length : 1 ≤ digits.length ∧ digits.length ≤ 7
  alphanumeric : ∀ character ∈ digits, character.isDigit = true ∨ character.isLower = true
  leading : digits.head? = some '0' → digits = ['0']
  read : read36? digits = some word.toNat

namespace Spells

variable {digits : List Char} {word : UInt32}

theorem isAlphanum
    (spells : Spells digits word) :
    ∀ character ∈ digits, character.isAlphanum = true := by
  intro character member
  rcases spells.alphanumeric character member with digit | lower
  · simp [Char.isAlphanum, digit]
  · simp [Char.isAlphanum, Text.isAlpha_iff.mpr (.inr lower)]

theorem ne_nil
    (spells : Spells digits word) :
    digits ≠ [] :=
  List.length_pos_iff.mp spells.length.1

end Spells

theorem spells_base36
    (word : UInt32) :
    Spells (base36 word).toList word := by
  have digits : (base36 word).toList = digits36 7 word.toNat := String.toList_ofList
  have read := read36?_base36 word
  refine ⟨⟨?_, ?_⟩, ?_, ?_, read⟩
  · rw [digits, digits36]
    split <;> simp
  · rw [digits]
    exact length_digits36_le 7 word.toNat
  · rw [digits]
    exact isDigit_or_isLower_of_mem_digits36 7 word.toNat
  · intro starts
    rw [digits] at starts ⊢
    rcases Nat.eq_zero_or_pos word.toNat with zero | positive
    · rw [zero]
      rfl
    · exact absurd starts (head_digits36_ne_zero positive (toNat_lt_pow word))

end AtomicCss.Hash
