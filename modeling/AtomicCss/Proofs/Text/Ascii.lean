/-!
Contract: ASCII characters, and letters among them.

Owns:
- tests that are passed by every ASCII character, decided by trying them all;
- letters and digits are ASCII;
- small letters and capitals, each the other one in the other case.

Does not own: characters of other scripts, which have no case here.
-/

namespace AtomicCss.Text

/-- A test that each of the first 128 characters passes. -/
theorem passes_of_toNat_lt
    (test : Char → Bool)
    (tested : ((List.range 128).map Char.ofNat).all test = true)
    {character : Char}
    (ascii : character.toNat < 128) :
    test character = true := by
  apply List.all_eq_true.mp tested
  rw [List.mem_map]
  exact ⟨character.toNat, List.mem_range.mpr ascii, Char.ofNat_toNat _⟩

section Classes

variable {character : Char}

private theorem toNat_lt_of_val_le
    {last : UInt32}
    (ascii : last.toNat < 128)
    (atMost : character.val ≤ last) :
    character.toNat < 128 :=
  Nat.lt_of_le_of_lt (UInt32.le_iff_toNat_le.mp atMost) ascii

theorem toNat_lt_of_isUpper
    (upper : character.isUpper = true) :
    character.toNat < 128 :=
  toNat_lt_of_val_le (by decide) (of_decide_eq_true upper).2

theorem toNat_lt_of_isLower
    (lower : character.isLower = true) :
    character.toNat < 128 :=
  toNat_lt_of_val_le (by decide) (of_decide_eq_true (Bool.and_eq_true_iff.mp lower).2)

theorem toNat_lt_of_isDigit
    (digit : character.isDigit = true) :
    character.toNat < 128 :=
  toNat_lt_of_val_le (by decide) (of_decide_eq_true (Bool.and_eq_true_iff.mp digit).2)

theorem isAlpha_iff :
    character.isAlpha = true ↔ character.isUpper = true ∨ character.isLower = true :=
  Bool.or_eq_true_iff

theorem toNat_lt_of_isAlpha
    (letter : character.isAlpha = true) :
    character.toNat < 128 := by
  rcases isAlpha_iff.mp letter with upper | lower
  · exact toNat_lt_of_isUpper upper
  · exact toNat_lt_of_isLower lower

theorem toLower_of_not_isUpper
    (small : character.isUpper = false) :
    character.toLower = character := by
  unfold Char.toLower
  rw [dif_neg (of_decide_eq_false small)]

/-- No capital is left in lower case. -/
theorem isUpper_toLower :
    character.toLower.isUpper = false := by
  cases upper : character.isUpper with
  | false => rw [toLower_of_not_isUpper upper, upper]
  | true =>
      have passed := passes_of_toNat_lt (fun other => !other.toLower.isUpper) (by decide)
        (toNat_lt_of_isUpper upper)
      exact (Bool.not_eq_true' _).mp passed

/-- The capital of a small letter, and back. -/
theorem capital_of_isLower
    (lower : character.isLower = true) :
    character.toUpper.isUpper = true ∧ character.toUpper.toLower = character := by
  have passed := passes_of_toNat_lt
    (fun other => !other.isLower || (other.toUpper.isUpper && other.toUpper.toLower == other))
    (by decide) (toNat_lt_of_isLower lower)
  simpa [lower] using passed

end Classes

end AtomicCss.Text
