import AtomicCss.Proofs.Text.Separated

/-!
Contract: the order of texts by code point.

Owns:
- the laws of that order, which is total and holds both ways only between equal texts;
- the sorted form of a list of texts, which does not depend on the order they are given in.

Does not own: what the sorted texts are used for.
-/

namespace AtomicCss.Text

private theorem charsLe_total
    (left right : List Char) :
    (charsLe left right || charsLe right left) = true := by
  induction left generalizing right with
  | nil => simp [charsLe]
  | cons leftHead leftTail inductionHypothesis =>
      cases right with
      | nil => simp [charsLe]
      | cons rightHead rightTail =>
          by_cases sameHead : leftHead.toNat = rightHead.toNat
          · have tails := inductionHypothesis rightTail
            simpa [charsLe, sameHead] using tails
          · have otherHead : ¬rightHead.toNat = leftHead.toNat := fun equal => sameHead equal.symm
            have heads := Nat.le_total leftHead.toNat rightHead.toNat
            simpa [charsLe, sameHead, otherHead] using heads

private theorem charsLe_trans
    {first second third : List Char}
    (firstLe : charsLe first second = true)
    (secondLe : charsLe second third = true) :
    charsLe first third = true := by
  induction first generalizing second third with
  | nil => simp [charsLe]
  | cons firstHead firstTail inductionHypothesis =>
      cases second with
      | nil => simp [charsLe] at firstLe
      | cons secondHead secondTail =>
          cases third with
          | nil => simp [charsLe] at secondLe
          | cons thirdHead thirdTail =>
              simp only [charsLe] at firstLe secondLe ⊢
              split at firstLe <;> split at secondLe
              · rename_i firstSame secondSame
                rw [if_pos (firstSame.trans secondSame)]
                exact inductionHypothesis firstLe secondLe
              -- Otherwise one of the two steps goes up at the first character, and so do both.
              all_goals
                simp only [Nat.ble_eq] at firstLe secondLe
                rw [if_neg (by omega), Nat.ble_eq]
                omega

private theorem charsLe_antisymm
    {left right : List Char}
    (leftLe : charsLe left right = true)
    (rightLe : charsLe right left = true) :
    left = right := by
  induction left generalizing right with
  | nil =>
      cases right with
      | nil => rfl
      | cons head tail => simp [charsLe] at rightLe
  | cons leftHead leftTail inductionHypothesis =>
      cases right with
      | nil => simp [charsLe] at leftLe
      | cons rightHead rightTail =>
          simp only [charsLe] at leftLe rightLe
          split at leftLe
          · rename_i sameCode
            rw [if_pos sameCode.symm] at rightLe
            rw [Char.toNat_inj.mp sameCode, inductionHypothesis leftLe rightLe]
          · rename_i otherCode
            rw [if_neg (fun equal => otherCode equal.symm)] at rightLe
            simp only [Nat.ble_eq] at leftLe rightLe
            omega

private theorem pairwise_sortStrings
    (strings : List String) :
    (sortStrings strings).Pairwise fun left right => stringLe left right = true := by
  apply List.pairwise_mergeSort
  · intro first second third firstLe secondLe
    exact charsLe_trans firstLe secondLe
  · intro left right
    exact charsLe_total left.toList right.toList

/-- Sorting forgets the order that texts were given in. -/
theorem sortStrings_eq_of_perm
    {first second : List String}
    (reordered : first.Perm second) :
    sortStrings first = sortStrings second := by
  have sortedPerm : (sortStrings first).Perm (sortStrings second) :=
    (perm_sortStrings first).trans (reordered.trans (perm_sortStrings second).symm)
  apply List.Perm.eq_of_pairwise _ (pairwise_sortStrings first) (pairwise_sortStrings second)
    sortedPerm
  intro left right _ _ leftLe rightLe
  exact String.toList_inj.mp (charsLe_antisymm leftLe rightLe)

end AtomicCss.Text
