import AtomicCss.Text.CodeRange

/-!
Contract: reading back texts that were put together.

Owns:
- the cut of a text at a mark that its first part does not hold;
- lists of texts read back from two joined forms;
- concatenations, whose length does not depend on the order of their parts.

Does not own: which texts a style sheet puts together.
-/

namespace AtomicCss.Text

/-! ## Cutting a text at a mark -/

/-- Where neither first part holds the mark, equal texts are cut at the same place. -/
theorem append_cons_inj
    {mark : Char}
    {first second firstRest secondRest : List Char}
    (firstFree : mark ∉ first)
    (secondFree : mark ∉ second)
    (equal : first ++ mark :: firstRest = second ++ mark :: secondRest) :
    first = second ∧ firstRest = secondRest := by
  induction first generalizing second with
  | nil =>
      cases second with
      | nil => exact ⟨rfl, (List.cons.inj equal).2⟩
      | cons head tail =>
          have sameHead : mark = head := (List.cons.inj equal).1
          exact absurd (sameHead ▸ List.mem_cons_self) secondFree
  | cons head tail inductionHypothesis =>
      cases second with
      | nil =>
          have sameHead : head = mark := (List.cons.inj equal).1
          exact absurd (sameHead ▸ List.mem_cons_self) firstFree
      | cons otherHead otherTail =>
          obtain ⟨sameHead, sameTail⟩ := List.cons.inj equal
          obtain ⟨tailsEqual, restsEqual⟩ :=
            inductionHypothesis (List.not_mem_of_not_mem_cons firstFree)
              (List.not_mem_of_not_mem_cons secondFree) sameTail
          exact ⟨by rw [sameHead, tailsEqual], restsEqual⟩

/-- `append_cons_inj` on strings, with the mark as a string of its own. -/
theorem append_mark_inj
    {mark : String}
    {character : Char}
    (single : mark.toList = [character])
    {first second firstRest secondRest : String}
    (firstFree : character ∉ first.toList)
    (secondFree : character ∉ second.toList)
    (equal : first ++ mark ++ firstRest = second ++ mark ++ secondRest) :
    first = second ∧ firstRest = secondRest := by
  have equalChars := congrArg String.toList equal
  simp only [String.toList_append, single, List.append_assoc, List.singleton_append]
    at equalChars
  obtain ⟨sameFirst, sameRest⟩ := append_cons_inj firstFree secondFree equalChars
  exact ⟨String.toList_inj.mp sameFirst, String.toList_inj.mp sameRest⟩

/-- Equal texts with ends of one length have the same start. -/
theorem append_inj_of_length
    {first second firstEnd secondEnd : String}
    (equal : first ++ firstEnd = second ++ secondEnd)
    (sameLength : firstEnd.length = secondEnd.length) :
    first = second := by
  have equalChars := congrArg String.toList equal
  rw [String.toList_append, String.toList_append] at equalChars
  exact String.toList_inj.mp (List.append_inj' equalChars sameLength).1

/-! ## Lists read back from two joined forms -/

/-- Two texts are equal if they go on alike in two ways that differ at once. A longer one would have
to go on with both marks. -/
theorem eq_of_append_cons_eq
    {left right : Char}
    (different : left ≠ right)
    {first second leftFirst leftSecond rightFirst rightSecond : List Char}
    (leftEqual : first ++ left :: leftFirst = second ++ left :: leftSecond)
    (rightEqual : first ++ right :: rightFirst = second ++ right :: rightSecond) :
    first = second := by
  induction first generalizing second with
  | nil =>
      cases second with
      | nil => rfl
      | cons head tail =>
          have leftHead : left = head := (List.cons.inj leftEqual).1
          have rightHead : right = head := (List.cons.inj rightEqual).1
          exact absurd (leftHead.trans rightHead.symm) different
  | cons head tail inductionHypothesis =>
      cases second with
      | nil =>
          have leftHead : head = left := (List.cons.inj leftEqual).1
          have rightHead : head = right := (List.cons.inj rightEqual).1
          exact absurd (leftHead.symm.trans rightHead) different
      | cons otherHead otherTail =>
          obtain ⟨sameHead, leftTail⟩ := List.cons.inj leftEqual
          obtain ⟨-, rightTail⟩ := List.cons.inj rightEqual
          rw [sameHead, inductionHypothesis leftTail rightTail]

theorem toList_join_cons_cons
    (separator head next : String)
    (rest : List String) :
    (join separator (head :: next :: rest)).toList =
      head.toList ++ (separator.toList ++ (join separator (next :: rest)).toList) := by
  rw [join, String.toList_append, String.toList_append, List.append_assoc]

/-- A text cannot be a list of one and the start of a longer list in both joined forms. -/
theorem not_join_eq_join_singleton
    {left right : String}
    {leftMark rightMark : Char}
    {leftRest rightRest : List Char}
    (leftChars : left.toList = leftMark :: leftRest)
    (rightChars : right.toList = rightMark :: rightRest)
    (different : leftMark ≠ rightMark)
    {only head next : String}
    {rest : List String}
    (leftEqual : join left [only] = join left (head :: next :: rest))
    (rightEqual : join right [only] = join right (head :: next :: rest)) :
    False := by
  have leftText := congrArg String.toList leftEqual
  have rightText := congrArg String.toList rightEqual
  rw [toList_join_cons_cons] at leftText rightText
  have continued := List.append_cancel_left (leftText.symm.trans rightText)
  rw [leftChars, rightChars, List.cons_append, List.cons_append] at continued
  exact different (List.cons.inj continued).1

/-- A list of texts is determined by its joined forms with two separators that start differently. -/
theorem eq_of_join_eq_join
    {left right : String}
    {leftMark rightMark : Char}
    {leftRest rightRest : List Char}
    (leftChars : left.toList = leftMark :: leftRest)
    (rightChars : right.toList = rightMark :: rightRest)
    (different : leftMark ≠ rightMark)
    {first second : List String}
    (firstNonempty : first ≠ [])
    (secondNonempty : second ≠ [])
    (leftEqual : join left first = join left second)
    (rightEqual : join right first = join right second) :
    first = second := by
  induction first generalizing second with
  | nil => exact absurd rfl firstNonempty
  | cons head tail inductionHypothesis =>
      cases second with
      | nil => exact absurd rfl secondNonempty
      | cons otherHead otherTail =>
          cases tail with
          | nil =>
              cases otherTail with
              | nil => exact congrArg (fun only => [only]) leftEqual
              | cons next rest =>
                  exact (not_join_eq_join_singleton leftChars rightChars different
                    leftEqual rightEqual).elim
          | cons next rest =>
              cases otherTail with
              | nil =>
                  exact (not_join_eq_join_singleton leftChars rightChars different
                    leftEqual.symm rightEqual.symm).elim
              | cons otherNext otherRest =>
                  have leftText := congrArg String.toList leftEqual
                  have rightText := congrArg String.toList rightEqual
                  rw [toList_join_cons_cons, toList_join_cons_cons, leftChars] at leftText
                  rw [toList_join_cons_cons, toList_join_cons_cons, rightChars] at rightText
                  -- Both forms go on after the first text, with different marks.
                  have sameHead := eq_of_append_cons_eq different leftText rightText
                  obtain rfl : head = otherHead := String.toList_inj.mp sameHead
                  have leftTails :=
                    List.append_cancel_left (List.append_cancel_left leftText)
                  have rightTails :=
                    List.append_cancel_left (List.append_cancel_left rightText)
                  rw [inductionHypothesis (List.cons_ne_nil _ _) (List.cons_ne_nil _ _)
                    (String.toList_inj.mp leftTails) (String.toList_inj.mp rightTails)]

/-! ## Concatenations -/

@[simp]
theorem concat_nil : concat [] = "" :=
  rfl

@[simp]
theorem concat_cons
    (head : String)
    (rest : List String) :
    concat (head :: rest) = head ++ concat rest :=
  rfl

theorem concat_append
    (first second : List String) :
    concat (first ++ second) = concat first ++ concat second := by
  induction first with
  | nil => simp
  | cons head rest inductionHypothesis =>
      rw [List.cons_append, concat_cons, concat_cons, inductionHypothesis, String.append_assoc]

/-- Lines are read back from the text that they make up. -/
theorem concat_lines_inj
    {first second : List String}
    (firstFree : ∀ line ∈ first, '\n' ∉ line.toList)
    (secondFree : ∀ line ∈ second, '\n' ∉ line.toList)
    (equal : concat (first.map (· ++ "\n")) = concat (second.map (· ++ "\n"))) :
    first = second := by
  have ended (line : String) (rest : List String) :
      concat ((line :: rest).map (· ++ "\n")) ≠ "" := by
    simp [String.append_assoc]
  induction first generalizing second with
  | nil =>
      cases second with
      | nil => rfl
      | cons line rest => exact absurd equal.symm (ended line rest)
  | cons line rest inductionHypothesis =>
      cases second with
      | nil => exact absurd equal (ended line rest)
      | cons other others =>
          obtain ⟨firstLine, firstRest⟩ := List.forall_mem_cons.mp firstFree
          obtain ⟨secondLine, secondRest⟩ := List.forall_mem_cons.mp secondFree
          obtain ⟨rfl, restEqual⟩ := append_mark_inj rfl firstLine secondLine equal
          rw [inductionHypothesis firstRest secondRest restEqual]

theorem length_concat_of_perm
    {first second : List String}
    (reordered : first.Perm second) :
    (concat first).length = (concat second).length := by
  induction reordered with
  | nil => rfl
  | cons head _ inductionHypothesis =>
      simp only [concat_cons, String.length_append, inductionHypothesis]
  | swap head next rest =>
      simp only [concat_cons, String.length_append]
      omega
  | trans _ _ firstStep secondStep => exact firstStep.trans secondStep

theorem mem_concat_iff
    (character : Char)
    (parts : List String) :
    character ∈ (concat parts).toList ↔ ∃ part ∈ parts, character ∈ part.toList := by
  induction parts with
  | nil => simp
  | cons head rest inductionHypothesis =>
      simp only [concat_cons, String.toList_append, List.mem_append, inductionHypothesis,
        List.mem_cons, exists_eq_or_imp]

/-- Texts none of which is empty concatenate to the empty text only where there are none. -/
theorem concat_eq_empty_iff
    {parts : List String}
    (nonempty : ∀ part ∈ parts, part ≠ "") :
    concat parts = "" ↔ parts = [] := by
  cases parts with
  | nil => simp
  | cons head rest =>
      have headNonempty : head ≠ "" := nonempty head List.mem_cons_self
      simp [headNonempty]

theorem perm_sortStrings
    (strings : List String) :
    (sortStrings strings).Perm strings :=
  List.mergeSort_perm strings stringLe

theorem length_eq_of_sortStrings_eq
    {first second : List String}
    (sameSorted : sortStrings first = sortStrings second) :
    first.length = second.length := by
  rw [← (perm_sortStrings first).length_eq, sameSorted, (perm_sortStrings second).length_eq]

end AtomicCss.Text
