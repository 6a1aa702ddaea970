import AtomicCss.Proofs.Text.Separated

/-!
Contract: texts that differ before either of them ends.

Owns:
- what such texts stay like when text is put around them;
- texts in pieces, some of which differ like that.

Does not own: where the pieces come from.
-/

namespace AtomicCss

namespace Text

/-- The texts are told apart whatever comes after them. -/
def Apart (first second : String) : Prop :=
  ∀ firstRest secondRest, first ++ firstRest ≠ second ++ secondRest

theorem apart_of_not_isPrefix
    {first second : String}
    (notStart : ¬ first.toList <+: second.toList)
    (notExtension : ¬ second.toList <+: first.toList) :
    Apart first second := by
  intro firstRest secondRest equal
  have sameChars := congrArg String.toList equal
  rw [String.toList_append, String.toList_append] at sameChars
  have firstStarts : first.toList <+: second.toList ++ secondRest.toList :=
    sameChars ▸ List.prefix_append _ _
  rcases List.prefix_or_prefix_of_prefix firstStarts (List.prefix_append _ _) with start | start
  · exact notStart start
  · exact notExtension start

namespace Apart

variable {first second : String}

theorem ne
    (apart : Apart first second) :
    first ≠ second := by
  intro equal
  exact apart "" "" (by rw [equal])

theorem symm
    (apart : Apart first second) :
    Apart second first := by
  intro secondRest firstRest equal
  exact apart firstRest secondRest equal.symm

/-- Texts that are apart stay so before any others. -/
theorem append
    (apart : Apart first second)
    (firstEnd secondEnd : String) :
    Apart (first ++ firstEnd) (second ++ secondEnd) := by
  intro firstRest secondRest
  rw [String.append_assoc, String.append_assoc]
  exact apart _ _

/-- Texts that are apart stay so after a common one. -/
theorem after
    (apart : Apart first second)
    (start : String) :
    Apart (start ++ first) (start ++ second) := by
  intro firstRest secondRest
  rw [String.append_assoc, String.append_assoc, Ne, String.append_right_inj]
  exact apart _ _

end Apart

/-- Two texts with a piece for each item are apart if the pieces are apart for some items, and the
same for all others. -/
theorem apart_concat_map
    {α : Type}
    {differs : α → Prop}
    {items : List α}
    {first second : α → String}
    (same : ∀ item ∈ items, ¬ differs item → first item = second item)
    (apart : ∀ item ∈ items, differs item → Apart (first item) (second item))
    (some : ∃ item ∈ items, differs item) :
    Apart (concat (items.map first)) (concat (items.map second)) := by
  induction items with
  | nil =>
      obtain ⟨item, member, -⟩ := some
      cases member
  | cons head tail inductionHypothesis =>
      rw [List.forall_mem_cons] at same apart
      rw [List.map_cons, List.map_cons, concat_cons, concat_cons]
      -- The first piece that differs decides, whatever the pieces after it are.
      by_cases here : differs head
      · exact (apart.1 here).append _ _
      · have later : ∃ item ∈ tail, differs item := by
          obtain ⟨item, member, different⟩ := some
          rcases List.mem_cons.mp member with rfl | inTail
          · exact absurd different here
          · exact ⟨item, inTail, different⟩
        rw [same.1 here]
        exact (inductionHypothesis same.2 apart.2 later).after _

end Text

end AtomicCss
