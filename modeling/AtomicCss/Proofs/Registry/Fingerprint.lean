import AtomicCss.Proofs.Registry.Cascade
import AtomicCss.Proofs.Text.Separated

/-!
Contract: style sheets and fingerprints of registries that have the same artifacts.

Owns:
- the text of the artifacts of one priority;
- the exact condition for two such registries to have one style sheet, and one fingerprint.

Does not own: the digest, of which only that it is a function is used. A fingerprint is a digest of
the style sheets as they are ordered, so that the condition is not met by all registries with the
same artifacts.
-/

namespace AtomicCss

/-! ## Texts of ranked items -/

namespace Ranked

variable {α : Type} {rank : α → Nat} {first second : List α}

/-- Where ascending lists have the same items, equal texts are cut alike below every rank. -/
theorem concat_below_eq
    (firstAscends : Ascends rank first)
    (secondAscends : Ascends rank second)
    (reordered : first.Perm second)
    {text : α → String}
    (equal : Text.concat (first.map text) = Text.concat (second.map text))
    (bound : Nat) :
    Text.concat ((below rank first bound).map text) =
      Text.concat ((below rank second bound).map text) := by
  obtain ⟨firstRest, firstCut⟩ := below_prefix firstAscends bound
  obtain ⟨secondRest, secondCut⟩ := below_prefix secondAscends bound
  have sameLength := Text.length_concat_of_perm (reordered.map text)
  have sameStart : (Text.concat ((below rank first bound).map text)).length =
      (Text.concat ((below rank second bound).map text)).length :=
    Text.length_concat_of_perm ((reordered.filter _).map text)
  rw [← firstCut, ← secondCut, List.map_append, List.map_append, Text.concat_append,
    Text.concat_append] at equal sameLength
  rw [String.length_append, String.length_append] at sameLength
  apply Text.append_inj_of_length equal
  omega

/-- Ascending lists of the same items have one text exactly where their blocks have. -/
theorem concat_eq_iff_blocks
    (firstAscends : Ascends rank first)
    (secondAscends : Ascends rank second)
    (reordered : first.Perm second)
    (text : α → String) :
    Text.concat (first.map text) = Text.concat (second.map text) ↔
      ∀ wanted, Text.concat ((block rank first wanted).map text) =
        Text.concat ((block rank second wanted).map text) := by
  constructor
  · intro equal wanted
    have through := concat_below_eq firstAscends secondAscends reordered equal (wanted + 1)
    rw [below_succ firstAscends, below_succ secondAscends, List.map_append, List.map_append,
      Text.concat_append, Text.concat_append,
      concat_below_eq firstAscends secondAscends reordered equal wanted] at through
    exact (String.append_right_inj _).mp through
  · intro blocks
    have starts (bound : Nat) :
        Text.concat ((below rank first bound).map text) =
          Text.concat ((below rank second bound).map text) := by
      induction bound with
      | zero => simp [below]
      | succ bound inductionHypothesis =>
          rw [below_succ firstAscends, below_succ secondAscends, List.map_append, List.map_append,
            Text.concat_append, Text.concat_append, inductionHypothesis, blocks bound]
    obtain ⟨bound, firstWhole, secondWhole⟩ := exists_below_eq_self rank first second
    have whole := starts bound
    rw [firstWhole, secondWhole] at whole
    exact whole

end Ranked

/-! ## Registries with the same artifacts -/

namespace Registry

def priorityText (registry : Registry) (priority : Nat) (direction : Direction) : String :=
  Text.concat
    ((registry.ofPriority priority).map fun artifact => artifact.css.text direction ++ "\n")

variable {first second : Registry}

private theorem perm_of_same_artifacts
    (firstKeyed : first.IsKeyed)
    (secondKeyed : second.IsKeyed)
    (same : ∀ artifact, artifact ∈ first.artifacts ↔ artifact ∈ second.artifacts) :
    first.artifacts.Perm second.artifacts :=
  (List.perm_ext_iff_of_nodup (List.Nodup.of_map _ firstKeyed)
    (List.Nodup.of_map _ secondKeyed)).mpr same

section Reordered

variable (reordered : first.artifacts.Perm second.artifacts)
include reordered

private theorem sheet_eq_iff_priorityText
    (direction : Direction) :
    first.sheet direction = second.sheet direction ↔
      ∀ priority,
        first.priorityText priority direction = second.priorityText priority direction := by
  rw [sheet_eq_concat_lines, sheet_eq_concat_lines, lines, lines,
    Ranked.concat_eq_iff_blocks first.pairwise_priority_sorted second.pairwise_priority_sorted
      (perm_sorted_of_perm reordered)]
  simp only [block_sorted, priorityText]

private theorem priorityText_eq_iff_texts
    {direction : Direction}
    (oneLine : ∀ artifact ∈ first.artifacts, '\n' ∉ (artifact.css.text direction).toList)
    (priority : Nat) :
    first.priorityText priority direction = second.priorityText priority direction ↔
      ((first.ofPriority priority).map fun artifact => artifact.css.text direction) =
        (second.ofPriority priority).map fun artifact => artifact.css.text direction := by
  have free {registry : Registry} (listed : registry.artifacts ⊆ first.artifacts) :
      ∀ line ∈ (registry.ofPriority priority).map fun artifact => artifact.css.text direction,
        '\n' ∉ line.toList := by
    intro line member
    obtain ⟨artifact, inBlock, rfl⟩ := List.mem_map.mp member
    exact oneLine artifact (listed (Ranked.mem_block_iff.mp inBlock).1)
  have lined (registry : Registry) :
      registry.priorityText priority direction =
        Text.concat (((registry.ofPriority priority).map fun artifact =>
          artifact.css.text direction).map (· ++ "\n")) := by
    rw [List.map_map]
    rfl
  rw [lined, lined]
  constructor
  · intro equal
    exact Text.concat_lines_inj (free (List.Subset.refl _)) (free reordered.symm.subset) equal
  · intro equal
    rw [equal]

private theorem length_sheet_eq
    (direction : Direction) :
    (first.sheet direction).length = (second.sheet direction).length := by
  rw [sheet_eq_concat_lines, sheet_eq_concat_lines]
  exact Text.length_concat_of_perm ((perm_sorted_of_perm reordered).map _)

/-- What is digested for a fingerprint determines both style sheets. -/
theorem sheets_append_eq_iff :
    first.sheet .ltr ++ first.sheet .rtl = second.sheet .ltr ++ second.sheet .rtl ↔
      ∀ direction, first.sheet direction = second.sheet direction := by
  constructor
  · intro equal
    have sameLtr := Text.append_inj_of_length equal (length_sheet_eq reordered .rtl)
    rw [sameLtr, String.append_right_inj] at equal
    intro direction
    cases direction with
    | ltr => exact sameLtr
    | rtl => exact equal
  · intro equal
    rw [equal .ltr, equal .rtl]

/-- Where no two artifacts share a priority, there is one cascade. -/
theorem sorted_eq_of_distinct_priorities
    (distinct : (first.artifacts.map Artifact.priority).Nodup) :
    first.sorted = second.sorted := by
  apply List.Perm.eq_of_pairwise _ (List.pairwise_map.mp first.pairwise_priority_sorted)
    (List.pairwise_map.mp second.pairwise_priority_sorted) (perm_sorted_of_perm reordered)
  intro left right leftMember rightMember leftLe rightLe
  have rightListed := reordered.mem_iff.mpr (second.perm_sorted.mem_iff.mp rightMember)
  exact List.inj_on_of_nodup_map distinct (first.perm_sorted.mem_iff.mp leftMember) rightListed
    (Nat.le_antisymm leftLe rightLe)

end Reordered

/-- Registries with the same artifacts have one style sheet exactly where the artifacts of each
priority, in the order of their insertion, have one text; if each text is a line, where these texts
come in one order. What is digested agrees where both style sheets do, and only there; the
fingerprints then agree too. That no two artifacts share a priority is enough. -/
theorem sheets_agree_iff_insertion_order
    {first second : Registry}
    (firstKeyed : first.IsKeyed)
    (secondKeyed : second.IsKeyed)
    (same : ∀ artifact, artifact ∈ first.artifacts ↔ artifact ∈ second.artifacts) :
    (∀ direction,
        first.sheet direction = second.sheet direction ↔
          ∀ priority,
            first.priorityText priority direction = second.priorityText priority direction) ∧
      (∀ direction,
        (∀ artifact ∈ first.artifacts, '\n' ∉ (artifact.css.text direction).toList) →
          (first.sheet direction = second.sheet direction ↔
            ∀ priority,
              ((first.ofPriority priority).map fun artifact => artifact.css.text direction) =
                (second.ofPriority priority).map fun artifact => artifact.css.text direction)) ∧
      (first.sheet .ltr ++ first.sheet .rtl = second.sheet .ltr ++ second.sheet .rtl ↔
        ∀ direction, first.sheet direction = second.sheet direction) ∧
      ((∀ direction, first.sheet direction = second.sheet direction) →
        first.fingerprint = second.fingerprint) ∧
      ((first.artifacts.map Artifact.priority).Nodup →
        (∀ direction, first.sheet direction = second.sheet direction) ∧
          first.fingerprint = second.fingerprint) := by
  have reordered := perm_of_same_artifacts firstKeyed secondKeyed same
  have digested (agree : ∀ direction, first.sheet direction = second.sheet direction) :
      first.fingerprint = second.fingerprint := by
    unfold fingerprint
    rw [agree .ltr, agree .rtl]
  refine ⟨sheet_eq_iff_priorityText reordered, ?_, sheets_append_eq_iff reordered, digested, ?_⟩
  · intro direction oneLine
    rw [sheet_eq_iff_priorityText reordered]
    exact forall_congr' (priorityText_eq_iff_texts reordered oneLine)
  · intro distinct
    have agree (direction : Direction) : first.sheet direction = second.sheet direction := by
      unfold sheet
      rw [sorted_eq_of_distinct_priorities reordered distinct]
    exact ⟨agree, digested agree⟩

/-- Two rules of one priority inserted in both orders: style sheets and fingerprints differ. -/
theorem red_and_flex_swapped :
    let red : Artifact := .rule ⟨"x1e2nbdu", ⟨".x1e2nbdu\x7bcolor:red\x7d", none⟩, 3000⟩
    let flex : Artifact := .rule ⟨"x78zum5", ⟨".x78zum5\x7bdisplay:flex\x7d", none⟩, 3000⟩
    let first : Registry := ⟨[red, flex]⟩
    let second : Registry := ⟨[flex, red]⟩
    first.IsKeyed ∧ second.IsKeyed ∧
      (∀ artifact, artifact ∈ first.artifacts ↔ artifact ∈ second.artifacts) ∧
      (∀ direction, first.sheet direction ≠ second.sheet direction) ∧
      first.fingerprint = "7f4c265600b70cce148e8f45325f3b7a" ∧
      second.fingerprint = "fa828a730ac4db41b4c18092a80a7429" := by
  intro red flex first second
  have firstKeyed : first.IsKeyed := by
    unfold IsKeyed Keyed.Distinct
    decide
  have secondKeyed : second.IsKeyed := by
    unfold IsKeyed Keyed.Distinct
    decide
  have same (artifact : Artifact) :
      artifact ∈ first.artifacts ↔ artifact ∈ second.artifacts :=
    (List.Perm.swap flex red []).mem_iff
  have sheetIff := (sheets_agree_iff_insertion_order firstKeyed secondKeyed same).1
  have differ (direction : Direction) : first.sheet direction ≠ second.sheet direction := by
    intro equal
    have atPriority := (sheetIff direction).mp equal 3000
    revert atPriority
    cases direction <;> decide
  refine ⟨firstKeyed, secondKeyed, same, differ, ?_, ?_⟩
  · have sorted : first.sorted = [red, flex] := List.mergeSort_of_pairwise (by decide)
    unfold fingerprint sheet
    rw [sorted]
    decide +kernel
  · have sorted : second.sorted = [flex, red] := List.mergeSort_of_pairwise (by decide)
    unfold fingerprint sheet
    rw [sorted]
    decide +kernel

end Registry

end AtomicCss
