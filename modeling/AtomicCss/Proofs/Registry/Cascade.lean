import AtomicCss.Proofs.Ranked
import AtomicCss.Proofs.Registry.Scheduling

/-!
Contract: the order of a style sheet, while its registry grows.

Owns:
- artifacts of one priority, which keep the order of their insertion;
- cascades of a registry and of what becomes of it, of which the earlier is contained in the later;
- style sheets as lines, in one order for both writing directions.

Does not own: registries with the same artifacts that do not come of each other.
-/

namespace AtomicCss

/-- Items with keys of their own do not occur in both orders. -/
theorem Keyed.Distinct.not_swapped
    {α κ : Type}
    {key : α → κ}
    {items : List α}
    (distinct : Keyed.Distinct key items)
    {left right : α}
    (ordered : [left, right].Sublist items) :
    ¬ [right, left].Sublist items := by
  have nodup : items.Nodup := List.Nodup.of_map key distinct
  clear distinct
  induction items with
  | nil => cases ordered
  | cons head tail inductionHypothesis =>
      obtain ⟨fresh, tailNodup⟩ := List.nodup_cons.mp nodup
      intro swapped
      cases ordered with
      | cons _ orderedTail =>
          cases swapped with
          | cons _ swappedTail => exact inductionHypothesis orderedTail tailNodup swappedTail
          | cons_cons _ _ => exact fresh (orderedTail.subset (by simp))
      | cons_cons _ rightTail =>
          cases swapped with
          | cons _ swappedTail => exact fresh (swappedTail.subset (by simp))
          | cons_cons _ _ => exact fresh (rightTail.subset (by simp))

namespace Registry

/-! ## Priorities -/

def ofPriority (registry : Registry) (priority : Nat) : List Artifact :=
  Ranked.block Artifact.priority registry.artifacts priority

/-- The cascade keeps the order of insertion among artifacts of one priority. -/
theorem block_sorted
    (registry : Registry)
    (priority : Nat) :
    Ranked.block Artifact.priority registry.sorted priority = registry.ofPriority priority := by
  have ordered :
      (registry.ofPriority priority).Pairwise fun left right =>
        Nat.ble left.priority right.priority = true := by
    have ascends := Ranked.ascends_block Artifact.priority registry.artifacts priority
    exact (List.pairwise_map.mp ascends).imp Nat.ble_eq_true_of_le
  have kept : (registry.ofPriority priority).Sublist registry.sorted :=
    List.sublist_mergeSort ble_priority_trans ble_priority_total ordered List.filter_sublist
  have inBlock :
      (registry.ofPriority priority).Sublist
        (Ranked.block Artifact.priority registry.sorted priority) := by
    have filtered := kept.filter fun artifact => artifact.priority = priority
    simp only [ofPriority, Ranked.block, List.filter_filter, Bool.and_self] at filtered
    exact filtered
  apply (inBlock.eq_of_length _).symm
  exact (registry.perm_sorted.symm.filter _).length_eq

theorem pair_sublist_sorted
    {registry : Registry}
    {low high : Artifact}
    (lowMember : low ∈ registry.artifacts)
    (highMember : high ∈ registry.artifacts)
    (lower : low.priority < high.priority) :
    [low, high].Sublist registry.sorted :=
  Ranked.pair_sublist registry.pairwise_priority_sorted
    (registry.perm_sorted.mem_iff.mpr lowMember) (registry.perm_sorted.mem_iff.mpr highMember) lower

/-- Artifacts that come in between do not change the order of the others. -/
theorem sorted_sublist_of_sublist
    {earlier later : Registry}
    (contained : earlier.artifacts.Sublist later.artifacts) :
    earlier.sorted.Sublist later.sorted := by
  apply Ranked.sublist_of_blocks earlier.pairwise_priority_sorted later.pairwise_priority_sorted
  intro priority
  rw [block_sorted, block_sorted]
  exact contained.filter _

private theorem IsKeyed.sorted
    {registry : Registry}
    (keyed : registry.IsKeyed) :
    Keyed.Distinct Artifact.id registry.sorted :=
  (registry.perm_sorted.map Artifact.id).nodup_iff.mpr keyed

/-! ## Lines -/

def lines (registry : Registry) (direction : Direction) : List String :=
  registry.sorted.map fun artifact => artifact.css.text direction ++ "\n"

theorem sheet_eq_concat_lines
    (registry : Registry)
    (direction : Direction) :
    registry.sheet direction = Text.concat (registry.lines direction) := by
  unfold sheet lines Text.concat
  rw [List.foldr_map]

end Registry

namespace Operation

private theorem isKeyed_afterAll_of_isKeyed
    {registry : Registry}
    (keyed : registry.IsKeyed)
    (operations : List Operation) :
    (afterAll registry operations).IsKeyed := by
  obtain ⟨batch, added⟩ := exists_batch_afterAll operations registry
  rw [added]
  exact keyed.foldl_add batch

/-- Whatever happens to a registry, its cascade stays contained in the later one, so that no two
artifacts change places. In itself a cascade has the artifacts of the registry, by ascending
priority and in order of insertion where it is equal; both style sheets show its artifacts line by
line. -/
theorem cascade_stable_under_growth
    (registry : Registry)
    (operations : List Operation) :
    let later := afterAll registry operations
    registry.sorted.Sublist later.sorted ∧
      (registry.IsKeyed → ∀ left right,
        [left, right].Sublist registry.sorted → ¬ [right, left].Sublist later.sorted) ∧
      registry.sorted.Perm registry.artifacts ∧
      (registry.sorted.map Artifact.priority).Pairwise (· ≤ ·) ∧
      (∀ priority,
        (registry.sorted.filter fun artifact => artifact.priority = priority) =
          registry.artifacts.filter fun artifact => artifact.priority = priority) ∧
      ∀ direction,
        registry.sheet direction =
            Text.concat
              (registry.sorted.map fun artifact => artifact.css.text direction ++ "\n") ∧
          (registry.lines direction).Sublist (later.lines direction) := by
  intro later
  have contained : registry.sorted.Sublist later.sorted :=
    Registry.sorted_sublist_of_sublist (prefix_afterAll operations registry).sublist
  refine ⟨contained, ?_, registry.perm_sorted, registry.pairwise_priority_sorted,
    registry.block_sorted, ?_⟩
  · intro keyed left right ordered
    have laterKeyed := isKeyed_afterAll_of_isKeyed keyed operations
    exact laterKeyed.sorted.not_swapped (ordered.trans contained)
  · intro direction
    exact ⟨registry.sheet_eq_concat_lines direction, contained.map _⟩

/-- Two rules of one priority stay in order while a rule is inserted after them and an animation
before them. -/
theorem red_before_flex_after_growth :
    let red : Artifact := .rule ⟨"x1", ⟨".x1\x7bcolor:red\x7d", none⟩, 3000⟩
    let flex : Artifact := .rule ⟨"x2", ⟨".x2\x7bdisplay:flex\x7d", none⟩, 3000⟩
    let high : Artifact := .rule ⟨"x3", ⟨".x3\x7bheight:0\x7d", none⟩, 4000⟩
    let turn : Artifact :=
      .keyframes ⟨"x4-B", "to\x7bopacity:0;\x7d",
        ⟨"@keyframes x4-B\x7bto\x7bopacity:0;\x7d\x7d", none⟩, 1⟩
    let registry : Registry := ⟨[red, flex]⟩
    let later := afterAll registry [insert high, merge [turn, red]]
    registry.IsKeyed ∧ later.artifacts = [red, flex, high, turn] ∧
      [red, flex].Sublist registry.sorted ∧
      [red, flex].Sublist later.sorted ∧ ¬ [flex, red].Sublist later.sorted := by
  intro red flex high turn registry later
  have keyed : registry.IsKeyed := by
    unfold Registry.IsKeyed Keyed.Distinct
    decide
  have ordered : [red, flex].Sublist registry.sorted := by
    have block := registry.block_sorted 3000
    rw [show registry.ofPriority 3000 = [red, flex] from rfl] at block
    rw [← block]
    exact List.filter_sublist
  have stable := cascade_stable_under_growth registry [insert high, merge [turn, red]]
  exact ⟨keyed, rfl, ordered, ordered.trans stable.1, stable.2.1 keyed red flex ordered⟩

end Operation

end AtomicCss
