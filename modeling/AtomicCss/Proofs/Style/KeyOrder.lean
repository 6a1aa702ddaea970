import AtomicCss.Proofs.Style.Walking
import AtomicCss.Style.Definition
import Mathlib.Data.List.Forall2

/-!
Contract: style maps with their keys in another order.

Owns:
- reorderings of a style map at every level, and of the namespaces of a definition;
- reordered maps have the same leaves in another order, or both have a fault.

Does not own: what the leaves compile to, and which fault is reported.
-/

namespace AtomicCss

/-! ## Lists in another order -/

/-- One list is the other in another order, with items in the place of related ones. -/
def Rearranged {α β : Type} (related : α → β → Prop) (first : List α) (second : List β) : Prop :=
  ∃ middle, first.Perm middle ∧ List.Forall₂ related middle second

namespace Rearranged

variable {α β γ δ : Type} {related : α → β → Prop} {first : List α} {second : List β}

theorem map
    (rearranged : Rearranged related first second)
    {left : α → γ}
    {right : β → δ}
    {mapped : γ → δ → Prop}
    (each : ∀ item ∈ first, ∀ other, related item other → mapped (left item) (right other)) :
    Rearranged mapped (first.map left) (second.map right) := by
  obtain ⟨middle, reordered, inPlace⟩ := rearranged
  refine ⟨middle.map left, reordered.map left, ?_⟩
  replace each := fun item member => each item (reordered.mem_iff.mpr member)
  clear reordered
  induction inPlace with
  | nil => exact .nil
  | cons together _ inductionHypothesis =>
      refine .cons (each _ List.mem_cons_self _ together) (inductionHypothesis ?_)
      intro item member
      exact each item (List.mem_cons_of_mem _ member)

theorem forall_mem_iff
    (rearranged : Rearranged related first second)
    {left : α → Prop}
    {right : β → Prop}
    (each : ∀ item other, related item other → (left item ↔ right other)) :
    (∀ item ∈ first, left item) ↔ ∀ other ∈ second, right other := by
  obtain ⟨middle, reordered, inPlace⟩ := rearranged
  have moved : (∀ item ∈ first, left item) ↔ ∀ item ∈ middle, left item := by
    simp only [reordered.mem_iff]
  rw [moved]
  clear moved reordered
  induction inPlace with
  | nil => simp
  | cons together _ inductionHypothesis =>
      rw [List.forall_mem_cons, List.forall_mem_cons]
      exact and_congr (each _ _ together) inductionHypothesis

theorem perm_flatMap
    (rearranged : Rearranged related first second)
    {left : α → List γ}
    {right : β → List γ}
    (each : ∀ item other, related item other → (left item).Perm (right other)) :
    (first.flatMap left).Perm (second.flatMap right) := by
  obtain ⟨middle, reordered, inPlace⟩ := rearranged
  refine (reordered.flatMap_right left).trans ?_
  clear reordered
  induction inPlace with
  | nil => exact List.Perm.refl _
  | cons together _ inductionHypothesis =>
      rw [List.flatMap_cons, List.flatMap_cons]
      exact (each _ _ together).append inductionHypothesis

end Rearranged

/-! ## Style maps and definitions in another order -/

/-- One style map is another with its keys, and those of the maps nested in it, in another order.
Chains, keyframes and the other values stay as they are. -/
inductive StyleMap.Reordered : StyleMap → StyleMap → Prop
  | nil : Reordered [] []
  | cons (entry : String × Value) {rest others : StyleMap} :
      Reordered rest others → Reordered (entry :: rest) (entry :: others)
  | inside (key : String) {entries inner rest others : StyleMap} :
      Reordered entries inner → Reordered rest others →
        Reordered ((key, .object entries) :: rest) ((key, .object inner) :: others)
  | swap (first second : String × Value) (rest : StyleMap) :
      Reordered (first :: second :: rest) (second :: first :: rest)
  | trans {first second third : StyleMap} :
      Reordered first second → Reordered second third → Reordered first third

namespace StyleMap.Reordered

theorem of_perm
    {first second : StyleMap}
    (permuted : first.Perm second) :
    Reordered first second := by
  induction permuted with
  | nil => exact nil
  | cons entry _ restHypothesis => exact cons entry restHypothesis
  | swap first second rest => exact swap second first rest
  | trans _ _ firstHypothesis secondHypothesis => exact trans firstHypothesis secondHypothesis

theorem symm
    {first second : StyleMap}
    (reordered : Reordered first second) :
    Reordered second first := by
  induction reordered with
  | nil => exact nil
  | cons entry _ restHypothesis => exact cons entry restHypothesis
  | inside key _ _ innerHypothesis restHypothesis =>
      exact inside key innerHypothesis restHypothesis
  | swap first second rest => exact swap second first rest
  | trans _ _ firstHypothesis secondHypothesis => exact trans secondHypothesis firstHypothesis

private theorem isEmpty_eq
    {first second : StyleMap}
    (reordered : Reordered first second) :
    first.isEmpty = second.isEmpty := by
  induction reordered with
  | nil => rfl
  | cons entry _ _ => rfl
  | inside key _ _ _ _ => rfl
  | swap first second rest => rfl
  | trans _ _ firstEqual secondEqual => exact firstEqual.trans secondEqual

end StyleMap.Reordered

/-- Two entries of a definition have one name and the same parameters, and style maps that differ in
the order of their keys. -/
structure NamespaceReordered (left right : String × Namespace) : Prop where
  name : left.1 = right.1
  parameters : left.2.parameters = right.2.parameters
  styles : StyleMap.Reordered left.2.styles right.2.styles

theorem NamespaceReordered.symm
    {left right : String × Namespace}
    (reordered : NamespaceReordered left right) :
    NamespaceReordered right left :=
  ⟨reordered.name.symm, reordered.parameters.symm, reordered.styles.symm⟩

/-- One definition is another with its namespaces in another order, and in each of them the keys of
its style map. -/
def Definition.Reordered (first second : Definition) : Prop :=
  Rearranged NamespaceReordered first second

/-! ## Leaves up to their order -/

/-- Two walks fail alike, or find the same leaves in another order. -/
def SameLeaves : Except Error (List Leaf) → Except Error (List Leaf) → Prop
  | .ok first, .ok second => first.Perm second
  | .error _, .error _ => True
  | _, _ => False

namespace SameLeaves

theorem refl
    (found : Except Error (List Leaf)) :
    SameLeaves found found := by
  cases found with
  | error error => trivial
  | ok leaves => exact List.Perm.refl leaves

theorem trans
    {first second third : Except Error (List Leaf)}
    (firstSame : SameLeaves first second)
    (secondSame : SameLeaves second third) :
    SameLeaves first third := by
  cases first <;> cases second <;> cases third <;> try contradiction
  · trivial
  · exact List.Perm.trans firstSame secondSame

theorem append
    {here there others rest : Except Error (List Leaf)}
    (headSame : SameLeaves here there)
    (restSame : SameLeaves others rest) :
    SameLeaves
      (do
        let first ← here
        let second ← others
        .ok (first ++ second))
      (do
        let first ← there
        let second ← rest
        .ok (first ++ second)) := by
  cases here <;> cases there <;> try contradiction
  · trivial
  · cases others <;> cases rest <;> try contradiction
    · trivial
    · exact List.Perm.append headSame restSame

private theorem append_left_comm
    (first second rest : Except Error (List Leaf)) :
    SameLeaves
      (do
        let left ← first
        let others ← (do
          let middle ← second
          let right ← rest
          .ok (middle ++ right))
        .ok (left ++ others))
      (do
        let middle ← second
        let others ← (do
          let left ← first
          let right ← rest
          .ok (left ++ right))
        .ok (middle ++ others)) := by
  cases first <;> cases second <;> cases rest <;> try trivial
  · rename_i left middle right
    change (left ++ (middle ++ right)).Perm (middle ++ (left ++ right))
    rw [← List.append_assoc, ← List.append_assoc]
    exact List.perm_append_comm.append_right right

/-- Where one walk succeeds, the other does with the same leaves. -/
theorem exists_perm
    {first second : Except Error (List Leaf)}
    (same : SameLeaves first second)
    {leaves : List Leaf}
    (success : first = .ok leaves) :
    ∃ others, second = .ok others ∧ leaves.Perm others := by
  subst success
  cases second with
  | error error => contradiction
  | ok others => exact ⟨others, rfl, same⟩

end SameLeaves

/-! ## Leaves of reordered maps -/

namespace Level

/-- A level finds the same leaves in a nested map that is reordered, if all levels do. -/
theorem sameLeaves_visit_object
    (scope : String)
    (level : Level)
    (key : String)
    {entries inner : StyleMap}
    (sameEmptiness : entries.isEmpty = inner.isEmpty)
    (sameInside : ∀ level : Level,
      SameLeaves (level.leaves scope entries) (level.leaves scope inner)) :
    SameLeaves (level.visit scope key (.object entries))
      (level.visit scope key (.object inner)) := by
  rw [visit_object, visit_object, sameEmptiness]
  cases level.nested scope key inner.isEmpty with
  | error error => trivial
  | ok opened => exact sameInside opened

/-- Every level finds the same leaves in a map that is reordered. -/
theorem sameLeaves_of_reordered
    (scope : String)
    {first second : StyleMap}
    (reordered : StyleMap.Reordered first second) :
    ∀ level : Level, SameLeaves (level.leaves scope first) (level.leaves scope second) := by
  induction reordered with
  | nil =>
      intro level
      exact SameLeaves.refl _
  | cons entry _ restHypothesis =>
      intro level
      exact SameLeaves.append (SameLeaves.refl _) (restHypothesis level)
  | inside key innerReordered _ innerHypothesis restHypothesis =>
      intro level
      -- The nested maps are walked at another level, for which the hypothesis holds as well.
      have headSame :=
        level.sameLeaves_visit_object scope key innerReordered.isEmpty_eq innerHypothesis
      exact SameLeaves.append headSame (restHypothesis level)
  | swap first second rest =>
      intro level
      exact SameLeaves.append_left_comm _ _ _
  | trans _ _ firstHypothesis secondHypothesis =>
      intro level
      exact (firstHypothesis level).trans (secondHypothesis level)

end Level

theorem sameLeaves_flatten
    (scope : String)
    {first second : StyleMap}
    (reordered : StyleMap.Reordered first second) :
    SameLeaves (flatten scope first) (flatten scope second) := by
  rw [flatten_eq_leaves, flatten_eq_leaves]
  exact Level.sameLeaves_of_reordered scope reordered _

end AtomicCss
