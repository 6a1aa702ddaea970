import AtomicCss.Proofs.Registry.Splitting

/-!
Contract: several definitions compiled at once, one after the other, and in another order.

Owns:
- what operations in turn answer;
- the agreement of a parallel compilation with compilations one after the other;
- the condition for all of several definitions to compile, which their order is no part of;
- what of a registry does not depend on the order.

Does not own: definitions of which some fail. Which of them do depends on the order, and so does the
registry; only the agreement of both schedules covers them.
-/

namespace AtomicCss

/-! ## Batches and registries in another order -/

namespace Keyed

variable {α κ : Type} {key : α → κ} [DecidableEq κ]

theorem Admits.of_subset
    {items first second : List α}
    (admitted : Admits key items first)
    (subset : second ⊆ first) :
    Admits key items second :=
  ⟨admitted.coherent.of_subset subset, fun item member => admitted.accepted item (subset member)⟩

theorem admits_nil
    (items : List α) :
    Admits key items [] :=
  ⟨by simp [Coherent], by simp⟩

end Keyed

namespace Registry

variable {first second : Registry}

private theorem get?_eq_of_perm
    (firstKeyed : first.IsKeyed)
    (secondKeyed : second.IsKeyed)
    (reordered : first.artifacts.Perm second.artifacts)
    (id : String) :
    first.get? id = second.get? id := by
  apply Option.ext
  intro artifact
  calc first.get? id = some artifact
      ↔ artifact ∈ first.artifacts ∧ artifact.id = id :=
        Keyed.Distinct.lookup_eq_some_iff firstKeyed
    _ ↔ artifact ∈ second.artifacts ∧ artifact.id = id := by rw [reordered.mem_iff]
    _ ↔ second.get? id = some artifact :=
        (Keyed.Distinct.lookup_eq_some_iff secondKeyed).symm

theorem perm_sorted
    (registry : Registry) :
    registry.sorted.Perm registry.artifacts :=
  List.mergeSort_perm _ _

theorem ble_priority_trans
    (left middle right : Artifact)
    (leftLe : Nat.ble left.priority middle.priority = true)
    (middleLe : Nat.ble middle.priority right.priority = true) :
    Nat.ble left.priority right.priority = true := by
  simp only [Nat.ble_eq] at leftLe middleLe ⊢
  exact Nat.le_trans leftLe middleLe

theorem ble_priority_total
    (left right : Artifact) :
    (Nat.ble left.priority right.priority || Nat.ble right.priority left.priority) = true := by
  simp only [Bool.or_eq_true, Nat.ble_eq]
  exact Nat.le_total _ _

theorem pairwise_priority_sorted
    (registry : Registry) :
    (registry.sorted.map Artifact.priority).Pairwise (· ≤ ·) := by
  have ordered :
      registry.sorted.Pairwise fun left right =>
        Nat.ble left.priority right.priority = true :=
    List.pairwise_mergeSort ble_priority_trans ble_priority_total registry.artifacts
  rw [List.pairwise_map]
  exact ordered.imp Nat.le_of_ble_eq_true

theorem perm_sorted_of_perm
    (reordered : first.artifacts.Perm second.artifacts) :
    first.sorted.Perm second.sorted :=
  first.perm_sorted.trans (reordered.trans second.perm_sorted.symm)

/-- Artifacts of one priority may change places in the cascade, but the priorities themselves come
in one order. -/
theorem priorities_sorted_eq_of_perm
    (reordered : first.artifacts.Perm second.artifacts) :
    first.sorted.map Artifact.priority = second.sorted.map Artifact.priority := by
  apply List.Perm.eq_of_pairwise _ first.pairwise_priority_sorted second.pairwise_priority_sorted
    ((perm_sorted_of_perm reordered).map _)
  intro left right _ _ leftLe rightLe
  exact Nat.le_antisymm leftLe rightLe

end Registry

/-! ## Compilations in turn -/

namespace Operation

/-- What operations answer in turn, each on the registry that those before it have left. -/
def outcomes (registry : Registry) : List Operation → List (Except Error Outcome)
  | [] => []
  | operation :: rest =>
    (operation.run registry).map Prod.snd :: outcomes (after registry operation) rest

def AllSucceed (registry : Registry) (operations : List Operation) : Prop :=
  ∀ outcome ∈ outcomes registry operations, outcome.isOk = true

theorem run_eq_change
    (operation : Operation)
    (registry : Registry) :
    operation.run registry = operation.change registry := by
  unfold run
  rw [perform_eq_whole]
  cases operation.change registry with
  | error error => rfl
  | ok done => rfl

private theorem after_eq_of_change_ok
    {operation : Operation}
    {registry changed : Registry}
    {outcome : Outcome}
    (success : operation.change registry = .ok (changed, outcome)) :
    after registry operation = changed := by
  unfold after
  rw [perform_eq_whole, success]
  rfl

private theorem after_eq_of_change_error
    {operation : Operation}
    {registry : Registry}
    {error : Error}
    (failed : operation.change registry = .error error) :
    after registry operation = registry := by
  unfold after
  rw [perform_eq_whole, failed]
  rfl

/-- Merging finished compilations in order is the same as compiling and merging in turn, because a
compilation never looks at the registry it is merged into. -/
theorem mergeEach_eq_in_turn
    (compiler : Compiler)
    (definitions : List Definition)
    (registry : Registry) :
    (Compiler.mergeEach registry (definitions.map (compileDefinition compiler.options))).1 =
        afterAll registry (definitions.map (compile compiler)) ∧
      (Compiler.mergeEach registry
          (definitions.map (compileDefinition compiler.options))).2.map
            (Except.map Outcome.compiled) =
        outcomes registry (definitions.map (compile compiler)) := by
  induction definitions generalizing registry with
  | nil => exact ⟨rfl, rfl⟩
  | cons definition rest inductionHypothesis =>
      have changing :
          (compile compiler definition).change registry =
            ((compileDefinition compiler.options definition).bind
              (Compiler.mergeOutput registry)).map fun done => (done.1, .compiled done.2) :=
        rfl
      rw [List.map_cons, List.map_cons, Compiler.mergeEach, afterAll, List.foldl_cons, outcomes,
        run_eq_change]
      -- A definition that fails leaves the registry to the next one, in both schedules.
      cases merging : (compileDefinition compiler.options definition).bind
          (Compiler.mergeOutput registry) with
      | error error =>
          rw [merging] at changing
          rw [after_eq_of_change_error changing, changing]
          obtain ⟨sameRegistry, sameResults⟩ := inductionHypothesis registry
          exact ⟨sameRegistry, congrArg (_ :: ·) sameResults⟩
      | ok done =>
          rw [merging] at changing
          rw [after_eq_of_change_ok changing, changing]
          obtain ⟨sameRegistry, sameResults⟩ := inductionHypothesis done.1
          exact ⟨sameRegistry, congrArg (_ :: ·) sameResults⟩

/-! ## All of several definitions -/

/-- The condition for one definition to compile into a registry. -/
def CompilesInto (compiler : Compiler) (registry : Registry) (definition : Definition) : Prop :=
  (∀ entry ∈ definition, NamespaceCompiles compiler.options entry) ∧
    Keyed.Admits Artifact.id registry.artifacts (definitionArtifacts compiler.options definition)

theorem perform_compile_of_compilesInto
    {compiler : Compiler}
    {registry : Registry}
    {definition : Definition}
    (compiles : CompilesInto compiler registry definition) :
    (compile compiler definition).perform registry =
      .ok (.compiled (DefinitionState.start.gather compiler.options definition).output)
        ((definitionArtifacts compiler.options definition).foldl Registry.add registry) :=
  (perform_compile_eq_ok_iff compiler definition registry _ _).mpr
    ⟨compiles.1, compiles.2, rfl, rfl⟩

theorem isOk_run_compile_iff
    (compiler : Compiler)
    (registry : Registry)
    (definition : Definition) :
    (((compile compiler definition).run registry).map Prod.snd).isOk = true ↔
      CompilesInto compiler registry definition := by
  constructor
  · intro succeeded
    cases ran : (compile compiler definition).run registry with
    | error error =>
        rw [ran] at succeeded
        contradiction
    | ok done =>
        rw [run_eq_change] at ran
        obtain ⟨finished, merging, rfl⟩ := Success.map_eq_ok_iff.mp ran
        have performed :
            (compile compiler definition).perform registry =
              .ok (.compiled finished.2) finished.1 := by
          rw [perform_eq_whole, ran]
          rfl
        obtain ⟨namespaces, admitted, -, -⟩ :=
          (perform_compile_eq_ok_iff compiler definition registry _ _).mp performed
        exact ⟨namespaces, admitted⟩
  · intro compiles
    unfold run
    rw [perform_compile_of_compilesInto compiles]
    rfl

theorem compilesInto_append_iff
    (compiler : Compiler)
    (registry : Registry)
    (first second : Definition) :
    CompilesInto compiler registry (first ++ second) ↔
      CompilesInto compiler registry first ∧
        CompilesInto compiler
          ((definitionArtifacts compiler.options first).foldl Registry.add registry) second := by
  simp only [CompilesInto, definitionArtifacts_append, Keyed.admits_append_iff,
    List.forall_mem_append, Registry.artifacts_foldl_add]
  tauto

theorem after_compile_of_compilesInto
    {compiler : Compiler}
    {registry : Registry}
    {definition : Definition}
    (compiles : CompilesInto compiler registry definition) :
    after registry (compile compiler definition) =
      (definitionArtifacts compiler.options definition).foldl Registry.add registry := by
  unfold after
  rw [perform_compile_of_compilesInto compiles]

/-- All of several definitions compile in turn exactly where they do when listed as one. -/
theorem allSucceed_compile_iff
    (compiler : Compiler)
    (definitions : List Definition)
    (registry : Registry) :
    AllSucceed registry (definitions.map (compile compiler)) ↔
      CompilesInto compiler registry definitions.flatten := by
  induction definitions generalizing registry with
  | nil => simp [AllSucceed, outcomes, CompilesInto, definitionArtifacts, Keyed.admits_nil]
  | cons definition rest inductionHypothesis =>
      have step :
          AllSucceed registry ((definition :: rest).map (compile compiler)) ↔
            CompilesInto compiler registry definition ∧
              AllSucceed (after registry (compile compiler definition))
                (rest.map (compile compiler)) := by
        rw [← isOk_run_compile_iff]
        exact List.forall_mem_cons
      rw [step, List.flatten_cons, compilesInto_append_iff]
      -- The hypothesis is about the registry after the first definition, known once it compiles.
      apply and_congr_right
      intro compiles
      rw [after_compile_of_compilesInto compiles]
      exact inductionHypothesis _

private theorem afterAll_compile_of_compilesInto
    (compiler : Compiler)
    (definitions : List Definition)
    (registry : Registry)
    (compiles : CompilesInto compiler registry definitions.flatten) :
    afterAll registry (definitions.map (compile compiler)) =
      (definitionArtifacts compiler.options definitions.flatten).foldl Registry.add registry := by
  induction definitions generalizing registry with
  | nil => rfl
  | cons definition rest inductionHypothesis =>
      rw [List.flatten_cons, compilesInto_append_iff] at compiles
      obtain ⟨firstCompiles, restCompiles⟩ := compiles
      rw [List.flatten_cons, definitionArtifacts_append, List.foldl_append,
        ← inductionHypothesis _ restCompiles, ← after_compile_of_compilesInto firstCompiles]
      rfl

theorem CompilesInto.of_perm
    {compiler : Compiler}
    {registry : Registry}
    {first second : Definition}
    (compiles : CompilesInto compiler registry first)
    (reordered : first.Perm second) :
    CompilesInto compiler registry second := by
  obtain ⟨namespaces, admitted⟩ := compiles
  have sameArtifacts :
      (definitionArtifacts compiler.options first).Perm
        (definitionArtifacts compiler.options second) :=
    reordered.flatMap_right _
  refine ⟨?_, admitted.of_subset sameArtifacts.symm.subset⟩
  intro entry member
  exact namespaces entry (reordered.mem_iff.mpr member)

/-- Definitions that all compile leave the same artifacts, in whatever order they come. -/
theorem perm_afterAll_of_perm
    (compiler : Compiler)
    {definitions reordered : List Definition}
    (compiles : CompilesInto compiler Registry.empty definitions.flatten)
    (sameDefinitions : definitions.Perm reordered) :
    (afterAll Registry.empty (definitions.map (compile compiler))).artifacts.Perm
      (afterAll Registry.empty (reordered.map (compile compiler))).artifacts := by
  have sameNamespaces := sameDefinitions.flatten
  have sameArtifacts :
      (definitionArtifacts compiler.options definitions.flatten).Perm
        (definitionArtifacts compiler.options reordered.flatten) :=
    sameNamespaces.flatMap_right _
  rw [afterAll_compile_of_compilesInto compiler definitions _ compiles,
    afterAll_compile_of_compilesInto compiler reordered _ (compiles.of_perm sameNamespaces),
    Registry.artifacts_foldl_add, Registry.artifacts_foldl_add]
  exact Keyed.perm_foldl_add compiles.2.coherent sameArtifacts

/-- Neither the schedule nor the order of the sources matters. Compiling definitions in parallel
answers, place by place, what compiling them in turn does, failures included, and leaves the same
registry. In another order all of them compile into the empty registry exactly where they do in
this one; then both registries have the same artifact for each name, and as many rules and
animations, and their cascades have the same artifacts and one sequence of priorities. -/
theorem parallel_in_turn_and_source_order
    (compiler : Compiler)
    (definitions : List Definition) :
    (∀ registry, ∃ results,
        (compileParallel compiler definitions).perform registry =
            .ok (.parallel results)
              (afterAll registry (definitions.map (compile compiler))) ∧
          results.map (Except.map Outcome.compiled) =
            outcomes registry (definitions.map (compile compiler))) ∧
      ∀ reordered : List Definition, definitions.Perm reordered →
        (AllSucceed Registry.empty (definitions.map (compile compiler)) ↔
            AllSucceed Registry.empty (reordered.map (compile compiler))) ∧
          (AllSucceed Registry.empty (definitions.map (compile compiler)) →
            let first := afterAll Registry.empty (definitions.map (compile compiler))
            let second := afterAll Registry.empty (reordered.map (compile compiler))
            (∀ id, first.get? id = second.get? id) ∧
              first.ruleCount = second.ruleCount ∧
              first.keyframesCount = second.keyframesCount ∧
              first.sorted.Perm second.sorted ∧
              first.sorted.map Artifact.priority = second.sorted.map Artifact.priority) := by
  constructor
  · intro registry
    obtain ⟨sameRegistry, sameResults⟩ := mergeEach_eq_in_turn compiler definitions registry
    refine ⟨_, ?_, sameResults⟩
    rw [perform_eq_whole, ← sameRegistry]
    rfl
  · intro reordered sameDefinitions
    rw [allSucceed_compile_iff, allSucceed_compile_iff]
    constructor
    · constructor
      · intro compiles
        exact compiles.of_perm sameDefinitions.flatten
      · intro compiles
        exact compiles.of_perm sameDefinitions.symm.flatten
    · intro compiles first second
      have sameArtifacts : first.artifacts.Perm second.artifacts :=
        perm_afterAll_of_perm compiler compiles sameDefinitions
      have firstKeyed : first.IsKeyed := isKeyed_afterAll _
      have secondKeyed : second.IsKeyed := isKeyed_afterAll _
      exact
        ⟨Registry.get?_eq_of_perm firstKeyed secondKeyed sameArtifacts,
          sameArtifacts.countP_eq _, sameArtifacts.countP_eq _,
          Registry.perm_sorted_of_perm sameArtifacts,
          Registry.priorities_sorted_eq_of_perm sameArtifacts⟩

/-- Two definitions with a rule in common, compiled in both orders. The registries list their
artifacts differently, but rank them alike. -/
theorem sources_with_shared_rule_swapped :
    let compiler : Compiler := ⟨Options.default, by decide⟩
    let card : Definition := [("card", ⟨[], [("color", .text "red"), ("width", .text "1px")]⟩)]
    let link : Definition := [("link", ⟨[], [("opacity", .text "0"), ("color", .text "red")]⟩)]
    let first := afterAll Registry.empty ([card, link].map (compile compiler))
    let second := afterAll Registry.empty ([link, card].map (compile compiler))
    [card, link].Perm [link, card] ∧
      AllSucceed Registry.empty ([card, link].map (compile compiler)) ∧
      first ≠ second ∧ first.ruleCount = 3 ∧ second.ruleCount = 3 ∧
      first.sorted.map Artifact.priority = second.sorted.map Artifact.priority := by
  intro compiler card link first second
  have swapped : [card, link].Perm [link, card] := .swap _ _ _
  have succeeded : AllSucceed Registry.empty ([card, link].map (compile compiler)) := by
    unfold AllSucceed
    decide +kernel
  have independent :=
    ((parallel_in_turn_and_source_order compiler [card, link]).2 [link, card] swapped).2 succeeded
  have firstCount : first.ruleCount = 3 := by decide +kernel
  exact ⟨swapped, succeeded, by decide +kernel, firstCount, independent.2.1 ▸ firstCount,
    independent.2.2.2.2⟩

end Operation

end AtomicCss
