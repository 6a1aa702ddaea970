import AtomicCss.Proofs.Compile.Gathering
import AtomicCss.Proofs.Style.KeyOrder

/-!
Contract: definitions with their namespaces and keys in another order.

Owns:
- outputs that differ in the order of their parts only;
- reordered definitions compile together, to such outputs.

Does not own: the order of the warnings, and which of several faults is reported.
-/

namespace AtomicCss

/-- Two compiled namespaces list the same classes under the same keys and have the same bindings. A
key is null in both or in none. -/
structure CompiledNamespace.SameUpToOrder (first second : CompiledNamespace) : Prop where
  keys : (first.classes.map (·.1)).Perm (second.classes.map (·.1))
  classes : ∀ key, Option.Rel List.Perm (OrderedMap.get? key first.classes)
    (OrderedMap.get? key second.classes)
  parameters : first.parameters = second.parameters
  bindings : first.bindings.Perm second.bindings

/-- Two outputs have the same artifacts, and the same namespaces up to the order in each. -/
structure Output.SameUpToOrder (first second : Output) : Prop where
  artifacts : first.artifacts.Perm second.artifacts
  styles : Rearranged (fun left right => left.1 = right.1 ∧ left.2.SameUpToOrder right.2)
    first.styles second.styles

/-! ## One namespace -/

namespace NamespaceReordered

variable {left right : String × Namespace} (options : Options)

theorem perm_namespaceOutputs
    (reordered : NamespaceReordered left right) :
    (namespaceOutputs options left).Perm (namespaceOutputs options right) := by
  have sameLeaves := sameLeaves_flatten right.1 reordered.styles
  unfold namespaceOutputs
  rw [reordered.name, reordered.parameters]
  cases leftFound : flatten right.1 left.2.styles with
  | error leftError =>
      cases rightFound : flatten right.1 right.2.styles with
      | error rightError => exact List.Perm.refl _
      | ok rightLeaves =>
          rw [leftFound, rightFound] at sameLeaves
          contradiction
  | ok leftLeaves =>
      obtain ⟨rightLeaves, rightFound, sameOrder⟩ := sameLeaves.exists_perm leftFound
      rw [rightFound]
      exact sameOrder.filterMap _

private theorem namespaceCompiles
    (reordered : NamespaceReordered left right)
    (compiles : NamespaceCompiles options left) :
    NamespaceCompiles options right := by
  obtain ⟨leaves, flattened, compiled⟩ := compiles.leaves
  rw [reordered.name] at flattened
  obtain ⟨others, otherFlattened, sameOrder⟩ :=
    (sameLeaves_flatten right.1 reordered.styles).exists_perm flattened
  refine ⟨⟨others, otherFlattened, ?_⟩, ?_⟩
  · intro leaf member
    rw [← reordered.name, ← reordered.parameters]
    exact compiled leaf (sameOrder.mem_iff.mpr member)
  · have sameBindings := (reordered.perm_namespaceOutputs options).flatMap_right (·.binding.toList)
    exact (Keyed.coherent_iff_of_perm sameBindings).mp compiles.bindings

private theorem sameUpToOrder_compiledNamespace
    (reordered : NamespaceReordered left right)
    (compiles : NamespaceCompiles options left) :
    (compiledNamespace options left).SameUpToOrder (compiledNamespace options right) := by
  have sameOutputs := reordered.perm_namespaceOutputs options
  have sameBindings := sameOutputs.flatMap_right (·.binding.toList)
  exact
    { keys := CompiledNamespace.perm_keys_gatherClasses sameOutputs
      classes := CompiledNamespace.rel_get?_gatherClasses sameOutputs
      parameters := reordered.parameters
      bindings := Keyed.perm_foldl_add compiles.bindings sameBindings }

end NamespaceReordered

/-! ## Definitions -/

namespace Definition.Reordered

variable {first second : Definition} (options : Options)

theorem namespacesCompile_iff
    (reordered : first.Reordered second) :
    (∀ entry ∈ first, NamespaceCompiles options entry) ↔
      ∀ entry ∈ second, NamespaceCompiles options entry := by
  apply Rearranged.forall_mem_iff reordered
  intro left right together
  exact ⟨together.namespaceCompiles options, together.symm.namespaceCompiles options⟩

private theorem perm_definitionArtifacts
    (reordered : first.Reordered second) :
    (definitionArtifacts options first).Perm (definitionArtifacts options second) := by
  apply Rearranged.perm_flatMap reordered
  intro left right together
  exact (together.perm_namespaceOutputs options).flatMap_right LeafOutput.artifacts

end Definition.Reordered

/-- The order of namespaces and keys does not matter. A definition compiles exactly where a
reordered one does, and then both have the same artifacts, and in each namespace the same classes
under the same keys and the same bindings. -/
theorem compileDefinition_key_order_independent
    (options : Options)
    {first second : Definition}
    (reordered : first.Reordered second) :
    ((∃ output, compileDefinition options first = .ok output) ↔
        ∃ output, compileDefinition options second = .ok output) ∧
      ∀ firstOutput secondOutput,
        compileDefinition options first = .ok firstOutput →
          compileDefinition options second = .ok secondOutput →
            firstOutput.SameUpToOrder secondOutput := by
  have sameArtifacts := reordered.perm_definitionArtifacts options
  constructor
  -- Neither condition of success looks at the order.
  · simp only [compileDefinition_eq_ok_iff, reordered.namespacesCompile_iff options,
      Keyed.coherent_iff_of_perm sameArtifacts, exists_and_left, exists_eq]
  · intro firstOutput secondOutput firstSuccess secondSuccess
    rw [compileDefinition_eq_ok_iff] at firstSuccess secondSuccess
    obtain ⟨compiles, coherent, rfl⟩ := firstSuccess
    obtain ⟨-, -, rfl⟩ := secondSuccess
    constructor
    · rw [artifacts_gathered, artifacts_gathered]
      exact Keyed.perm_foldl_add coherent sameArtifacts
    · rw [styles_gathered, styles_gathered]
      refine Rearranged.map reordered ?_
      intro left member right together
      exact ⟨together.name,
        together.sameUpToOrder_compiledNamespace options (compiles left member)⟩

/-- Two namespaces change places, and the keys inside a nested map and among conditions do. Both
definitions compile, to outputs that list their classes and artifacts differently. -/
theorem key_order_of_nested_maps :
    let conditions : StyleMap := [("default", .text "auto"), ("@media print", .text "1px")]
    let hovered : StyleMap :=
      [("width", .dynamic ⟨"size", none⟩), ("height", .object conditions)]
    let card : Namespace := ⟨["size"], [("color", .text "red"), (":hover", .object hovered)]⟩
    let link : Namespace := ⟨[], [("opacity", .null)]⟩
    let swappedCard : Namespace :=
      ⟨["size"],
        [(":hover",
            .object [("height", .object conditions.reverse), ("width", .dynamic ⟨"size", none⟩)]),
          ("color", .text "red")]⟩
    let first : Definition := [("card", card), ("link", link)]
    let second : Definition := [("link", link), ("card", swappedCard)]
    first.Reordered second ∧
      ∃ firstOutput secondOutput,
        compileDefinition Options.default first = .ok firstOutput ∧
          compileDefinition Options.default second = .ok secondOutput ∧
          firstOutput ≠ secondOutput ∧ firstOutput.SameUpToOrder secondOutput := by
  intro conditions hovered card link swappedCard first second
  have conditionsSwapped : StyleMap.Reordered conditions conditions.reverse :=
    .of_perm conditions.reverse_perm.symm
  have hoveredSwapped :
      StyleMap.Reordered hovered
        [("height", .object conditions.reverse), ("width", .dynamic ⟨"size", none⟩)] :=
    .trans (.swap _ _ _) (.inside "height" conditionsSwapped (.cons _ .nil))
  have cardSwapped : StyleMap.Reordered card.styles swappedCard.styles :=
    .trans (.swap _ _ _) (.inside ":hover" hoveredSwapped (.cons _ .nil))
  have linkKept : StyleMap.Reordered link.styles link.styles := .of_perm (.refl _)
  have reordered : first.Reordered second :=
    ⟨[("link", link), ("card", card)], .swap _ _ _,
      .cons ⟨rfl, rfl, linkKept⟩ (.cons ⟨rfl, rfl, cardSwapped⟩ .nil)⟩
  have independent := compileDefinition_key_order_independent Options.default reordered
  have compiled : (compileDefinition Options.default first).toOption.isSome := by
    decide +kernel
  obtain ⟨firstOutput, firstSuccess⟩ :
      ∃ output, compileDefinition Options.default first = .ok output := by
    cases found : compileDefinition Options.default first with
    | error error => simp [found, Except.toOption] at compiled
    | ok output => exact ⟨output, rfl⟩
  obtain ⟨secondOutput, secondSuccess⟩ := independent.1.mp ⟨firstOutput, firstSuccess⟩
  have firstNames : firstOutput.styles.map (·.1) = ["card", "link"] := by
    rw [((compileDefinition_eq_ok_iff _ _ _).mp firstSuccess).2.2, styles_gathered]
    rfl
  have secondNames : secondOutput.styles.map (·.1) = ["link", "card"] := by
    rw [((compileDefinition_eq_ok_iff _ _ _).mp secondSuccess).2.2, styles_gathered]
    rfl
  have different : firstOutput ≠ secondOutput := by
    intro equal
    rw [equal, secondNames] at firstNames
    exact absurd firstNames (by decide)
  exact ⟨reordered, firstOutput, secondOutput, firstSuccess, secondSuccess, different,
    independent.2 firstOutput secondOutput firstSuccess secondSuccess⟩

end AtomicCss
