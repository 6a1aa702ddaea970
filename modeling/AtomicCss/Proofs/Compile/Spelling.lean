import AtomicCss.Proofs.Context.Reordering
import AtomicCss.Proofs.Style.Spelling

/-!
Contract: one property in one context, however the context is written.

Owns:
- the compilation of a definition with a single leaf;
- the agreement of all spellings of a context, in whatever order and however split.

Does not own: the key that the classes are listed under, which spells the nested maps out.
-/

namespace AtomicCss

/-- A definition with one leaf compiles to what the leaf does, if its artifacts agree among
themselves. -/
theorem compileDefinition_of_single_leaf
    (options : Options)
    {scope : String}
    {parameters : List String}
    {styles : StyleMap}
    {leaf : Leaf}
    (flattened : flatten scope styles = .ok [leaf]) :
    compileDefinition options [(scope, ⟨parameters, styles⟩)] = (do
      let output ← leaf.compile options scope parameters
      let registry ← Registry.empty.insertAll output.artifacts
      .ok ⟨[(scope, ⟨[(output.key, output.classNames.foldl addName [])], parameters,
        output.binding.toList⟩)], registry.artifacts, output.warnings⟩) := by
  simp only [compileDefinition, List.foldlM_cons, List.foldlM_nil, DefinitionState.step, flattened,
    NamespaceState.step, DefinitionState.start, bind, Except.bind]
  cases leaf.compile options scope parameters with
  | error error => rfl
  | ok output =>
      obtain ⟨key, animation, rules, binding, warnings⟩ := output
      cases binding with
      | none =>
          simp only [NamespaceState.absorb, bind, Except.bind]
          cases Registry.empty.insertAll _ with
          | error error => rfl
          | ok registry => rfl
      | some bound =>
          simp only [NamespaceState.absorb, addBinding, List.find?_nil, bind, Except.bind]
          cases Registry.empty.insertAll _ with
          | error error => rfl
          | ok registry => rfl

theorem compileDefinition_of_flatten_error
    (options : Options)
    {scope : String}
    (parameters : List String)
    {styles : StyleMap}
    {error : Error}
    (failed : flatten scope styles = .error error) :
    compileDefinition options [(scope, ⟨parameters, styles⟩)] = .error error := by
  simp only [compileDefinition, List.foldlM_cons, DefinitionState.step, failed, bind, Except.bind]

namespace ContextSpelling

/-- The definition of one namespace that gives a property a value in a context written this way. -/
def definition (spelling : ContextSpelling) (scope : String) (parameters : List String)
    (property : String) (value : Value) : Definition :=
  [(scope, ⟨parameters, spelling.styles property value⟩)]

/-- Every way of writing a context compiles the same. Take keys that nest legally, in two orders,
and split each into nested maps and conditions: the two definitions fail for the same reason, or
they have the same artifacts, the same bindings and the same warnings. -/
theorem compileDefinition_spelling_independent
    (options : Options)
    (scope : String)
    (parameters : List String)
    {keys : List String}
    (legal : NestsLegally keys)
    {property : String}
    (isProperty : IsPropertyKey property)
    {value : Value}
    (single : ∀ entries, value ≠ .object entries)
    (first second : ContextSpelling)
    (firstKeys : first.keys.Perm keys)
    (secondKeys : second.keys.Perm keys) :
    (∃ error,
      compileDefinition options (first.definition scope parameters property value) =
          .error error ∧
        compileDefinition options (second.definition scope parameters property value) =
          .error error) ∨
      ∃ firstOutput secondOutput,
        compileDefinition options (first.definition scope parameters property value) =
            .ok firstOutput ∧
          compileDefinition options (second.definition scope parameters property value) =
            .ok secondOutput ∧
          firstOutput.artifacts = secondOutput.artifacts ∧
          firstOutput.styles.map (fun entry => (entry.1, entry.2.bindings)) =
            secondOutput.styles.map (fun entry => (entry.1, entry.2.bindings)) ∧
          firstOutput.warnings = secondOutput.warnings := by
  have firstLegal : NestsLegally first.keys := legal.of_perm firstKeys.symm
  have secondLegal : NestsLegally second.keys := legal.of_perm secondKeys.symm
  have firstFlattened := first.flatten_styles scope firstLegal isProperty single
  have secondFlattened := second.flatten_styles scope secondLegal isProperty single
  -- Both spellings come down to one leaf, in contexts that hold the same levels.
  have reordered : (readSegments first.keys).Perm (readSegments second.keys) :=
    (firstKeys.trans secondKeys.symm).filterMap _
  have same : (first.leaf property value).SameInOtherOrder (second.leaf property value) :=
    ⟨rfl, rfl, reordered⟩
  rw [definition, definition, compileDefinition_of_single_leaf options firstFlattened,
    compileDefinition_of_single_leaf options secondFlattened,
    same.compile options single scope parameters]
  cases (first.leaf property value).compile options scope parameters with
  | error error => exact .inl ⟨error, rfl, rfl⟩
  | ok output =>
      have sameArtifacts :
          (output.under (second.leaf property value).key).artifacts = output.artifacts := rfl
      simp only [bind, Except.bind, Except.map, sameArtifacts]
      cases Registry.empty.insertAll output.artifacts with
      | error error => exact .inl ⟨error, rfl, rfl⟩
      | ok registry => exact .inr ⟨_, _, rfl, rfl, rfl, rfl, rfl⟩

/-- A width that a parameter gives, for hovering in print: once as nested maps, with a blank after a
key, and once with the at-rule outside and the pseudo selector as a condition. -/
theorem hovering_in_print_written_twice :
    let keys := [":hover ", "@media print"]
    let value : Value := .dynamic ⟨"size", none⟩
    let nestedOnly : ContextSpelling := ⟨[":hover ", "@media print"], []⟩
    let turned : ContextSpelling := ⟨["@media print"], [":hover "]⟩
    NestsLegally keys ∧ IsPropertyKey "width" ∧
      ∃ firstOutput secondOutput,
        compileDefinition Options.default (nestedOnly.definition "card" ["size"] "width" value) =
            .ok firstOutput ∧
          compileDefinition Options.default (turned.definition "card" ["size"] "width" value) =
            .ok secondOutput ∧
          firstOutput.artifacts = secondOutput.artifacts ∧
          firstOutput.styles.map (fun entry => (entry.1, entry.2.bindings)) =
            secondOutput.styles.map (fun entry => (entry.1, entry.2.bindings)) := by
  intro keys value nestedOnly turned
  have hover : Segment.read ":hover " = .ok (.pseudo ":hover") := by decide +kernel
  have print : Segment.read "@media print" = .ok (.atRule "@media print") := by decide +kernel
  have legal : NestsLegally keys :=
    { opening := by decide +kernel
      segments := by simp [keys, hover, print]
      distinct := by decide +kernel
      elements := by decide +kernel
      depth := by decide +kernel }
  have isProperty : IsPropertyKey "width" :=
    ⟨by decide +kernel, by decide +kernel, by decide +kernel⟩
  have single : ∀ entries, value ≠ .object entries := by simp [value]
  have independent :=
    compileDefinition_spelling_independent Options.default "card" ["size"] legal isProperty single
      nestedOnly turned (.refl _) (.swap _ _ _)
  refine ⟨legal, isProperty, ?_⟩
  rcases independent with
    ⟨error, failed, -⟩ | ⟨firstOutput, secondOutput, firstSuccess, secondSuccess, same⟩
  · have compiled :
        (compileDefinition Options.default
          (nestedOnly.definition "card" ["size"] "width" value)).toOption.isSome := by
      decide +kernel
    rw [failed] at compiled
    cases compiled
  · exact ⟨firstOutput, secondOutput, firstSuccess, secondSuccess, same.1, same.2.1⟩

end ContextSpelling

end AtomicCss
