import AtomicCss.Proofs.Compile.Gathering
import AtomicCss.Proofs.Registry.History

/-!
Contract: a source that compiled once compiles again, at any later time.

Owns:
- distinct names in every output of a compilation;
- the presence of an output in every later registry, and the second compilation of its source.

Does not own: sources that were never compiled into the registry.
-/

namespace AtomicCss

/-! ## Names in an output -/

/-- No name occurs twice among the artifacts of a definition. -/
theorem distinct_compileDefinition
    {options : Options}
    {definition : Definition}
    {output : Output}
    (success : compileDefinition options definition = .ok output) :
    Keyed.Distinct Artifact.id output.artifacts := by
  obtain ⟨-, -, rfl⟩ := (compileDefinition_eq_ok_iff options definition output).mp success
  exact Registry.isKeyed_empty.foldl_add (definitionArtifacts options definition)

/-- One more animation is added to the artifacts, and nothing else changes but the warnings. -/
theorem addAnimation_eq_ok
    {options : Options}
    {output extended : Output}
    {frames : Keyframes}
    (success : addAnimation options output frames = .ok extended) :
    ∃ compiled, compileKeyframes options frames = .ok compiled ∧
      Keyed.Accepts Artifact.id output.artifacts (.keyframes compiled.block) ∧
      extended.styles = output.styles ∧
      extended.artifacts =
        Keyed.add Artifact.id output.artifacts (.keyframes compiled.block) := by
  obtain ⟨compiled, animated, inserting⟩ := Success.bind_eq_ok_iff.mp success
  obtain ⟨done, inserted, equal⟩ := Success.bind_eq_ok_iff.mp inserting
  obtain ⟨accepted, rfl⟩ := (Registry.insert_eq_ok_iff ⟨output.artifacts⟩ _ done).mp inserted
  obtain rfl := Except.ok.inj equal
  exact ⟨compiled, animated, accepted, rfl, Registry.artifacts_add _ _⟩

private theorem distinct_addAnimation
    {options : Options}
    {output extended : Output}
    {frames : Keyframes}
    (distinct : Keyed.Distinct Artifact.id output.artifacts)
    (success : addAnimation options output frames = .ok extended) :
    Keyed.Distinct Artifact.id extended.artifacts := by
  obtain ⟨compiled, -, -, -, added⟩ := addAnimation_eq_ok success
  rw [added]
  exact distinct.add _

private theorem distinct_foldlM_addAnimation
    {options : Options}
    {blocks : List (String × Keyframes)}
    {output final : Output}
    (distinct : Keyed.Distinct Artifact.id output.artifacts)
    (success : blocks.foldlM (fun sofar entry => addAnimation options sofar entry.2) output =
      .ok final) :
    Keyed.Distinct Artifact.id final.artifacts := by
  induction blocks generalizing output with
  | nil =>
      obtain rfl := Except.ok.inj success
      exact distinct
  | cons block rest inductionHypothesis =>
      rw [List.foldlM_cons] at success
      obtain ⟨extended, added, finished⟩ := Success.bind_eq_ok_iff.mp success
      exact inductionHypothesis (distinct_addAnimation distinct added) finished

/-- No name occurs twice among the artifacts of a source, whose animations come on top of those of
its definition. -/
theorem distinct_compileSource
    {options : Options}
    {source : Source}
    {output : Output}
    (success : compileSource options source = .ok output) :
    Keyed.Distinct Artifact.id output.artifacts := by
  obtain ⟨defined, compiled, animated⟩ := Success.bind_eq_ok_iff.mp success
  exact distinct_foldlM_addAnimation (distinct_compileDefinition compiled) animated

/-! ## Compiling again -/

namespace Compiler

/-- After a merge, every artifact of an output without repeated names is found under its name. -/
theorem get?_of_mergeOutput
    {registry merged : Registry}
    {output result : Output}
    (distinct : Keyed.Distinct Artifact.id output.artifacts)
    (success : mergeOutput registry output = .ok (merged, result))
    {artifact : Artifact}
    (member : artifact ∈ output.artifacts) :
    merged.get? artifact.id = some artifact := by
  obtain ⟨-, accepted, rfl⟩ := mergeOutput_eq_ok success
  change Keyed.lookup Artifact.id _ artifact.id = some artifact
  rw [Registry.artifacts_foldl_add, Keyed.lookup_foldl_add,
    distinct.lookup_eq_some_iff.mpr ⟨member, rfl⟩]
  -- A name that was taken stood for the same artifact, or the merge would have been refused.
  cases found : Keyed.lookup Artifact.id registry.artifacts artifact.id with
  | none => rfl
  | some existing =>
      rw [accepted artifact member existing found]
      rfl

/-- Merging an output that is there already changes nothing. -/
theorem mergeOutput_eq_self
    {registry : Registry}
    {output : Output}
    (present : ∀ artifact ∈ output.artifacts, registry.get? artifact.id = some artifact) :
    mergeOutput registry output = .ok (registry, output) := by
  have accepted : ∀ artifact ∈ output.artifacts, registry.Accepts artifact := by
    intro artifact member existing found
    have samePlace := (present artifact member).symm.trans found
    exact (Option.some.inj samePlace).symm
  have unchanged : output.artifacts.foldl Registry.add registry = registry := by
    have sameArtifacts :
        (output.artifacts.foldl Registry.add registry).artifacts = registry.artifacts := by
      rw [Registry.artifacts_foldl_add]
      apply Keyed.foldl_add_eq_self
      intro artifact member
      have found := present artifact member
      exact Option.isSome_iff_exists.mpr ⟨artifact, found⟩
    exact congrArg Registry.mk sameArtifacts
  have merged := (Registry.merge_eq_ok_iff registry output.artifacts _).mpr ⟨accepted, rfl⟩
  rw [mergeOutput, merged, unchanged]
  rfl

end Compiler

namespace Operation

theorem perform_compileSource_eq_ok_iff
    (compiler : Compiler)
    (source : Source)
    (registry merged : Registry)
    (output : Output) :
    (compileSource compiler source).perform registry = .ok (.compiled output) merged ↔
      AtomicCss.compileSource compiler.options source = .ok output ∧
        Compiler.mergeOutput registry output = .ok (merged, output) := by
  rw [perform_eq_whole, Program.whole_eq_ok_iff]
  simp only [change, Compiler.compileInto, Success.map_eq_ok_iff, Success.bind_eq_ok_iff]
  constructor
  · rintro ⟨done, ⟨compiled, success, merging⟩, equal⟩
    obtain ⟨rfl, outcomeEqual⟩ := Prod.mk.inj equal
    obtain ⟨sameOutput, -⟩ := Compiler.mergeOutput_eq_ok merging
    obtain rfl : compiled = output := sameOutput.symm.trans (Outcome.compiled.inj outcomeEqual)
    exact ⟨success, by rw [merging, ← sameOutput]⟩
  · rintro ⟨success, merging⟩
    exact ⟨(merged, output), ⟨output, success, merging⟩, rfl⟩

/-- Recompilation is idempotent at any later time. Once a source has compiled into a registry, its
artifacts are in every later one as the output lists them, and compiling it there gives the same
output and leaves the registry as it is. -/
theorem recompilation_idempotent
    (compiler : Compiler)
    (source : Source)
    (registry merged : Registry)
    (output : Output)
    (compiled :
      (compileSource compiler source).perform registry = .ok (.compiled output) merged)
    (operations : List Operation) :
    let later := afterAll merged operations
    (∀ artifact ∈ output.artifacts, later.get? artifact.id = some artifact) ∧
      (compileSource compiler source).perform later = .ok (.compiled output) later := by
  intro later
  obtain ⟨success, merging⟩ :=
    (perform_compileSource_eq_ok_iff compiler source registry merged output).mp compiled
  have distinct := distinct_compileSource success
  have present : ∀ artifact ∈ output.artifacts, later.get? artifact.id = some artifact := by
    intro artifact member
    exact Keyed.lookup_of_prefix (prefix_afterAll operations merged)
      (Compiler.get?_of_mergeOutput distinct merging member)
  refine ⟨present, ?_⟩
  exact (perform_compileSource_eq_ok_iff compiler source later later output).mpr
    ⟨success, Compiler.mergeOutput_eq_self present⟩

/-- A source with a rule and an animation compiles again after another compiler, with a prefix of
its own, has compiled it too. -/
theorem recompilation_after_other_compiler :
    let compiler : Compiler := ⟨Options.default, by decide⟩
    let other : Compiler := ⟨⟨"y", false, false, false, "unset", false⟩, by decide⟩
    let source : Source :=
      ⟨[("card", ⟨[], [("color", .text "red")]⟩)], [("fade", [("to", [("color", .text "blue")])])]⟩
    let output : Output :=
      ⟨[("card", ⟨[("color", ["x1e2nbdu"])], [], []⟩)],
        [.rule ⟨"x1e2nbdu", ⟨".x1e2nbdu\x7bcolor:red\x7d", none⟩, 3000⟩,
          .keyframes ⟨"xeuw8hg-B", "to\x7bcolor:blue;\x7d",
            ⟨"@keyframes xeuw8hg-B\x7bto\x7bcolor:blue;\x7d\x7d", none⟩, 1⟩], []⟩
    let later := afterAll ⟨output.artifacts⟩ [compileSource other source]
    (compileSource compiler source).perform Registry.empty =
        .ok (.compiled output) ⟨output.artifacts⟩ ∧
      later.artifacts.length = 4 ∧
      (compileSource compiler source).perform later = .ok (.compiled output) later := by
  intro compiler other source output later
  have compiled :
      (compileSource compiler source).perform Registry.empty =
        .ok (.compiled output) ⟨output.artifacts⟩ :=
    (perform_compileSource_eq_ok_iff _ _ _ _ _).mpr ⟨by decide +kernel, by decide +kernel⟩
  refine ⟨compiled, by decide +kernel, ?_⟩
  exact (recompilation_idempotent compiler source Registry.empty ⟨output.artifacts⟩ output
    compiled [compileSource other source]).2

end Operation

end AtomicCss
