import AtomicCss.Proofs.Compile.Gathering
import AtomicCss.Proofs.Registry.History
import Mathlib.Data.List.Induction

/-!
Contract: a definition compiled at once, and its parts compiled one after the other.

Owns:
- batches that a keyed list admits, all at once or in two parts;
- the exact condition for a definition to compile into a registry;
- the agreement of one compilation with two.

Does not own: the errors of compilations that fail. One run may report another collision than the
other, because it meets the artifacts at another time.
-/

namespace AtomicCss

/-! ## Batches in two parts -/

namespace Keyed

variable {α κ : Type} {key : α → κ} [DecidableEq κ]

/-- Adding a batch does not depend on whether its repeated keys were dropped before. -/
theorem foldl_add_foldl_add_nil
    (batch items : List α) :
    (batch.foldl (add key) []).foldl (add key) items = batch.foldl (add key) items := by
  induction batch using List.reverseRecOn with
  | nil => rfl
  | append_singleton earlier last inductionHypothesis =>
      rw [List.foldl_append, List.foldl_append, List.foldl_cons, List.foldl_nil, List.foldl_cons,
        List.foldl_nil]
      have sameLookup :
          lookup key (earlier.foldl (add key) []) (key last) = lookup key earlier (key last) :=
        lookup_foldl_add earlier [] (key last)
      cases taken : (lookup key earlier (key last)).isSome with
      | true =>
          have takenLater :
              (lookup key (earlier.foldl (add key) items) (key last)).isSome = true := by
            rw [lookup_foldl_add, Option.isSome_or, taken, Bool.or_true]
          rw [add_of_taken (sameLookup ▸ taken), add_of_taken takenLater, inductionHypothesis]
      | false =>
          rw [add_of_free (sameLookup ▸ taken), List.foldl_append, inductionHypothesis]
          rfl

variable (key) in
/-- A batch that agrees with itself and with a list, checked against the list as it is. -/
structure Admits (items batch : List α) : Prop where
  coherent : Coherent key batch
  accepted : ∀ item ∈ batch, Accepts key items item

/-- After an admitted batch was added, every item of it is found under its key. -/
theorem Admits.lookup_foldl_add
    {items batch : List α}
    (admitted : Admits key items batch)
    {item : α}
    (member : item ∈ batch) :
    lookup key (batch.foldl (add key) items) (key item) = some item := by
  obtain ⟨first, found⟩ : ∃ first, lookup key batch (key item) = some first :=
    Option.isSome_iff_exists.mp (isSome_lookup_iff.mpr ⟨item, member, rfl⟩)
  have firstIsItem : first = item :=
    admitted.coherent first (mem_of_lookup found) item member (key_of_lookup found)
  rw [Keyed.lookup_foldl_add, found, firstIsItem]
  cases before : lookup key items (key item) with
  | none => rfl
  | some existing =>
      rw [admitted.accepted item member existing before]
      rfl

/-- A batch is admitted at once exactly where its two parts are, the second by the list that the
first has left. The checks are made at other moments, but they come to the same. -/
theorem admits_append_iff
    (items first second : List α) :
    Admits key items (first ++ second) ↔
      Admits key items first ∧ Admits key (first.foldl (add key) items) second := by
  constructor
  · intro admitted
    have firstAdmitted : Admits key items first :=
      ⟨admitted.coherent.of_subset (List.subset_append_left first second),
        fun item member => admitted.accepted item (List.mem_append_left second member)⟩
    refine ⟨firstAdmitted,
      admitted.coherent.of_subset (List.subset_append_right first second), ?_⟩
    intro item member existing found
    rw [lookup_foldl_add] at found
    cases before : lookup key items (key item) with
    | some present =>
        rw [before, Option.some_or, Option.some_inj] at found
        rw [← found]
        exact admitted.accepted item (List.mem_append_right first member) present before
    | none =>
        rw [before, Option.none_or] at found
        exact admitted.coherent existing (List.mem_append_left second (mem_of_lookup found)) item
          (List.mem_append_right first member) (key_of_lookup found)
  · intro both
    obtain ⟨firstAdmitted, secondAdmitted⟩ := both
    -- Two items of one key in different parts meet in the list that the first part has left.
    have agree : ∀ item ∈ first, ∀ other ∈ second, key item = key other → item = other := by
      intro item member other otherMember sameKey
      have found := firstAdmitted.lookup_foldl_add member
      rw [sameKey] at found
      exact secondAdmitted.accepted other otherMember item found
    constructor
    · intro item member other otherMember sameKey
      rcases List.mem_append.mp member with inFirst | inSecond
      · rcases List.mem_append.mp otherMember with otherFirst | otherSecond
        · exact firstAdmitted.coherent item inFirst other otherFirst sameKey
        · exact agree item inFirst other otherSecond sameKey
      · rcases List.mem_append.mp otherMember with otherFirst | otherSecond
        · exact (agree other otherFirst item inSecond sameKey.symm).symm
        · exact secondAdmitted.coherent item inSecond other otherSecond sameKey
    · intro item member
      rcases List.mem_append.mp member with inFirst | inSecond
      · exact firstAdmitted.accepted item inFirst
      · intro existing found
        have continued : items <+: first.foldl (add key) items := prefix_foldl_add first items
        have foundLater := lookup_of_prefix continued found
        exact secondAdmitted.accepted item inSecond existing foundLater

end Keyed

/-! ## Compiling a definition into a registry -/

theorem definitionArtifacts_append
    (options : Options)
    (first second : Definition) :
    definitionArtifacts options (first ++ second) =
      definitionArtifacts options first ++ definitionArtifacts options second := by
  simp [definitionArtifacts]

namespace Operation

/-- A definition compiles into a registry exactly where each namespace compiles and the registry
admits the artifacts as they come up, repeated or not. -/
theorem perform_compile_eq_ok_iff
    (compiler : Compiler)
    (definition : Definition)
    (registry merged : Registry)
    (output : Output) :
    (compile compiler definition).perform registry = .ok (.compiled output) merged ↔
      (∀ entry ∈ definition, NamespaceCompiles compiler.options entry) ∧
        Keyed.Admits Artifact.id registry.artifacts
          (definitionArtifacts compiler.options definition) ∧
        output = (DefinitionState.start.gather compiler.options definition).output ∧
        merged = (definitionArtifacts compiler.options definition).foldl Registry.add registry := by
  have emptyDistinct : Keyed.Distinct Artifact.id ([] : List Artifact) := List.nodup_nil
  have sameMembers
      (coherent : Keyed.Coherent Artifact.id (definitionArtifacts compiler.options definition))
      (artifact : Artifact) :
      artifact ∈ (DefinitionState.start.gather compiler.options definition).output.artifacts ↔
        artifact ∈ definitionArtifacts compiler.options definition := by
    have added :
        artifact ∈ (definitionArtifacts compiler.options definition).foldl
            (Keyed.add Artifact.id) [] ↔
          artifact ∈ [] ∨ artifact ∈ definitionArtifacts compiler.options definition :=
      emptyDistinct.mem_foldl_add_iff coherent artifact
    rw [artifacts_gathered, added]
    simp
  have sameMerged :
      (DefinitionState.start.gather compiler.options definition).output.artifacts.foldl
          Registry.add registry =
        (definitionArtifacts compiler.options definition).foldl Registry.add registry := by
    apply congrArg Registry.mk
    rw [Registry.artifacts_foldl_add, Registry.artifacts_foldl_add, artifacts_gathered]
    exact Keyed.foldl_add_foldl_add_nil _ registry.artifacts
  rw [perform_eq_whole, Program.whole_eq_ok_iff]
  simp only [change, Compiler.compile, Success.map_eq_ok_iff, Success.bind_eq_ok_iff,
    compileDefinition_eq_ok_iff]
  constructor
  · rintro ⟨done, ⟨compiled, ⟨namespaces, coherent, rfl⟩, merging⟩, equal⟩
    obtain ⟨sameOutput, accepted, mergedAll⟩ := Compiler.mergeOutput_eq_ok merging
    obtain ⟨rfl, outcomeEqual⟩ := Prod.mk.inj equal
    obtain rfl := Outcome.compiled.inj outcomeEqual
    refine ⟨namespaces, ⟨coherent, ?_⟩, sameOutput, ?_⟩
    · intro artifact member
      exact accepted artifact ((sameMembers coherent artifact).mpr member)
    · rw [mergedAll, sameMerged]
  · rintro ⟨namespaces, admitted, rfl, rfl⟩
    refine ⟨(_, _), ⟨_, ⟨namespaces, admitted.coherent, rfl⟩, ?_⟩, rfl⟩
    have accepted := fun artifact member =>
      admitted.accepted artifact ((sameMembers admitted.coherent artifact).mp member)
    have mergedBatch :=
      (Registry.merge_eq_ok_iff registry
        (DefinitionState.start.gather compiler.options definition).output.artifacts _).mpr
          ⟨accepted, rfl⟩
    rw [Compiler.mergeOutput, mergedBatch, sameMerged]
    rfl

end Operation

/-! ## One compilation and two -/

/-- The output of two compilations together: what the second one lists comes after what the first
one does, less the artifacts that are listed already. -/
def Output.followedBy (first second : Output) : Output :=
  ⟨first.styles ++ second.styles,
    (second.artifacts.foldl Registry.add ⟨first.artifacts⟩).artifacts,
    first.warnings ++ second.warnings⟩

private theorem output_gather_append
    (options : Options)
    (first second : Definition) :
    (DefinitionState.start.gather options (first ++ second)).output =
      (DefinitionState.start.gather options first).output.followedBy
        (DefinitionState.start.gather options second).output := by
  have sameArtifacts :
      (DefinitionState.start.gather options (first ++ second)).output.artifacts =
        ((DefinitionState.start.gather options second).output.artifacts.foldl Registry.add
          ⟨(DefinitionState.start.gather options first).output.artifacts⟩).artifacts := by
    rw [Registry.artifacts_foldl_add, artifacts_gathered, artifacts_gathered, artifacts_gathered,
      Keyed.foldl_add_foldl_add_nil, definitionArtifacts_append, List.foldl_append]
  have sameStyles :
      (DefinitionState.start.gather options (first ++ second)).output.styles =
        (DefinitionState.start.gather options first).output.styles ++
          (DefinitionState.start.gather options second).output.styles := by
    rw [styles_gathered, styles_gathered, styles_gathered, List.map_append]
  have sameWarnings :
      (DefinitionState.start.gather options (first ++ second)).output.warnings =
        (DefinitionState.start.gather options first).output.warnings ++
          (DefinitionState.start.gather options second).output.warnings := by
    simp [DefinitionState.gather, DefinitionState.output, DefinitionState.start]
  unfold Output.followedBy
  rw [← sameArtifacts, ← sameStyles, ← sameWarnings]

/-- Splitting a definition does not matter. Two definitions listed as one compile into a registry
exactly where they do one after the other; then the registry ends up the same, and the styles and
warnings of the whole are those of the first part followed by those of the second. -/
theorem Operation.compile_append_iff
    (compiler : Compiler)
    (first second : Definition)
    (registry merged : Registry)
    (output : Output) :
    (compile compiler (first ++ second)).perform registry = .ok (.compiled output) merged ↔
      ∃ middle firstOutput secondOutput,
        (compile compiler first).perform registry = .ok (.compiled firstOutput) middle ∧
          (compile compiler second).perform middle = .ok (.compiled secondOutput) merged ∧
          output = firstOutput.followedBy secondOutput := by
  simp only [perform_compile_eq_ok_iff, definitionArtifacts_append, Keyed.admits_append_iff,
    output_gather_append, List.forall_mem_append, List.foldl_append]
  constructor
  · rintro ⟨⟨firstCompiles, secondCompiles⟩, ⟨firstAdmitted, secondAdmitted⟩, rfl, rfl⟩
    rw [← Registry.artifacts_foldl_add] at secondAdmitted
    exact ⟨_, _, _, ⟨firstCompiles, firstAdmitted, rfl, rfl⟩,
      ⟨secondCompiles, secondAdmitted, rfl, rfl⟩, rfl⟩
  · rintro ⟨_, _, _, ⟨firstCompiles, firstAdmitted, rfl, rfl⟩,
      ⟨secondCompiles, secondAdmitted, rfl, rfl⟩, rfl⟩
    rw [Registry.artifacts_foldl_add] at secondAdmitted
    exact ⟨⟨firstCompiles, secondCompiles⟩, ⟨firstAdmitted, secondAdmitted⟩, rfl, rfl⟩

end AtomicCss
