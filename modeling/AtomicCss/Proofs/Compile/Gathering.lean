import AtomicCss.Proofs.Compile.ClassMap
import AtomicCss.Proofs.Registry.Growth

/-!
Contract: when a definition compiles, and what it compiles to.

Owns:
- the state after leaves were gathered, without the checks on the way;
- success of gathering as coherence of bindings and of artifacts;
- the exact condition for a definition to compile, and its exact output.

Does not own: what single leaves compile to, and the order in which faults are reported.
-/

namespace AtomicCss

/-! ## Bindings -/

/-- A binding is added exactly where its custom property is free or has this binding already. -/
theorem addBinding_eq_ok_iff
    (scope key : String)
    (bindings : List Binding)
    (binding : Binding)
    (result : List Binding) :
    addBinding scope key bindings binding = .ok result ↔
      Keyed.Accepts Binding.cssVariable bindings binding ∧
        result = Keyed.add Binding.cssVariable bindings binding := by
  have found :
      (bindings.find? fun existing => existing.cssVariable = binding.cssVariable) =
        Keyed.lookup Binding.cssVariable bindings binding.cssVariable :=
    rfl
  unfold addBinding Keyed.Accepts Keyed.add
  rw [found]
  cases Keyed.lookup Binding.cssVariable bindings binding.cssVariable with
  | none => simp [eq_comm]
  | some existing =>
      by_cases sameBinding : existing = binding
      · simp [sameBinding, eq_comm]
      · simp [sameBinding]

/-! ## Leaves of one namespace -/

namespace NamespaceState

/-- No custom property is bound twice, and no name occurs twice in the registry. -/
structure IsSound (state : NamespaceState) : Prop where
  bindings : Keyed.Distinct Binding.cssVariable state.compiled.bindings
  registry : state.registry.IsKeyed

/-- The state with what leaves compiled to, where nothing stands against it. -/
def gather (state : NamespaceState) (outputs : List LeafOutput) : NamespaceState :=
  ⟨⟨CompiledNamespace.gatherClasses state.compiled.classes outputs,
    state.compiled.parameters,
    (outputs.flatMap (·.binding.toList)).foldl (Keyed.add Binding.cssVariable)
      state.compiled.bindings⟩,
    (outputs.flatMap LeafOutput.artifacts).foldl Registry.add state.registry,
    state.warnings ++ outputs.flatMap (·.warnings)⟩

theorem gather_nil
    (state : NamespaceState) :
    state.gather [] = state := by
  simp [gather, CompiledNamespace.gatherClasses]

theorem gather_cons
    (state : NamespaceState)
    (output : LeafOutput)
    (rest : List LeafOutput) :
    state.gather (output :: rest) = (state.gather [output]).gather rest := by
  simp [gather, CompiledNamespace.gatherClasses, List.foldl_append]

private theorem gather_singleton
    (state : NamespaceState)
    (output : LeafOutput) :
    state.gather [output] =
      ⟨⟨CompiledNamespace.addClasses output.key output.classNames state.compiled.classes,
        state.compiled.parameters,
        output.binding.toList.foldl (Keyed.add Binding.cssVariable) state.compiled.bindings⟩,
        output.artifacts.foldl Registry.add state.registry, state.warnings ++ output.warnings⟩ := by
  simp [gather, CompiledNamespace.gatherClasses]

private theorem IsSound.gather
    {state : NamespaceState}
    (sound : state.IsSound)
    (outputs : List LeafOutput) :
    (state.gather outputs).IsSound :=
  ⟨sound.bindings.foldl_add _, sound.registry.foldl_add _⟩

/-- A leaf is absorbed exactly where its binding and its artifacts agree with the state. -/
theorem absorb_eq_ok_iff
    {state : NamespaceState}
    (sound : state.IsSound)
    (scope : String)
    (output : LeafOutput)
    (next : NamespaceState) :
    state.absorb scope output = .ok next ↔
      Keyed.Coherent Binding.cssVariable (state.compiled.bindings ++ output.binding.toList) ∧
        Keyed.Coherent Artifact.id (state.registry.artifacts ++ output.artifacts) ∧
        next = state.gather [output] := by
  rw [gather_singleton]
  unfold absorb
  cases output.binding with
  | none =>
      simp only [Success.bind_eq_ok_iff, Registry.insertAll_eq_ok_iff sound.registry,
        Except.ok.injEq, Option.toList_none, List.append_nil, sound.bindings.coherent, true_and]
      constructor
      · rintro ⟨_, rfl, _, ⟨artifactsAgree, rfl⟩, rfl⟩
        exact ⟨artifactsAgree, rfl⟩
      · rintro ⟨artifactsAgree, rfl⟩
        exact ⟨_, rfl, _, ⟨artifactsAgree, rfl⟩, rfl⟩
  | some binding =>
      have addedCoherent := (sound.bindings.add binding).coherent
      simp only [Success.bind_eq_ok_iff, Registry.insertAll_eq_ok_iff sound.registry,
        addBinding_eq_ok_iff, Except.ok.injEq, Option.toList_some,
        sound.bindings.coherent_append_cons_iff, List.append_nil, addedCoherent, and_true]
      constructor
      · rintro ⟨_, ⟨bindingAgrees, rfl⟩, _, ⟨artifactsAgree, rfl⟩, rfl⟩
        exact ⟨bindingAgrees, artifactsAgree, rfl⟩
      · rintro ⟨bindingAgrees, artifactsAgree, rfl⟩
        exact ⟨_, ⟨bindingAgrees, rfl⟩, _, ⟨artifactsAgree, rfl⟩, rfl⟩

theorem foldlM_absorb_eq_ok_iff
    {state : NamespaceState}
    (sound : state.IsSound)
    (scope : String)
    (outputs : List LeafOutput)
    (final : NamespaceState) :
    outputs.foldlM (absorb scope) state = .ok final ↔
      Keyed.Coherent Binding.cssVariable
          (state.compiled.bindings ++ outputs.flatMap (·.binding.toList)) ∧
        Keyed.Coherent Artifact.id
          (state.registry.artifacts ++ outputs.flatMap LeafOutput.artifacts) ∧
        final = state.gather outputs := by
  induction outputs generalizing state with
  | nil =>
      have artifactsCoherent : Keyed.Coherent Artifact.id state.registry.artifacts :=
        Keyed.Distinct.coherent sound.registry
      simp [gather_nil, sound.bindings.coherent, artifactsCoherent, pure, Except.pure, eq_comm]
  | cons output rest inductionHypothesis =>
      -- Coherence of the whole splits into that of the first leaf and that of the rest with what
      -- the first leaf left, so that the hypothesis applies to the state after it.
      have gatheredSound := sound.gather [output]
      have registryDistinct : Keyed.Distinct Artifact.id state.registry.artifacts := sound.registry
      rw [List.foldlM_cons, Success.bind_eq_ok_iff, List.flatMap_cons, List.flatMap_cons,
        sound.bindings.coherent_append_append_iff, registryDistinct.coherent_append_append_iff,
        gather_cons]
      simp only [absorb_eq_ok_iff sound]
      have restBindings :
          (state.gather [output]).compiled.bindings =
            output.binding.toList.foldl (Keyed.add Binding.cssVariable)
              state.compiled.bindings := by
        simp [gather]
      have restArtifacts :
          (state.gather [output]).registry.artifacts =
            output.artifacts.foldl (Keyed.add Artifact.id) state.registry.artifacts := by
        simp [gather, Registry.artifacts_foldl_add]
      rw [← restBindings, ← restArtifacts]
      constructor
      · rintro ⟨_, ⟨bindingsAgree, artifactsAgree, rfl⟩, absorbed⟩
        obtain ⟨bindingsCoherent, artifactsCoherent, finished⟩ :=
          (inductionHypothesis gatheredSound).mp absorbed
        exact ⟨⟨bindingsAgree, bindingsCoherent⟩, ⟨artifactsAgree, artifactsCoherent⟩, finished⟩
      · rintro ⟨⟨bindingsAgree, bindingsCoherent⟩, ⟨artifactsAgree, artifactsCoherent⟩, finished⟩
        exact ⟨_, ⟨bindingsAgree, artifactsAgree, rfl⟩,
          (inductionHypothesis gatheredSound).mpr ⟨bindingsCoherent, artifactsCoherent, finished⟩⟩

end NamespaceState

/-- What leaves compile to, without those that do not compile. -/
def compiledLeaves (options : Options) (scope : String) (parameters : List String)
    (leaves : List Leaf) : List LeafOutput :=
  leaves.filterMap fun leaf => (leaf.compile options scope parameters).toOption

/-- Going from leaf to leaf succeeds exactly where every leaf compiles and all of them can be
gathered. -/
theorem NamespaceState.foldlM_step_eq_ok_iff
    (options : Options)
    (scope : String)
    (parameters : List String)
    (leaves : List Leaf)
    (state final : NamespaceState) :
    leaves.foldlM (step options scope parameters) state = .ok final ↔
      (∀ leaf ∈ leaves, ∃ output, leaf.compile options scope parameters = .ok output) ∧
        (compiledLeaves options scope parameters leaves).foldlM (absorb scope) state =
          .ok final := by
  induction leaves generalizing state with
  | nil => simp [compiledLeaves]
  | cons leaf rest inductionHypothesis =>
      rw [List.foldlM_cons, Success.bind_eq_ok_iff]
      simp only [step, Success.bind_eq_ok_iff, List.forall_mem_cons]
      cases compiled : leaf.compile options scope parameters with
      | error error => simp
      | ok output =>
          have head :
              compiledLeaves options scope parameters (leaf :: rest) =
                output :: compiledLeaves options scope parameters rest := by
            simp [compiledLeaves, compiled, Except.toOption]
          rw [head, List.foldlM_cons, Success.bind_eq_ok_iff]
          simp only [Except.ok.injEq, exists_eq_left', exists_eq', true_and, inductionHypothesis]
          constructor
          · rintro ⟨next, absorbed, restCompiled, finished⟩
            exact ⟨restCompiled, next, absorbed, finished⟩
          · rintro ⟨restCompiled, next, absorbed, finished⟩
            exact ⟨next, absorbed, restCompiled, finished⟩

/-! ## Namespaces of a definition -/

def namespaceOutputs (options : Options) (entry : String × Namespace) : List LeafOutput :=
  match flatten entry.1 entry.2.styles with
  | .ok leaves => compiledLeaves options entry.1 entry.2.parameters leaves
  | .error _ => []

/-- A namespace compiles on its own, apart from its artifacts: it has leaves, each of them
compiles, and no custom property is bound to two parameters. -/
structure NamespaceCompiles (options : Options) (entry : String × Namespace) : Prop where
  leaves : ∃ leaves, flatten entry.1 entry.2.styles = .ok leaves ∧
    ∀ leaf ∈ leaves, ∃ output, leaf.compile options entry.1 entry.2.parameters = .ok output
  bindings : Keyed.Coherent Binding.cssVariable
    ((namespaceOutputs options entry).flatMap (·.binding.toList))

def compiledNamespace (options : Options) (entry : String × Namespace) : CompiledNamespace :=
  (NamespaceState.gather ⟨⟨[], entry.2.parameters, []⟩, Registry.empty, []⟩
    (namespaceOutputs options entry)).compiled

/-- The artifacts of a definition in order, as often as they come up. -/
def definitionArtifacts (options : Options) (definition : Definition) : List Artifact :=
  definition.flatMap fun entry => (namespaceOutputs options entry).flatMap LeafOutput.artifacts

namespace DefinitionState

def gather (options : Options) (state : DefinitionState) (definition : Definition) :
    DefinitionState :=
  ⟨state.styles ++ definition.map fun entry => (entry.1, compiledNamespace options entry),
    (definitionArtifacts options definition).foldl Registry.add state.registry,
    state.warnings ++ definition.flatMap fun entry =>
      (namespaceOutputs options entry).flatMap (·.warnings)⟩

theorem gather_nil
    (options : Options)
    (state : DefinitionState) :
    state.gather options [] = state := by
  simp [gather, definitionArtifacts]

theorem gather_cons
    (options : Options)
    (state : DefinitionState)
    (entry : String × Namespace)
    (rest : Definition) :
    state.gather options (entry :: rest) =
      (state.gather options [entry]).gather options rest := by
  simp [gather, definitionArtifacts, List.foldl_append]

theorem step_eq_ok_iff
    (options : Options)
    {state : DefinitionState}
    (keyed : state.registry.IsKeyed)
    (entry : String × Namespace)
    (next : DefinitionState) :
    step options state entry = .ok next ↔
      NamespaceCompiles options entry ∧
        Keyed.Coherent Artifact.id
          (state.registry.artifacts ++ definitionArtifacts options [entry]) ∧
        next = state.gather options [entry] := by
  have sound :
      NamespaceState.IsSound ⟨⟨[], entry.2.parameters, []⟩, state.registry, state.warnings⟩ :=
    ⟨List.nodup_nil, keyed⟩
  have artifactsOfOne :
      definitionArtifacts options [entry] =
        (namespaceOutputs options entry).flatMap LeafOutput.artifacts := by
    simp [definitionArtifacts]
  simp only [step, Success.bind_eq_ok_iff, NamespaceState.foldlM_step_eq_ok_iff,
    NamespaceState.foldlM_absorb_eq_ok_iff sound, List.nil_append]
  constructor
  · rintro ⟨leaves, flattened, finished,
      ⟨compiled, bindingsCoherent, artifactsCoherent, rfl⟩, equal⟩
    have outputs :
        namespaceOutputs options entry =
          compiledLeaves options entry.1 entry.2.parameters leaves := by
      simp [namespaceOutputs, flattened]
    rw [← outputs] at bindingsCoherent artifactsCoherent equal
    refine ⟨⟨⟨leaves, flattened, compiled⟩, bindingsCoherent⟩, ?_, ?_⟩
    · rw [artifactsOfOne]
      exact artifactsCoherent
    · rw [← Except.ok.inj equal, gather, artifactsOfOne]
      simp [NamespaceState.gather, compiledNamespace]
  · rintro ⟨⟨⟨leaves, flattened, compiled⟩, bindingsCoherent⟩, artifactsCoherent, rfl⟩
    have outputs :
        namespaceOutputs options entry =
          compiledLeaves options entry.1 entry.2.parameters leaves := by
      simp [namespaceOutputs, flattened]
    rw [artifactsOfOne] at artifactsCoherent
    rw [outputs] at bindingsCoherent artifactsCoherent
    refine ⟨leaves, flattened, _, ⟨compiled, bindingsCoherent, artifactsCoherent, rfl⟩, ?_⟩
    rw [← outputs, gather, artifactsOfOne]
    simp [NamespaceState.gather, compiledNamespace]

theorem foldlM_step_eq_ok_iff
    (options : Options)
    {state : DefinitionState}
    (keyed : state.registry.IsKeyed)
    (definition : Definition)
    (final : DefinitionState) :
    definition.foldlM (step options) state = .ok final ↔
      (∀ entry ∈ definition, NamespaceCompiles options entry) ∧
        Keyed.Coherent Artifact.id
          (state.registry.artifacts ++ definitionArtifacts options definition) ∧
        final = state.gather options definition := by
  induction definition generalizing state with
  | nil =>
      have coherent : Keyed.Coherent Artifact.id state.registry.artifacts :=
        Keyed.Distinct.coherent keyed
      simp [gather_nil, definitionArtifacts, coherent, pure, Except.pure, eq_comm]
  | cons entry rest inductionHypothesis =>
      have gatheredKeyed : (state.gather options [entry]).registry.IsKeyed :=
        keyed.foldl_add _
      have restArtifacts :
          (state.gather options [entry]).registry.artifacts =
            (definitionArtifacts options [entry]).foldl (Keyed.add Artifact.id)
              state.registry.artifacts :=
        Registry.artifacts_foldl_add _ _
      have split :
          definitionArtifacts options (entry :: rest) =
            definitionArtifacts options [entry] ++ definitionArtifacts options rest := by
        simp [definitionArtifacts]
      have distinct : Keyed.Distinct Artifact.id state.registry.artifacts := keyed
      rw [List.foldlM_cons, Success.bind_eq_ok_iff, List.forall_mem_cons, split,
        distinct.coherent_append_append_iff, ← restArtifacts,
        gather_cons options state entry rest]
      simp only [step_eq_ok_iff options keyed]
      constructor
      · rintro ⟨_, ⟨compiles, coherent, rfl⟩, finished⟩
        obtain ⟨restCompiles, restCoherent, equal⟩ :=
          (inductionHypothesis gatheredKeyed).mp finished
        exact ⟨⟨compiles, restCompiles⟩, ⟨coherent, restCoherent⟩, equal⟩
      · rintro ⟨⟨compiles, restCompiles⟩, ⟨coherent, restCoherent⟩, equal⟩
        exact ⟨_, ⟨compiles, coherent, rfl⟩,
          (inductionHypothesis gatheredKeyed).mpr ⟨restCompiles, restCoherent, equal⟩⟩

end DefinitionState

/-- A definition compiles exactly where each namespace does and one name stands for one artifact
throughout. Neither condition depends on the order of the namespaces. -/
theorem compileDefinition_eq_ok_iff
    (options : Options)
    (definition : Definition)
    (output : Output) :
    compileDefinition options definition = .ok output ↔
      (∀ entry ∈ definition, NamespaceCompiles options entry) ∧
        Keyed.Coherent Artifact.id (definitionArtifacts options definition) ∧
        output = (DefinitionState.start.gather options definition).output := by
  have keyed : DefinitionState.start.registry.IsKeyed := Registry.isKeyed_empty
  simp only [compileDefinition, Success.bind_eq_ok_iff,
    DefinitionState.foldlM_step_eq_ok_iff options keyed]
  constructor
  · rintro ⟨_, ⟨compiles, coherent, rfl⟩, equal⟩
    exact ⟨compiles, coherent, (Except.ok.inj equal).symm⟩
  · rintro ⟨compiles, coherent, rfl⟩
    exact ⟨_, ⟨compiles, coherent, rfl⟩, rfl⟩

theorem artifacts_gathered
    (options : Options)
    (definition : Definition) :
    (DefinitionState.start.gather options definition).output.artifacts =
      (definitionArtifacts options definition).foldl (Keyed.add Artifact.id) [] :=
  Registry.artifacts_foldl_add _ _

theorem mem_artifacts_compileDefinition_iff
    {options : Options}
    {definition : Definition}
    {output : Output}
    (success : compileDefinition options definition = .ok output)
    (artifact : Artifact) :
    artifact ∈ output.artifacts ↔
      ∃ entry ∈ definition, ∃ leafOutput ∈ namespaceOutputs options entry,
        artifact ∈ leafOutput.artifacts := by
  obtain ⟨-, coherent, rfl⟩ := (compileDefinition_eq_ok_iff options definition output).mp success
  rw [artifacts_gathered, coherent.mem_foldl_add_iff]
  simp only [definitionArtifacts, List.mem_flatMap]

theorem styles_gathered
    (options : Options)
    (definition : Definition) :
    (DefinitionState.start.gather options definition).output.styles =
      definition.map fun entry => (entry.1, compiledNamespace options entry) :=
  rfl

end AtomicCss
