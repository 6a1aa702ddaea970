import AtomicCss.Compile.Output
import AtomicCss.Sheet.Keyframes
import AtomicCss.Style.Definition
import AtomicCss.Style.Leaf

/-!
Contract: from definitions to artifacts and classes.

Owns:
- the compilation of a leaf, which depends on the leaf alone;
- gathering what leaves compile to, which refuses one name for two bodies and one custom property
  for two parameters;
- the compilation of definitions and sources, on their own and into a registry.

Does not own: the passes themselves, from leaves to rule texts.
-/

namespace AtomicCss

/-- What a leaf compiles to: classes under a key, the rules of these classes, an animation that
the leaf spells out, and the custom property of a dynamic value. -/
structure LeafOutput where
  key : String
  animation : Option KeyframesRule
  rules : List AtomicRule
  binding : Option Binding
  warnings : List Warning
deriving DecidableEq, Repr

namespace LeafOutput

/-- The artifacts of a leaf, its animation first. -/
def artifacts (output : LeafOutput) : List Artifact :=
  output.animation.toList.map .keyframes ++ output.rules.map .rule

def classNames (output : LeafOutput) : List String :=
  output.rules.map (·.className)

end LeafOutput

namespace Leaf

def rules (options : Options) (leaf : Leaf) (declarations : List Declaration) :
    List AtomicRule :=
  declarations.map fun declaration => declaration.rule options.classPrefix leaf.context

def binding (options : Options) (leaf : Leaf) (reference : DynamicReference) : Binding :=
  let resolved := options.resolveProperty leaf.property
  ⟨dynamicVariable resolved.name leaf.context, reference.parameter,
    ⟨Property.numberSuffix resolved.name, reference.fallback.getD options.nullFallback⟩⟩

/-- The declaration of a dynamic leaf, which reads the custom property of its binding. -/
def dynamicDeclaration (options : Options) (leaf : Leaf) : Declaration :=
  let resolved := options.resolveProperty leaf.property
  ⟨resolved.name, ["var(" ++ dynamicVariable resolved.name leaf.context ++ ",revert)"],
    resolved.directional⟩

def compile (options : Options) (scope : String) (parameters : List String) (leaf : Leaf) :
    Except Error LeafOutput :=
  match leaf.value with
  | .null => .ok ⟨leaf.key, none, [], none, []⟩
  | .object _ => .error (.invalidKey scope leaf.key .nestedObject)
  | .keyframes frames => do
    let compiled ← compileKeyframes options frames
    let normalized ← options.normalize leaf.property (.text compiled.block.name)
    .ok ⟨leaf.key, some compiled.block, leaf.rules options normalized.declarations, none,
      compiled.warnings ++ normalized.warnings⟩
  | .dynamic reference =>
    if parameters.contains reference.parameter then
      .ok ⟨leaf.key, none, leaf.rules options [leaf.dynamicDeclaration options],
        some (leaf.binding options reference), (options.resolveProperty leaf.property).warnings⟩
    else .error (.unknownParameter scope reference.parameter)
  | literal => do
    let normalized ← options.normalize leaf.property literal
    .ok ⟨leaf.key, none, leaf.rules options normalized.declarations, none, normalized.warnings⟩

end Leaf

/-- Bindings with one more. A custom property keeps the binding it has, and no other is accepted
for it. -/
def addBinding (scope key : String) (bindings : List Binding) (binding : Binding) :
    Except Error (List Binding) :=
  match bindings.find? fun existing => existing.cssVariable = binding.cssVariable with
  | none => .ok (bindings ++ [binding])
  | some existing =>
    if existing = binding then .ok bindings
    else .error (.invalidKey scope key
      (.boundVariable binding.cssVariable existing.parameter))

/-- The state of a compilation between two leaves of a namespace. -/
structure NamespaceState where
  compiled : CompiledNamespace
  registry : Registry
  warnings : List Warning
deriving DecidableEq, Repr

def NamespaceState.absorb (scope : String) (state : NamespaceState) (output : LeafOutput) :
    Except Error NamespaceState := do
  let bindings ← match output.binding with
    | none => .ok state.compiled.bindings
    | some binding => addBinding scope output.key state.compiled.bindings binding
  let registry ← state.registry.insertAll output.artifacts
  let classes :=
    CompiledNamespace.addClasses output.key output.classNames state.compiled.classes
  .ok ⟨⟨classes, state.compiled.parameters, bindings⟩, registry,
    state.warnings ++ output.warnings⟩

def NamespaceState.step (options : Options) (scope : String) (parameters : List String)
    (state : NamespaceState) (leaf : Leaf) : Except Error NamespaceState := do
  let output ← leaf.compile options scope parameters
  state.absorb scope output

/-- The state of a compilation between two namespaces. -/
structure DefinitionState where
  styles : List (String × CompiledNamespace)
  registry : Registry
  warnings : List Warning
deriving DecidableEq, Repr

namespace DefinitionState

def start : DefinitionState :=
  ⟨[], Registry.empty, []⟩

def step (options : Options) (state : DefinitionState) (entry : String × Namespace) :
    Except Error DefinitionState := do
  let leaves ← flatten entry.1 entry.2.styles
  let finished ← leaves.foldlM (NamespaceState.step options entry.1 entry.2.parameters)
    ⟨⟨[], entry.2.parameters, []⟩, state.registry, state.warnings⟩
  .ok ⟨state.styles ++ [(entry.1, finished.compiled)], finished.registry, finished.warnings⟩

def output (state : DefinitionState) : Output :=
  ⟨state.styles, state.registry.artifacts, state.warnings⟩

end DefinitionState

/-- Compiles a definition on its own. -/
def compileDefinition (options : Options) (definition : Definition) : Except Error Output := do
  let state ← definition.foldlM (DefinitionState.step options) DefinitionState.start
  .ok state.output

def addAnimation (options : Options) (output : Output) (frames : Keyframes) :
    Except Error Output := do
  let compiled ← compileKeyframes options frames
  let (registry, _) ← Registry.insert ⟨output.artifacts⟩ (.keyframes compiled.block)
  .ok ⟨output.styles, registry.artifacts, output.warnings ++ compiled.warnings⟩

/-- Compiles a source on its own: the namespaces of its definition, then its animations. -/
def compileSource (options : Options) (source : Source) : Except Error Output := do
  let output ← compileDefinition options source.definition
  source.keyframes.foldlM (fun sofar entry => addAnimation options sofar entry.2) output

/-- A compiler: settings that are valid. -/
structure Compiler where
  options : Options
  valid : options.IsValid

namespace Compiler

def ofOptions (options : Options) : Except Error Compiler :=
  match checked : options.validate with
  | .ok () => .ok ⟨options, options.validate_eq_ok_iff.1 checked⟩
  | .error error => .error error

def mergeOutput (registry : Registry) (output : Output) : Except Error (Registry × Output) := do
  let (merged, _) ← registry.merge output.artifacts
  .ok (merged, output)

/-- Compiles a definition into a registry, which is extended only if all of it succeeds. -/
def compile (compiler : Compiler) (definition : Definition) (registry : Registry) :
    Except Error (Registry × Output) := do
  let output ← compileDefinition compiler.options definition
  mergeOutput registry output

/-- Compiles a source into a registry, which is extended only if all of it succeeds. -/
def compileInto (compiler : Compiler) (source : Source) (registry : Registry) :
    Except Error (Registry × Output) := do
  let output ← compileSource compiler.options source
  mergeOutput registry output

def compileAnimation (compiler : Compiler) (frames : Keyframes) (registry : Registry) :
    Except Error (Registry × CompiledKeyframes) := do
  let compiled ← compileKeyframes compiler.options frames
  let (extended, _) ← registry.insert (.keyframes compiled.block)
  .ok (extended, compiled)

/-- Merges outputs in order. An output that failed, or that the registry refuses, leaves it as it
is. -/
def mergeEach (registry : Registry) :
    List (Except Error Output) → Registry × List (Except Error Output)
  | [] => (registry, [])
  | result :: rest =>
    match result.bind (mergeOutput registry) with
    | .ok (merged, output) =>
      let (final, results) := mergeEach merged rest
      (final, .ok output :: results)
    | .error error =>
      let (final, results) := mergeEach registry rest
      (final, .error error :: results)

/-- Compiles definitions independently of each other, then merges them in order. -/
def compileParallel (compiler : Compiler) (definitions : List Definition) (registry : Registry) :
    Registry × List (Except Error Output) :=
  mergeEach registry (definitions.map (compileDefinition compiler.options))

end Compiler

end AtomicCss
