import AtomicCss.Proofs.Compile.Gathering
import AtomicCss.Proofs.Declaration.Normalization

/-!
Contract: what the leaves of a namespace compile to, told from the leaves themselves.

Owns:
- the declarations, the animation and the binding of a leaf;
- the one statement of what a leaf that compiles yields;
- declarations of leaves are directed, those of dynamic ones too;
- the leaves behind the rules, animations and bindings of a namespace that compiles.

Does not own: the spelling of the declarations.
-/

namespace AtomicCss

/-! ## One leaf -/

/-- The declarations of a key, and none where it has no normal form. -/
def Options.declarationsOf (options : Options) (key : String) (value : Value) :
    List Declaration :=
  match options.normalize key value with
  | .ok normalized => normalized.declarations
  | .error _ => []

namespace Leaf

def animation? (options : Options) (leaf : Leaf) : Option KeyframesRule :=
  match leaf.value with
  | .keyframes frames => (compileKeyframes options frames).toOption.map (·.block)
  | _ => none

theorem animation?_eq_some_iff
    (options : Options)
    (leaf : Leaf)
    (block : KeyframesRule) :
    leaf.animation? options = some block ↔
      ∃ frames, leaf.value = .keyframes frames ∧
        ∃ compiled, compileKeyframes options frames = .ok compiled ∧ compiled.block = block := by
  unfold animation?
  cases leaf.value with
  | keyframes frames =>
      cases animated : compileKeyframes options frames with
      | error error => simp [animated, Except.toOption]
      | ok compiled => simp [animated, Except.toOption]
  | null | number _ | text _ | chain _ | dynamic _ | object _ => simp

def binding? (options : Options) (leaf : Leaf) : Option Binding :=
  match leaf.value with
  | .dynamic reference => some (leaf.binding options reference)
  | _ => none

/-- The declarations of a leaf: none for null, and for an animation those of its name. -/
def declarations (options : Options) (leaf : Leaf) : List Declaration :=
  match leaf.value with
  | .null => []
  | .dynamic _ => [leaf.dynamicDeclaration options]
  | .keyframes _ =>
    match leaf.animation? options with
    | some block => options.declarationsOf leaf.property (.text block.name)
    | none => []
  | literal => options.declarationsOf leaf.property literal

/-- An output that has just what the leaf calls for. -/
structure Yields (options : Options) (parameters : List String) (leaf : Leaf)
    (output : LeafOutput) : Prop where
  key : output.key = leaf.key
  animation : output.animation = leaf.animation? options
  rules : output.rules = leaf.rules options (leaf.declarations options)
  binding : output.binding = leaf.binding? options
  declared : ∀ reference, leaf.value = .dynamic reference → reference.parameter ∈ parameters

theorem yields_of_compile
    {options : Options}
    {scope : String}
    {parameters : List String}
    {leaf : Leaf}
    {output : LeafOutput}
    (success : leaf.compile options scope parameters = .ok output) :
    leaf.Yields options parameters output := by
  obtain ⟨key, property, context, value⟩ := leaf
  unfold compile at success
  cases value with
  | null =>
      obtain rfl := Except.ok.inj success
      exact ⟨rfl, rfl, rfl, rfl, by simp⟩
  | object entries => cases success
  | keyframes frames =>
      obtain ⟨compiled, animated, naming⟩ := Success.bind_eq_ok_iff.mp success
      obtain ⟨normalized, named, equal⟩ := Success.bind_eq_ok_iff.mp naming
      obtain rfl := Except.ok.inj equal
      have spelled :
          animation? options ⟨key, property, context, .keyframes frames⟩ = some compiled.block := by
        simp [animation?, animated, Except.toOption]
      refine ⟨rfl, spelled.symm, ?_, rfl, by simp⟩
      simp only [declarations, spelled, Options.declarationsOf, named]
  | dynamic reference =>
      by_cases declared : parameters.contains reference.parameter = true
      · simp only [declared, if_true] at success
        obtain rfl := Except.ok.inj success
        refine ⟨rfl, rfl, rfl, rfl, ?_⟩
        rintro other equal
        obtain rfl := Value.dynamic.inj equal
        exact List.contains_iff_mem.mp declared
      · simp only [declared] at success
        cases success
  | number _ | text _ | chain _ =>
      obtain ⟨normalized, named, equal⟩ := Success.bind_eq_ok_iff.mp success
      obtain rfl := Except.ok.inj equal
      refine ⟨rfl, rfl, ?_, rfl, by simp⟩
      simp only [declarations, Options.declarationsOf, named]

/-- A value that reads a custom property is no keyword, so that a dynamic leaf is declared like any
other. -/
theorem dynamicDeclaration_eq_directed
    (options : Options)
    (leaf : Leaf) :
    ∃ values, leaf.dynamicDeclaration options =
      options.directed (Property.canonicalName leaf.property) values := by
  have notKeyword (name rest : String) :
      options.logicalKeyword? name ("var(" ++ rest) = none := by
    have unlike (other : String) (different : other.toList.head? ≠ some 'v') :
        "var(" ++ rest ≠ other := by
      intro equal
      apply different
      rw [← equal, String.toList_append]
      rfl
    simp [Options.logicalKeyword?, Property.logicalKeyword?, unlike "left" (by decide),
      unlike "right" (by decide)]
  refine ⟨(leaf.dynamicDeclaration options).values, ?_⟩
  cases found : options.logical? (Property.canonicalName leaf.property) with
  | some logical => simp [dynamicDeclaration, Options.resolveProperty, Options.directed, found]
  | none =>
      simp [dynamicDeclaration, Options.resolveProperty, Options.directed, found,
        String.append_assoc, notKeyword]

/-- A leaf that compiles has no declarations where it is null, and else those of a literal or the
one of a list of values. -/
theorem declarations_cases
    {options : Options}
    {scope : String}
    {parameters : List String}
    {leaf : Leaf}
    {output : LeafOutput}
    (success : leaf.compile options scope parameters = .ok output)
    (shown : leaf.value ≠ .null) :
    (∃ literal, leaf.declarations options =
        (options.normalizeLiteral (Property.canonicalName leaf.property) literal).declarations) ∨
      ∃ values, leaf.declarations options =
        [options.directed (Property.canonicalName leaf.property) values] := by
  have ofNormal {value : Value} {normalized : Normalized}
      (normal : options.normalize leaf.property value = .ok normalized) :
      (∃ literal, options.declarationsOf leaf.property value =
          (options.normalizeLiteral (Property.canonicalName leaf.property) literal).declarations) ∨
        ∃ values, options.declarationsOf leaf.property value =
          [options.directed (Property.canonicalName leaf.property) values] := by
    simp only [Options.declarationsOf, normal]
    rcases Options.declarations_cases normal with ⟨literal, -, equal⟩ | ⟨values, -, equal⟩
    · exact .inl ⟨literal, equal⟩
    · exact .inr ⟨values, equal⟩
  -- All values but dynamic ones go through the normal form, an animation by its name.
  unfold compile at success
  unfold declarations
  cases found : leaf.value with
  | null => exact absurd found shown
  | object entries =>
      rw [found] at success
      cases success
  | dynamic reference =>
      obtain ⟨values, equal⟩ := leaf.dynamicDeclaration_eq_directed options
      exact .inr ⟨values, by rw [equal]⟩
  | keyframes frames =>
      rw [found] at success
      obtain ⟨compiled, animated, naming⟩ := Success.bind_eq_ok_iff.mp success
      obtain ⟨normalized, normal, -⟩ := Success.bind_eq_ok_iff.mp naming
      have spelled : leaf.animation? options = some compiled.block :=
        (animation?_eq_some_iff options leaf compiled.block).mpr
          ⟨frames, found, compiled, animated, rfl⟩
      simp only [spelled]
      exact ofNormal normal
  | number _ | text _ | chain _ =>
      rw [found] at success
      obtain ⟨normalized, normal, -⟩ := Success.bind_eq_ok_iff.mp success
      exact ofNormal normal

end Leaf

/-! ## The leaves of a namespace -/

theorem mem_compiledLeaves_iff
    (options : Options)
    (scope : String)
    (parameters : List String)
    (leaves : List Leaf)
    (output : LeafOutput) :
    output ∈ compiledLeaves options scope parameters leaves ↔
      ∃ leaf ∈ leaves, leaf.compile options scope parameters = .ok output := by
  unfold compiledLeaves
  rw [List.mem_filterMap]
  apply exists_congr
  intro leaf
  apply and_congr_right
  intro _
  cases leaf.compile options scope parameters with
  | error error => simp [Except.toOption]
  | ok compiled => simp [Except.toOption]

namespace NamespaceCompiles

variable {options : Options} {entry : String × Namespace} {leaves : List Leaf}

/-- Every leaf of a namespace that compiles has an output. -/
theorem exists_output
    (compiles : NamespaceCompiles options entry)
    (flattened : flatten entry.1 entry.2.styles = .ok leaves)
    {leaf : Leaf}
    (member : leaf ∈ leaves) :
    ∃ output ∈ namespaceOutputs options entry,
      leaf.compile options entry.1 entry.2.parameters = .ok output := by
  obtain ⟨others, sameFlattened, compiled⟩ := compiles.leaves
  obtain rfl : leaves = others := Except.ok.inj (flattened.symm.trans sameFlattened)
  obtain ⟨output, success⟩ := compiled leaf member
  refine ⟨output, ?_, success⟩
  simp only [namespaceOutputs, flattened]
  exact (mem_compiledLeaves_iff options entry.1 entry.2.parameters leaves output).mpr
    ⟨leaf, member, success⟩

end NamespaceCompiles

private theorem exists_leaf_of_mem_namespaceOutputs
    {options : Options}
    {entry : String × Namespace}
    {leaves : List Leaf}
    (flattened : flatten entry.1 entry.2.styles = .ok leaves)
    {output : LeafOutput}
    (member : output ∈ namespaceOutputs options entry) :
    ∃ leaf ∈ leaves, leaf.compile options entry.1 entry.2.parameters = .ok output := by
  simp only [namespaceOutputs, flattened] at member
  exact (mem_compiledLeaves_iff options entry.1 entry.2.parameters leaves output).mp member

/-- What is yielded somewhere in a namespace is what some leaf calls for. -/
theorem NamespaceCompiles.exists_output_iff
    {options : Options}
    {entry : String × Namespace}
    {leaves : List Leaf}
    (compiles : NamespaceCompiles options entry)
    (flattened : flatten entry.1 entry.2.styles = .ok leaves)
    {yielded : LeafOutput → Prop}
    {called : Leaf → Prop}
    (agree : ∀ leaf output, leaf.Yields options entry.2.parameters output →
      (yielded output ↔ called leaf)) :
    (∃ output ∈ namespaceOutputs options entry, yielded output) ↔ ∃ leaf ∈ leaves, called leaf := by
  constructor
  · rintro ⟨output, member, here⟩
    obtain ⟨leaf, leafMember, success⟩ := exists_leaf_of_mem_namespaceOutputs flattened member
    exact ⟨leaf, leafMember, (agree leaf output (Leaf.yields_of_compile success)).mp here⟩
  · rintro ⟨leaf, leafMember, here⟩
    obtain ⟨output, member, success⟩ := compiles.exists_output flattened leafMember
    exact ⟨output, member, (agree leaf output (Leaf.yields_of_compile success)).mpr here⟩

end AtomicCss
