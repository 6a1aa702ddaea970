import AtomicCss.Proofs.Compile.Leaves
import AtomicCss.Proofs.OrderedMap
import Mathlib.Data.List.Forall2

/-!
Contract: the bindings of a compiled namespace, and the custom properties they set.

Owns:
- bindings come from dynamic leaves, one for each custom property that such a leaf reads;
- arguments reach every dynamic leaf through its own transform.

Does not own: custom properties that the author declares.
-/

namespace AtomicCss

/-! ## Bindings and dynamic leaves -/

theorem Leaf.binding?_eq_some_iff
    (options : Options)
    (leaf : Leaf)
    (binding : Binding) :
    leaf.binding? options = some binding ↔
      ∃ reference, leaf.value = .dynamic reference ∧ leaf.binding options reference = binding := by
  unfold binding?
  cases leaf.value with
  | dynamic reference => simp
  | null | number _ | text _ | chain _ | keyframes _ | object _ => simp

section Namespace

variable {options : Options} {entry : String × Namespace} {leaves : List Leaf}

theorem distinct_bindings
    (options : Options)
    (entry : String × Namespace) :
    Keyed.Distinct Binding.cssVariable (compiledNamespace options entry).bindings :=
  Keyed.distinct_foldl_add _

/-- The bindings of a namespace are those of its dynamic leaves. -/
theorem mem_bindings_iff
    (compiles : NamespaceCompiles options entry)
    (flattened : flatten entry.1 entry.2.styles = .ok leaves)
    (binding : Binding) :
    binding ∈ (compiledNamespace options entry).bindings ↔
      ∃ leaf ∈ leaves, ∃ reference,
        leaf.value = .dynamic reference ∧ leaf.binding options reference = binding := by
  have gathered :
      binding ∈ (compiledNamespace options entry).bindings ↔
        binding ∈ (namespaceOutputs options entry).flatMap (·.binding.toList) :=
    compiles.bindings.mem_foldl_add_iff binding
  simp only [gathered, List.mem_flatMap, Option.mem_toList, ← Leaf.binding?_eq_some_iff]
  apply compiles.exists_output_iff flattened
  intro leaf output yields
  rw [yields.binding]

/-- The custom properties that are bound are those of the dynamic leaves. -/
theorem mem_variables_iff
    (compiles : NamespaceCompiles options entry)
    (flattened : flatten entry.1 entry.2.styles = .ok leaves)
    (name : String) :
    name ∈ (compiledNamespace options entry).bindings.map Binding.cssVariable ↔
      ∃ leaf ∈ leaves, ∃ reference, leaf.value = .dynamic reference ∧
        dynamicVariable (options.resolveProperty leaf.property).name leaf.context = name := by
  simp only [List.mem_map, mem_bindings_iff compiles flattened]
  constructor
  · rintro ⟨_, ⟨leaf, leafMember, reference, isDynamic, rfl⟩, equal⟩
    exact ⟨leaf, leafMember, reference, isDynamic, equal⟩
  · rintro ⟨leaf, leafMember, reference, isDynamic, equal⟩
    exact ⟨_, ⟨leaf, leafMember, reference, isDynamic, rfl⟩, equal⟩

private theorem parameter_mem_of_mem_bindings
    (compiles : NamespaceCompiles options entry)
    (flattened : flatten entry.1 entry.2.styles = .ok leaves)
    {binding : Binding}
    (member : binding ∈ (compiledNamespace options entry).bindings) :
    binding.parameter ∈ entry.2.parameters := by
  obtain ⟨leaf, leafMember, reference, isDynamic, rfl⟩ :=
    (mem_bindings_iff compiles flattened binding).mp member
  obtain ⟨output, -, success⟩ := compiles.exists_output flattened leafMember
  exact (Leaf.yields_of_compile success).declared reference isDynamic

end Namespace

/-! ## Arguments -/

namespace CompiledNamespace

variable {compiled : CompiledNamespace}

def inlineValue (arguments : List (String × Argument)) (binding : Binding) : String :=
  binding.transform.apply ((OrderedMap.get? binding.parameter arguments).getD .null)

/-- Where no custom property is bound twice, none overwrites another. -/
theorem inlineStyles_of_distinct
    (distinct : Keyed.Distinct Binding.cssVariable compiled.bindings)
    (arguments : List (String × Argument)) :
    compiled.inlineStyles arguments =
      compiled.bindings.map fun binding =>
        (binding.cssVariable, inlineValue arguments binding) := by
  apply OrderedMap.ofEntries_of_distinct
  unfold Keyed.Distinct
  rw [List.map_map]
  exact distinct

theorem variables_inlineStyles
    (distinct : Keyed.Distinct Binding.cssVariable compiled.bindings)
    (arguments : List (String × Argument)) :
    (compiled.inlineStyles arguments).map Prod.fst =
      compiled.bindings.map Binding.cssVariable := by
  rw [inlineStyles_of_distinct distinct, List.map_map]
  rfl

private theorem get?_inlineStyles
    (distinct : Keyed.Distinct Binding.cssVariable compiled.bindings)
    (arguments : List (String × Argument))
    {binding : Binding}
    (member : binding ∈ compiled.bindings) :
    OrderedMap.get? binding.cssVariable (compiled.inlineStyles arguments) =
      some (inlineValue arguments binding) := by
  have keysDistinct : Keyed.Distinct Prod.fst (compiled.inlineStyles arguments) := by
    unfold Keyed.Distinct
    rw [variables_inlineStyles distinct]
    exact distinct
  rw [OrderedMap.get?_eq_some_iff keysDistinct, inlineStyles_of_distinct distinct]
  exact List.mem_map_of_mem member

/-- The bindings are complete and unambiguous: each dynamic leaf has its own binding, with its
parameter, the unit of its property and its fallback, and no other binding has the custom property
of this one. Nothing else is bound. -/
structure BindsLeaves (options : Options) (parameters : List String) (leaves : List Leaf)
    (compiled : CompiledNamespace) : Prop where
  distinct : (compiled.bindings.map Binding.cssVariable).Nodup
  declared : ∀ binding ∈ compiled.bindings, binding.parameter ∈ parameters
  bound : ∀ leaf ∈ leaves, ∀ reference, leaf.value = .dynamic reference →
    let name := (options.resolveProperty leaf.property).name
    let own : Binding := ⟨dynamicVariable name leaf.context, reference.parameter,
      ⟨Property.numberSuffix name, reference.fallback.getD options.nullFallback⟩⟩
    own ∈ compiled.bindings ∧
      ∀ binding ∈ compiled.bindings, binding.cssVariable = own.cssVariable → binding = own
  noOthers : ∀ binding ∈ compiled.bindings, ∃ leaf ∈ leaves, ∃ reference,
    leaf.value = .dynamic reference ∧
      binding.cssVariable =
        dynamicVariable (options.resolveProperty leaf.property).name leaf.context

/-- The arguments reach the leaves: what is set is, once each, the custom properties that the
dynamic rules read, and each has the value that the leaf's own transform gives the leaf's own
argument. -/
structure SetsLeaves (options : Options) (entry : String × Namespace) (leaves : List Leaf)
    (artifacts : List Artifact) (compiled : CompiledNamespace)
    (arguments : List (String × Argument)) : Prop where
  distinct : ((compiled.inlineStyles arguments).map Prod.fst).Nodup
  /-- The rules of a dynamic leaf, all of them among the artifacts, are those of the declaration
  that reads its custom property. -/
  rules : ∀ leaf ∈ leaves, ∀ reference, leaf.value = .dynamic reference →
    ∃ output, leaf.compile options entry.1 entry.2.parameters = .ok output ∧
      output.rules = leaf.rules options [leaf.dynamicDeclaration options] ∧
      ∀ rule ∈ output.rules, .rule rule ∈ artifacts
  read : ∀ name, name ∈ (compiled.inlineStyles arguments).map Prod.fst ↔
    ∃ leaf ∈ leaves, ∃ reference, leaf.value = .dynamic reference ∧
      (leaf.dynamicDeclaration options).values = ["var(" ++ name ++ ",revert)"]
  values : ∀ leaf ∈ leaves, ∀ reference, leaf.value = .dynamic reference →
    let name := (options.resolveProperty leaf.property).name
    let transform : ValueTransform :=
      ⟨Property.numberSuffix name, reference.fallback.getD options.nullFallback⟩
    OrderedMap.get? (dynamicVariable name leaf.context) (compiled.inlineStyles arguments) =
      some (transform.apply ((OrderedMap.get? reference.parameter arguments).getD .null))

end CompiledNamespace

section Namespace

variable {options : Options} {entry : String × Namespace} {leaves : List Leaf}

private theorem bindsLeaves_compiledNamespace
    (compiles : NamespaceCompiles options entry)
    (flattened : flatten entry.1 entry.2.styles = .ok leaves) :
    (compiledNamespace options entry).BindsLeaves options entry.2.parameters leaves := by
  have distinct := distinct_bindings options entry
  have members := mem_bindings_iff compiles flattened
  refine ⟨distinct, fun _ => parameter_mem_of_mem_bindings compiles flattened, ?_, ?_⟩
  · intro leaf leafMember reference isDynamic name own
    have present : own ∈ (compiledNamespace options entry).bindings :=
      (members own).mpr ⟨leaf, leafMember, reference, isDynamic, rfl⟩
    refine ⟨present, ?_⟩
    intro binding member sameVariable
    exact distinct.coherent binding member own present sameVariable
  · intro binding member
    obtain ⟨leaf, leafMember, reference, isDynamic, rfl⟩ := (members binding).mp member
    exact ⟨leaf, leafMember, reference, isDynamic, rfl⟩

/-- The custom property that a dynamic rule reads can be told from the value it declares. -/
theorem values_dynamicDeclaration_eq_iff
    (options : Options)
    (leaf : Leaf)
    (name : String) :
    (leaf.dynamicDeclaration options).values = ["var(" ++ name ++ ",revert)"] ↔
      dynamicVariable (options.resolveProperty leaf.property).name leaf.context = name := by
  simp only [Leaf.dynamicDeclaration, List.cons.injEq, and_true, String.append_left_inj,
    String.append_right_inj]

private theorem setsLeaves_compiledNamespace
    (compiles : NamespaceCompiles options entry)
    (flattened : flatten entry.1 entry.2.styles = .ok leaves)
    {artifacts : List Artifact}
    (emitted : ∀ output ∈ namespaceOutputs options entry,
      ∀ artifact ∈ output.artifacts, artifact ∈ artifacts)
    (arguments : List (String × Argument)) :
    (compiledNamespace options entry).SetsLeaves options entry leaves artifacts arguments := by
  have distinct := distinct_bindings options entry
  have members := mem_bindings_iff compiles flattened
  have names := CompiledNamespace.variables_inlineStyles distinct arguments
  refine ⟨names ▸ distinct, ?_, ?_, ?_⟩
  · intro leaf leafMember reference isDynamic
    obtain ⟨output, member, success⟩ := compiles.exists_output flattened leafMember
    have rules := (Leaf.yields_of_compile success).rules
    rw [Leaf.declarations, isDynamic] at rules
    refine ⟨output, success, rules, ?_⟩
    intro rule ruleMember
    exact emitted output member _ (List.mem_append_right _ (List.mem_map_of_mem ruleMember))
  · intro name
    simp only [names, mem_variables_iff compiles flattened, values_dynamicDeclaration_eq_iff]
  · intro leaf leafMember reference isDynamic name transform
    have present : leaf.binding options reference ∈ (compiledNamespace options entry).bindings :=
      (members _).mpr ⟨leaf, leafMember, reference, isDynamic, rfl⟩
    exact CompiledNamespace.get?_inlineStyles distinct arguments present

end Namespace

/-- Dynamic bindings are complete and unambiguous. In every namespace of a definition that compiles,
the dynamic leaves are bound each by its own binding and by no other, and whatever the arguments,
each custom property that a dynamic rule of the output reads is set once, to the leaf's own
value. -/
theorem dynamic_leaves_bound_and_set
    (options : Options)
    (definition : Definition)
    (output : Output)
    (success : compileDefinition options definition = .ok output) :
    List.Forall₂
      (fun entry style => style.1 = entry.1 ∧
        ∃ leaves, flatten entry.1 entry.2.styles = .ok leaves ∧
          style.2.BindsLeaves options entry.2.parameters leaves ∧
          ∀ arguments, style.2.SetsLeaves options entry leaves output.artifacts arguments)
      definition output.styles := by
  have artifacts := mem_artifacts_compileDefinition_iff success
  obtain ⟨compiles, -, rfl⟩ := (compileDefinition_eq_ok_iff options definition output).mp success
  rw [styles_gathered, List.forall₂_map_right_iff, List.forall₂_same]
  intro entry member
  obtain ⟨leaves, flattened, -⟩ := (compiles entry member).leaves
  refine ⟨rfl, leaves, flattened, bindsLeaves_compiledNamespace (compiles entry member) flattened,
    setsLeaves_compiledNamespace (compiles entry member) flattened ?_⟩
  intro leafOutput outputMember artifact artifactMember
  exact (artifacts artifact).mpr ⟨entry, member, leafOutput, outputMember, artifactMember⟩

/-- Two spellings of one property share a binding, and hovering has one of its own, which falls back
to its own default. -/
theorem inset_and_hovered_width_bound :
    let hovered : Leaf :=
      ⟨":hover_width", "width", ⟨[.pseudo ":hover"]⟩, .dynamic ⟨"size", some "auto"⟩⟩
    let styles : StyleMap :=
      [("start", .dynamic ⟨"size", none⟩), ("insetInlineStart", .dynamic ⟨"size", none⟩),
        (":hover", .object [("width", hovered.value)])]
    let compiled : CompiledNamespace :=
      ⟨[("start", ["x11gdy4g"]), ("insetInlineStart", ["x11gdy4g"]), (":hover_width", ["xbi05q"])],
        ["size"],
        [⟨"--inset-inline-start", "size", ⟨"px", "initial"⟩⟩,
          ⟨"--width-1tdxo4z", "size", ⟨"px", "auto"⟩⟩]⟩
    ∃ output,
      compileDefinition Options.default [("card", ⟨["size"], styles⟩)] = .ok output ∧
        output.styles = [("card", compiled)] ∧
        compiled.BindsLeaves Options.default ["size"]
          [⟨"start", "start", Context.empty, .dynamic ⟨"size", none⟩⟩,
            ⟨"insetInlineStart", "insetInlineStart", Context.empty, .dynamic ⟨"size", none⟩⟩,
            hovered] ∧
        OrderedMap.get? "--width-1tdxo4z" (compiled.inlineStyles [("size", .null)]) =
          some "auto" := by
  intro hovered styles compiled
  let output : Output :=
    ⟨[("card", compiled)],
      [.rule ⟨"x11gdy4g",
          ⟨".x11gdy4g\x7binset-inline-start:var(--inset-inline-start,revert)\x7d", none⟩, 3000⟩,
        .rule ⟨"xbi05q", ⟨".xbi05q:hover\x7bwidth:var(--width-1tdxo4z,revert)\x7d", none⟩, 4130⟩],
      []⟩
  have success :
      compileDefinition Options.default [("card", ⟨["size"], styles⟩)] = .ok output := by
    decide +kernel
  have expected :
      flatten "card" styles =
        .ok [⟨"start", "start", Context.empty, .dynamic ⟨"size", none⟩⟩,
          ⟨"insetInlineStart", "insetInlineStart", Context.empty, .dynamic ⟨"size", none⟩⟩,
          hovered] := by
    rfl
  obtain ⟨⟨-, leaves, flattened, binds, sets⟩, -⟩ :=
    List.forall₂_cons.mp (dynamic_leaves_bound_and_set Options.default _ output success)
  obtain rfl := Except.ok.inj (flattened.symm.trans expected)
  have resolved : (Options.default.resolveProperty "width").name = "width" := by decide +kernel
  have variableName : dynamicVariable "width" ⟨[.pseudo ":hover"]⟩ = "--width-1tdxo4z" := by
    decide +kernel
  have set :
      OrderedMap.get?
          (dynamicVariable (Options.default.resolveProperty "width").name ⟨[.pseudo ":hover"]⟩)
          (compiled.inlineStyles [("size", .null)]) =
        some "auto" :=
    (sets [("size", .null)]).values hovered (by simp) _ rfl
  rw [resolved, variableName] at set
  exact ⟨output, success, rfl, binds, set⟩

end AtomicCss
