import AtomicCss.Proofs.Compile.Bindings
import AtomicCss.Proofs.Declaration.OwnNames
import AtomicCss.Proofs.Sheet.GeneratedNames

/-!
Contract: custom properties of dynamic values beside those that the author declares.

Owns:
- which custom properties a leaf declares;
- the exact condition for a namespace to declare a custom property that its bindings set;
- the exact condition for a dynamic rule to read the custom property it declares.

Does not own: what a page makes of a custom property that is set twice.
-/

namespace AtomicCss

open AtomicCss.Property

private theorem isCustom_dynamicVariable
    (property : String)
    (context : Context) :
    isCustom (dynamicVariable property context) = true := by
  unfold isCustom Text.startsWith
  rw [toList_dynamicVariable]
  rfl

/-! ## One leaf -/

namespace Leaf

/-- The properties that the rules of a leaf declare, on pages of either direction. -/
def declaredProperties (options : Options) (leaf : Leaf) : List String :=
  (leaf.declarations options).flatMap Declaration.properties

def readProperty (options : Options) (leaf : Leaf) : String :=
  dynamicVariable (options.resolveProperty leaf.property).name leaf.context

variable {options : Options} {scope : String} {parameters : List String} {leaf : Leaf}
  {output : LeafOutput}

/-- A custom property is the only one that its leaf declares. -/
theorem declaredProperties_of_isCustom
    (success : leaf.compile options scope parameters = .ok output)
    (shown : leaf.value ≠ .null)
    (custom : isCustom (canonicalName leaf.property) = true) :
    leaf.declaredProperties options = [canonicalName leaf.property] := by
  have stays := StaysItself.of_isCustom custom
  rcases declarations_cases success shown with ⟨literal, equal⟩ | ⟨values, equal⟩
  · rw [declaredProperties, equal, options.normalizeLiteral_of_staysItself stays]
    rfl
  · rw [declaredProperties, equal, options.directed_of_staysItself stays]
    rfl

private theorem not_isCustom_of_mem_declaredProperties
    (success : leaf.compile options scope parameters = .ok output)
    (shown : leaf.value ≠ .null)
    (plain : isCustom (canonicalName leaf.property) = false) :
    ∀ name ∈ leaf.declaredProperties options, isCustom name = false := by
  rcases declarations_cases success shown with ⟨literal, equal⟩ | ⟨values, equal⟩
  · rw [declaredProperties, equal]
    exact options.not_isCustom_normalizeLiteral plain literal
  · rw [declaredProperties, equal, List.flatMap_singleton]
    exact options.not_isCustom_directed plain values

/-- The custom properties that a leaf declares: the one it is written for, unless it is null. -/
theorem mem_declaredProperties_iff
    (success : leaf.compile options scope parameters = .ok output)
    {name : String}
    (custom : isCustom name = true) :
    name ∈ leaf.declaredProperties options ↔
      leaf.value ≠ .null ∧ canonicalName leaf.property = name := by
  by_cases shown : leaf.value = .null
  · simp [declaredProperties, declarations, shown]
  · simp only [ne_eq, shown, not_false_eq_true, true_and]
    cases written : isCustom (canonicalName leaf.property) with
    | true =>
        rw [declaredProperties_of_isCustom success shown written, List.mem_singleton, eq_comm]
    | false =>
        constructor
        · intro member
          have plain := not_isCustom_of_mem_declaredProperties success shown written name member
          rw [custom] at plain
          cases plain
        · intro equal
          rw [equal, custom] at written
          cases written

/-- A dynamic rule reads what it declares exactly where it is written, outside of every context, for
a custom property with two dashes in front. -/
theorem readProperty_mem_declaredProperties_iff
    (success : leaf.compile options scope parameters = .ok output)
    {reference : DynamicReference}
    (isDynamic : leaf.value = .dynamic reference) :
    leaf.readProperty options ∈ leaf.declaredProperties options ↔
      leaf.context.segments = [] ∧ leadingDashes (canonicalName leaf.property) = 2 := by
  have custom : isCustom (leaf.readProperty options) = true := isCustom_dynamicVariable _ _
  have shown : leaf.value ≠ .null := by simp [isDynamic]
  have read (written : isCustom (canonicalName leaf.property) = true) :
      leaf.readProperty options = dynamicVariable (canonicalName leaf.property) leaf.context := by
    rw [readProperty, options.resolveProperty_of_staysItself (.of_isCustom written)]
  rw [mem_declaredProperties_iff success custom, ← dynamicVariable_eq_self_iff]
  -- Whichever side holds, the property is custom, and then it is what the variable is made of.
  constructor
  · rintro ⟨-, equal⟩
    rw [← read (equal ▸ custom)]
    exact equal.symm
  · intro equal
    have written : isCustom (canonicalName leaf.property) = true :=
      equal ▸ isCustom_dynamicVariable _ _
    exact ⟨shown, equal.symm.trans (read written).symm⟩

end Leaf

/-! ## Namespaces -/

/-- How the custom properties that a namespace binds stand to the properties that it declares. -/
structure CompiledNamespace.CapturesExactly (options : Options) (entry : String × Namespace)
    (leaves : List Leaf) (compiled : CompiledNamespace) : Prop where
  /-- The rules of the leaves are those of their declarations. -/
  rules : ∀ leaf ∈ leaves, ∃ output,
    leaf.compile options entry.1 entry.2.parameters = .ok output ∧
      output.rules = leaf.rules options (leaf.declarations options)
  /-- What is both bound and declared is read by a dynamic leaf, and another leaf or the same is
  written for it. -/
  captured : ∀ name,
    (name ∈ compiled.bindings.map Binding.cssVariable ∧
        ∃ leaf ∈ leaves, name ∈ leaf.declaredProperties options) ↔
      (∃ reader ∈ leaves, ∃ reference,
          reader.value = .dynamic reference ∧ reader.readProperty options = name) ∧
        ∃ author ∈ leaves, author.value ≠ .null ∧ canonicalName author.property = name
  /-- When a dynamic rule reads what it declares. -/
  cyclic : ∀ leaf ∈ leaves, ∀ reference, leaf.value = .dynamic reference →
    (leaf.readProperty options ∈ leaf.declaredProperties options ↔
      leaf.context.segments = [] ∧ leadingDashes (canonicalName leaf.property) = 2)
  /-- Where no leaf is written for a custom property, nothing is captured. -/
  apart : (∀ leaf ∈ leaves, leaf.value ≠ .null → isCustom (canonicalName leaf.property) = false) →
    ∀ name ∈ compiled.bindings.map Binding.cssVariable,
      ∀ leaf ∈ leaves, name ∉ leaf.declaredProperties options

section Namespace

variable {options : Options} {entry : String × Namespace} {leaves : List Leaf}

theorem exists_declares_iff
    (compiles : NamespaceCompiles options entry)
    (flattened : flatten entry.1 entry.2.styles = .ok leaves)
    {name : String}
    (custom : isCustom name = true) :
    (∃ leaf ∈ leaves, name ∈ leaf.declaredProperties options) ↔
      ∃ author ∈ leaves, author.value ≠ .null ∧ canonicalName author.property = name := by
  apply exists_congr
  intro leaf
  apply and_congr_right
  intro member
  obtain ⟨output, -, success⟩ := compiles.exists_output flattened member
  exact Leaf.mem_declaredProperties_iff success custom

private theorem capturesExactly_compiledNamespace
    (compiles : NamespaceCompiles options entry)
    (flattened : flatten entry.1 entry.2.styles = .ok leaves) :
    (compiledNamespace options entry).CapturesExactly options entry leaves := by
  have bound (name : String) :
      name ∈ (compiledNamespace options entry).bindings.map Binding.cssVariable ↔
        ∃ reader ∈ leaves, ∃ reference,
          reader.value = .dynamic reference ∧ reader.readProperty options = name :=
    mem_variables_iff compiles flattened name
  have customs (name : String)
      (member : name ∈ (compiledNamespace options entry).bindings.map Binding.cssVariable) :
      isCustom name = true := by
    obtain ⟨reader, -, reference, -, rfl⟩ := (bound name).mp member
    exact isCustom_dynamicVariable _ _
  refine ⟨?_, ?_, ?_, ?_⟩
  · intro leaf member
    obtain ⟨output, -, success⟩ := compiles.exists_output flattened member
    exact ⟨output, success, (Leaf.yields_of_compile success).rules⟩
  · intro name
    rw [← bound]
    apply and_congr_right
    intro member
    exact exists_declares_iff compiles flattened (customs name member)
  · intro leaf member reference isDynamic
    obtain ⟨output, -, success⟩ := compiles.exists_output flattened member
    exact Leaf.readProperty_mem_declaredProperties_iff success isDynamic
  · intro plain name variableMember leaf member declared
    obtain ⟨author, authorMember, shown, equal⟩ :=
      (exists_declares_iff compiles flattened (customs name variableMember)).mp
        ⟨leaf, member, declared⟩
    have isPlain := plain author authorMember shown
    rw [equal, customs name variableMember] at isPlain
    cases isPlain

end Namespace

/-- Dynamic values keep apart from ordinary properties only. In every namespace that compiles, a
custom property is bound and declared as well exactly where a dynamic leaf reads it and a leaf is
written for it, and a dynamic rule reads what it declares exactly where it is written for a custom
property with two dashes in front, outside of every context. -/
theorem variable_declared_iff_authored
    (options : Options)
    (definition : Definition)
    (output : Output)
    (success : compileDefinition options definition = .ok output) :
    List.Forall₂
      (fun entry style => style.1 = entry.1 ∧
        ∃ leaves, flatten entry.1 entry.2.styles = .ok leaves ∧
          style.2.CapturesExactly options entry leaves)
      definition output.styles := by
  obtain ⟨compiles, -, rfl⟩ := (compileDefinition_eq_ok_iff options definition output).mp success
  rw [styles_gathered, List.forall₂_map_right_iff, List.forall₂_same]
  intro entry member
  obtain ⟨leaves, flattened, -⟩ := (compiles entry member).leaves
  have captures := capturesExactly_compiledNamespace (compiles entry member) flattened
  exact ⟨rfl, leaves, flattened, captures⟩

/-- A custom property that is dynamic reads itself, and a dynamic color takes the place of the
custom property `--color` that stands beside it. -/
theorem tint_reads_itself_and_color_is_captured :
    let tint : Leaf := ⟨"--tint", "--tint", Context.empty, .dynamic ⟨"tint", none⟩⟩
    let kept : Leaf := ⟨"--color", "--color", Context.empty, .text "red"⟩
    let color : Leaf := ⟨"color", "color", Context.empty, .dynamic ⟨"shade", none⟩⟩
    let definition : Definition :=
      [("tinted", ⟨["tint"], [("--tint", tint.value)]⟩),
        ("shaded", ⟨["shade"], [("--color", kept.value), ("color", color.value)]⟩)]
    let tinted : CompiledNamespace :=
      ⟨[("--tint", ["x10w0id1"])], ["tint"], [⟨"--tint", "tint", ⟨"", "initial"⟩⟩]⟩
    let shaded : CompiledNamespace :=
      ⟨[("--color", ["x71dttp"]), ("color", ["x19dipnz"])], ["shade"],
        [⟨"--color", "shade", ⟨"px", "initial"⟩⟩]⟩
    let output : Output :=
      ⟨[("tinted", tinted), ("shaded", shaded)],
        [.rule ⟨"x10w0id1", ⟨".x10w0id1\x7b--tint:var(--tint,revert)\x7d", none⟩, 1⟩,
          .rule ⟨"x71dttp", ⟨".x71dttp\x7b--color:red\x7d", none⟩, 1⟩,
          .rule ⟨"x19dipnz", ⟨".x19dipnz\x7bcolor:var(--color,revert)\x7d", none⟩, 3000⟩], []⟩
    compileDefinition Options.default definition = .ok output ∧
      tint.readProperty Options.default ∈ tint.declaredProperties Options.default ∧
      "--color" ∈ shaded.bindings.map Binding.cssVariable ∧
      ∃ leaf ∈ [kept, color], "--color" ∈ leaf.declaredProperties Options.default := by
  intro tint kept color definition tinted shaded output
  have success : compileDefinition Options.default definition = .ok output := by decide +kernel
  obtain ⟨⟨-, tintedLeaves, tintedFlattened, tintedCaptures⟩, others⟩ :=
    List.forall₂_cons.mp (variable_declared_iff_authored Options.default definition output success)
  obtain ⟨⟨-, shadedLeaves, shadedFlattened, shadedCaptures⟩, -⟩ := List.forall₂_cons.mp others
  have expectedTinted : flatten "tinted" [("--tint", tint.value)] = .ok [tint] := by rfl
  have expectedShaded :
      flatten "shaded" [("--color", kept.value), ("color", color.value)] = .ok [kept, color] := by
    rfl
  obtain rfl := Except.ok.inj (tintedFlattened.symm.trans expectedTinted)
  obtain rfl := Except.ok.inj (shadedFlattened.symm.trans expectedShaded)
  have twoDashes : leadingDashes (canonicalName tint.property) = 2 := by decide +kernel
  have colorRead : color.readProperty Options.default = "--color" := by decide +kernel
  have keptName : canonicalName kept.property = "--color" := by decide +kernel
  refine ⟨success, (tintedCaptures.cyclic tint (.head _) _ rfl).mpr ⟨rfl, twoDashes⟩, ?_⟩
  exact (shadedCaptures.captured "--color").mpr
    ⟨⟨color, .tail _ (.head _), _, rfl, colorRead⟩, kept, .head _, by simp [kept], keptName⟩

end AtomicCss
