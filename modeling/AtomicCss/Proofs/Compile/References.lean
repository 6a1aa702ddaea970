import AtomicCss.Proofs.Compile.Leaves
import AtomicCss.Proofs.Declaration.OwnNames
import AtomicCss.Proofs.Registry.Recompilation
import AtomicCss.Proofs.Sheet.GeneratedNames

/-!
Contract: what the parts of an output say of each other.

Owns:
- the artifacts of a source, from its leaves and its blocks of frames;
- classes under keys and rules among the artifacts name each other;
- a leaf that spells out an animation is compiled to the name of that animation.

Does not own: which contents share a name.
-/

namespace AtomicCss

/-! ## Leaves and blocks of a source -/

def Source.HasLeaf (source : Source) (entry : String × Namespace) (leaf : Leaf) : Prop :=
  entry ∈ source.definition ∧ ∃ leaves, flatten entry.1 entry.2.styles = .ok leaves ∧ leaf ∈ leaves

/-- Frames that a source has, in a leaf or in a block of their own. -/
inductive Source.HasFrames (source : Source) (frames : Keyframes) : Prop
  | inline (entry : String × Namespace) (leaf : Leaf) (isLeaf : source.HasLeaf entry leaf)
      (spelled : leaf.value = .keyframes frames)
  | standalone (name : String) (member : (name, frames) ∈ source.keyframes)

/-! ## Artifacts -/

/-- Animations are added one by one to artifacts that stay, and the namespaces stay as they are. -/
theorem foldlM_addAnimation_eq_ok
    {options : Options}
    {blocks : List (String × Keyframes)}
    {output final : Output}
    (success : blocks.foldlM (fun sofar entry => addAnimation options sofar entry.2) output =
      .ok final) :
    final.styles = output.styles ∧
      ∀ artifact, artifact ∈ final.artifacts ↔
        artifact ∈ output.artifacts ∨
          ∃ block ∈ blocks, ∃ compiled, compileKeyframes options block.2 = .ok compiled ∧
            artifact = .keyframes compiled.block := by
  induction blocks generalizing output with
  | nil =>
      obtain rfl := Except.ok.inj success
      simp
  | cons block rest inductionHypothesis =>
      rw [List.foldlM_cons] at success
      obtain ⟨extended, added, finished⟩ := Success.bind_eq_ok_iff.mp success
      obtain ⟨compiled, animated, accepted, styles, artifacts⟩ := addAnimation_eq_ok added
      obtain ⟨restStyles, restArtifacts⟩ := inductionHypothesis finished
      refine ⟨restStyles.trans styles, ?_⟩
      intro artifact
      rw [restArtifacts, artifacts, Keyed.mem_add_iff accepted, or_assoc]
      simp [animated]

theorem compileSource_eq_ok
    {options : Options}
    {source : Source}
    {output : Output}
    (success : compileSource options source = .ok output) :
    ∃ defined, compileDefinition options source.definition = .ok defined ∧
      output.styles = defined.styles ∧
      ∀ artifact, artifact ∈ output.artifacts ↔
        artifact ∈ defined.artifacts ∨
          ∃ block ∈ source.keyframes, ∃ compiled,
            compileKeyframes options block.2 = .ok compiled ∧
              artifact = .keyframes compiled.block := by
  obtain ⟨defined, compiled, animated⟩ := Success.bind_eq_ok_iff.mp success
  exact ⟨defined, compiled, foldlM_addAnimation_eq_ok animated⟩

section Source

variable {options : Options} {source : Source} {output : Output}

theorem styles_compileSource
    (success : compileSource options source = .ok output) :
    output.styles =
      source.definition.map fun entry => (entry.1, compiledNamespace options entry) := by
  obtain ⟨defined, compiled, sameStyles, -⟩ := compileSource_eq_ok success
  obtain ⟨-, -, rfl⟩ := (compileDefinition_eq_ok_iff options source.definition defined).mp compiled
  rw [sameStyles, styles_gathered]

/-- The rules of a source are those of its leaves. -/
theorem rule_mem_artifacts_iff
    (success : compileSource options source = .ok output)
    (rule : AtomicRule) :
    .rule rule ∈ output.artifacts ↔
      ∃ entry ∈ source.definition, ∃ leafOutput ∈ namespaceOutputs options entry,
        rule ∈ leafOutput.rules := by
  obtain ⟨defined, compiled, -, artifacts⟩ := compileSource_eq_ok success
  simp [artifacts, mem_artifacts_compileDefinition_iff compiled, LeafOutput.artifacts]

theorem exists_animation_iff
    {entry : String × Namespace}
    (compiles : NamespaceCompiles options entry)
    (block : KeyframesRule) :
    (∃ leafOutput ∈ namespaceOutputs options entry, .keyframes block ∈ leafOutput.artifacts) ↔
      ∃ leaves, flatten entry.1 entry.2.styles = .ok leaves ∧
        ∃ leaf ∈ leaves, leaf.animation? options = some block := by
  obtain ⟨leaves, flattened, -⟩ := compiles.leaves
  simp only [flattened, Except.ok.injEq, exists_eq_left']
  apply compiles.exists_output_iff flattened
  intro leaf leafOutput yields
  simp [LeafOutput.artifacts, yields.animation]

/-- The animations of a source are those of its frames. -/
theorem keyframes_mem_artifacts_iff
    (success : compileSource options source = .ok output)
    (block : KeyframesRule) :
    .keyframes block ∈ output.artifacts ↔
      ∃ frames, source.HasFrames frames ∧
        ∃ compiled, compileKeyframes options frames = .ok compiled ∧ compiled.block = block := by
  obtain ⟨defined, definedSuccess, -, artifacts⟩ := compileSource_eq_ok success
  obtain ⟨compiles, -, -⟩ :=
    (compileDefinition_eq_ok_iff options source.definition defined).mp definedSuccess
  rw [artifacts, mem_artifacts_compileDefinition_iff definedSuccess]
  constructor
  · rintro (⟨entry, entryMember, animated⟩ | ⟨named, member, compiled, animated, equal⟩)
    · obtain ⟨leaves, flattened, leaf, leafMember, found⟩ :=
        (exists_animation_iff (compiles entry entryMember) block).mp animated
      obtain ⟨frames, spelled, animation⟩ := (leaf.animation?_eq_some_iff options block).mp found
      exact ⟨frames, .inline entry leaf ⟨entryMember, leaves, flattened, leafMember⟩ spelled,
        animation⟩
    · obtain rfl := Artifact.keyframes.inj equal
      exact ⟨named.2, .standalone named.1 member, compiled, animated, rfl⟩
  · rintro ⟨frames, hasFrames, animation⟩
    cases hasFrames with
    | inline entry leaf isLeaf spelled =>
        obtain ⟨entryMember, leaves, flattened, leafMember⟩ := isLeaf
        have found := (leaf.animation?_eq_some_iff options block).mpr ⟨frames, spelled, animation⟩
        refine .inl ⟨entry, entryMember, ?_⟩
        exact (exists_animation_iff (compiles entry entryMember) block).mpr
          ⟨leaves, flattened, leaf, leafMember, found⟩
    | standalone name member =>
        obtain ⟨compiled, animated, rfl⟩ := animation
        exact .inr ⟨(name, frames), member, compiled, animated, rfl⟩

/-! ## Classes -/

/-- The classes under the keys of all namespaces are the names of the rules. -/
theorem listed_iff_rule
    (success : compileSource options source = .ok output)
    (name : String) :
    (∃ style ∈ output.styles, ∃ listing ∈ style.2.classes, name ∈ listing.2) ↔
      ∃ rule, .rule rule ∈ output.artifacts ∧ rule.className = name := by
  have listings (entry : String × Namespace) :
      (∃ listing ∈ (compiledNamespace options entry).classes, name ∈ listing.2) ↔
        ∃ leafOutput ∈ namespaceOutputs options entry, name ∈ leafOutput.classNames :=
    CompiledNamespace.exists_listing_iff (namespaceOutputs options entry) name
  rw [styles_compileSource success]
  simp only [rule_mem_artifacts_iff success, List.mem_map, exists_exists_and_eq_and, listings,
    LeafOutput.classNames]
  constructor
  · rintro ⟨entry, entryMember, leafOutput, member, rule, ruleMember, named⟩
    exact ⟨rule, ⟨entry, entryMember, leafOutput, member, ruleMember⟩, named⟩
  · rintro ⟨rule, ⟨entry, entryMember, leafOutput, member, ruleMember⟩, named⟩
    exact ⟨entry, entryMember, leafOutput, member, rule, ruleMember, named⟩

end Source

/-! ## Names of animations -/

/-- The name of an animation passes through the normal form unchanged. -/
theorem declarationsOf_animationName
    {options : Options}
    (identifier : isClassPrefix options.classPrefix = true)
    {frames : Keyframes}
    {compiled : CompiledKeyframes}
    (animated : compileKeyframes options frames = .ok compiled)
    {property : String}
    (naming : Property.canonicalName property = "animation-name") :
    options.declarationsOf property (.text compiled.block.name) =
      [⟨"animation-name", [compiled.block.name], false⟩] := by
  have unchanged :
      Wording.canonical "animation-name" compiled.block.name = compiled.block.name :=
    Wording.canonical_of_isClassPrefix (by decide)
      (isClassPrefix_of_compileKeyframes identifier animated)
  have normal :=
    options.normalizeLiteral_of_staysItself Property.staysItself_animationName
      (.text compiled.block.name)
  rw [Literal.canonical, unchanged] at normal
  simp only [Options.declarationsOf, Options.normalize, naming, normal]

/-- A leaf that spells out an animation is compiled to that animation and one rule, whose only value
is its name. -/
theorem Leaf.compile_of_animationName
    {options : Options}
    (identifier : isClassPrefix options.classPrefix = true)
    {scope : String}
    {parameters : List String}
    {leaf : Leaf}
    {leafOutput : LeafOutput}
    (success : leaf.compile options scope parameters = .ok leafOutput)
    {frames : Keyframes}
    (spelled : leaf.value = .keyframes frames)
    (naming : Property.canonicalName leaf.property = "animation-name") :
    ∃ compiled, compileKeyframes options frames = .ok compiled ∧
      leafOutput.rules =
        [Declaration.rule ⟨"animation-name", [compiled.block.name], false⟩ options.classPrefix
          leaf.context] := by
  have yields := yields_of_compile success
  simp only [compile, spelled] at success
  obtain ⟨compiled, animated, -⟩ := Success.bind_eq_ok_iff.mp success
  have animation : leaf.animation? options = some compiled.block :=
    (animation?_eq_some_iff options leaf compiled.block).mpr
      ⟨frames, spelled, compiled, animated, rfl⟩
  refine ⟨compiled, animated, ?_⟩
  have declared :
      leaf.declarations options = [⟨"animation-name", [compiled.block.name], false⟩] := by
    simp only [declarations, spelled, animation]
    exact declarationsOf_animationName identifier animated naming
  rw [yields.rules, declared]
  rfl

/-! ## The output as a whole -/

/-- The parts of an output refer to each other without gaps. -/
structure Output.Resolves (options : Options) (source : Source) (output : Output) : Prop where
  /-- No two artifacts share a name. -/
  distinct : (output.artifacts.map Artifact.id).Nodup
  /-- What is listed under keys is the names of the rules, all of them. -/
  classes : ∀ name,
    (∃ style ∈ output.styles, ∃ listing ∈ style.2.classes, name ∈ listing.2) ↔
      ∃ rule, .rule rule ∈ output.artifacts ∧ Artifact.id (.rule rule) = name
  /-- Nothing is listed twice. -/
  once : ∀ style ∈ output.styles,
    (style.2.classes.map Prod.fst).Nodup ∧ (∀ listing ∈ style.2.classes, listing.2.Nodup) ∧
      style.2.classList.Nodup
  classList : ∀ style ∈ output.styles, ∀ name,
    name ∈ style.2.classList ↔ ∃ listing ∈ style.2.classes, name ∈ listing.2
  /-- Where a leaf spells out an animation, its rule names an animation of the output. -/
  named : ∀ entry leaf frames, source.HasLeaf entry leaf → leaf.value = .keyframes frames →
    Property.canonicalName leaf.property = "animation-name" →
      ∃ compiled leafOutput, compileKeyframes options frames = .ok compiled ∧
        leaf.compile options entry.1 entry.2.parameters = .ok leafOutput ∧
        let rule := Declaration.rule ⟨"animation-name", [compiled.block.name], false⟩
          options.classPrefix leaf.context
        leafOutput.rules = [rule] ∧ .rule rule ∈ output.artifacts ∧
          .keyframes compiled.block ∈ output.artifacts
  /-- The animations are those that the source has frames of. -/
  animations : ∀ block, .keyframes block ∈ output.artifacts ↔
    ∃ frames, source.HasFrames frames ∧
      ∃ compiled, compileKeyframes options frames = .ok compiled ∧ compiled.block = block

/-- Every output of a compiler resolves. -/
theorem compileSource_references_resolve
    (compiler : Compiler)
    (source : Source)
    (output : Output)
    (success : compileSource compiler.options source = .ok output) :
    output.Resolves compiler.options source := by
  have styles := styles_compileSource success
  have animations := keyframes_mem_artifacts_iff success
  refine
    { distinct := distinct_compileSource success
      classes := listed_iff_rule success
      once := ?_
      classList := fun style _ => style.2.mem_classList_iff
      named := ?_
      animations := animations }
  · intro style member
    rw [styles] at member
    obtain ⟨entry, -, rfl⟩ := List.mem_map.mp member
    exact ⟨CompiledNamespace.distinct_gatherClasses _, CompiledNamespace.nodup_listing _,
      nodup_foldl_addName _⟩
  · intro entry leaf frames isLeaf spelled naming
    obtain ⟨entryMember, leaves, flattened, leafMember⟩ := isLeaf
    obtain ⟨defined, compiled, -⟩ := compileSource_eq_ok success
    obtain ⟨compiles, -⟩ := (compileDefinition_eq_ok_iff _ _ _).mp compiled
    obtain ⟨leafOutput, member, leafSuccess⟩ :=
      (compiles entry entryMember).exists_output flattened leafMember
    -- The settings are valid, so that the name of the animation is an identifier.
    obtain ⟨animation, animated, rules⟩ :=
      Leaf.compile_of_animationName compiler.valid.1 leafSuccess spelled naming
    refine ⟨animation, leafOutput, animated, leafSuccess, rules, ?_, ?_⟩
    · rw [rule_mem_artifacts_iff success]
      exact ⟨entry, entryMember, leafOutput, member, rules ▸ List.mem_singleton_self _⟩
    · rw [animations]
      exact ⟨frames, .inline entry leaf ⟨entryMember, leaves, flattened, leafMember⟩ spelled,
        animation, animated, rfl⟩

/-- A rule that two namespaces share, an animation in a leaf and one in a block of its own. -/
theorem shared_rule_and_two_animations_resolve :
    let frames : Keyframes := [("to", [("opacity", .text "0")])]
    let card : Namespace := ⟨[], [("animationName", .keyframes frames), ("color", .text "red")]⟩
    let source : Source :=
      ⟨[("card", card), ("link", ⟨[], [("color", .text "red")]⟩)],
        [("grow", [("from", [("opacity", .text "1")])])]⟩
    let leaf : Leaf := ⟨"animationName", "animationName", Context.empty, .keyframes frames⟩
    let output : Output :=
      ⟨[("card", ⟨[("animationName", ["xsuiv4y"]), ("color", ["x1e2nbdu"])], [], []⟩),
          ("link", ⟨[("color", ["x1e2nbdu"])], [], []⟩)],
        [.keyframes ⟨"x1mi9bte-B", "to\x7bopacity:0;\x7d",
            ⟨"@keyframes x1mi9bte-B\x7bto\x7bopacity:0;\x7d\x7d", none⟩, 1⟩,
          .rule ⟨"xsuiv4y", ⟨".xsuiv4y\x7banimation-name:x1mi9bte-B\x7d", none⟩, 3000⟩,
          .rule ⟨"x1e2nbdu", ⟨".x1e2nbdu\x7bcolor:red\x7d", none⟩, 3000⟩,
          .keyframes ⟨"x5643j1-B", "from\x7bopacity:1;\x7d",
            ⟨"@keyframes x5643j1-B\x7bfrom\x7bopacity:1;\x7d\x7d", none⟩, 1⟩], []⟩
    source.HasLeaf ("card", card) leaf ∧
      Property.canonicalName leaf.property = "animation-name" ∧
      compileSource Options.default source = .ok output ∧
      output.Resolves Options.default source := by
  intro frames card source leaf output
  have isLeaf : source.HasLeaf ("card", card) leaf :=
    ⟨.head _, [leaf, ⟨"color", "color", Context.empty, .text "red"⟩], rfl, .head _⟩
  have success : compileSource Options.default source = .ok output := by decide +kernel
  exact ⟨isLeaf, by decide +kernel, success,
    compileSource_references_resolve ⟨Options.default, by decide⟩ source output success⟩

end AtomicCss
