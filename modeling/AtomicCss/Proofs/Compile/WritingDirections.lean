import AtomicCss.Proofs.Compile.References
import AtomicCss.Proofs.Sheet.TurnedText

/-!
Contract: which artifacts of an output have a text of their own for right-to-left pages.

Owns:
- the declarations of leaves, which are in normal form;
- the declarations that each artifact of an output is made of, and what they say of its texts.

Does not own: what the texts look like on a page.
-/

namespace AtomicCss

/-! ## Leaves -/

namespace Leaf

private theorem isNormal_dynamicDeclaration
    (options : Options)
    (leaf : Leaf) :
    (leaf.dynamicDeclaration options).IsNormal options := by
  obtain ⟨values, equal⟩ := leaf.dynamicDeclaration_eq_directed options
  refine ⟨_, values, ?_, equal⟩
  rintro rfl
  have noValues := congrArg Declaration.values equal
  unfold Options.directed dynamicDeclaration at noValues
  split at noValues
  · cases noValues
  · cases noValues

theorem isNormal_of_mem_declarations
    {options : Options}
    {leaf : Leaf}
    {declaration : Declaration}
    (member : declaration ∈ leaf.declarations options) :
    declaration.IsNormal options := by
  have ofKey {key : String} {value : Value}
      (listed : declaration ∈ options.declarationsOf key value) :
      declaration.IsNormal options := by
    unfold Options.declarationsOf at listed
    split at listed
    · rename_i normalized success
      exact Options.exists_directed_of_mem_normalize success listed
    · cases listed
  unfold declarations at member
  split at member
  · cases member
  · obtain rfl := List.mem_singleton.mp member
    exact leaf.isNormal_dynamicDeclaration options
  · split at member
    · exact ofKey member
    · cases member
  · exact ofKey member

end Leaf

/-! ## Artifacts -/

/-- The declarations that a source makes an artifact of: a rule of one, an animation of those of all
its frames. -/
inductive Source.Makes (options : Options) (source : Source) :
    Artifact → List Declaration → Prop
  | rule (entry : String × Namespace) (leaf : Leaf) (isLeaf : source.HasLeaf entry leaf)
      (declaration : Declaration) (declared : declaration ∈ leaf.declarations options) :
      source.Makes options (.rule (declaration.rule options.classPrefix leaf.context))
        [declaration]
  | animation (block : Keyframes) (hasFrames : source.HasFrames block)
      (compiled : CompiledKeyframes) (compiles : compileKeyframes options block = .ok compiled)
      (frames : List NormalFrame) (warnings : List Warning)
      (normal : normalFrames options block = .ok (frames, warnings)) :
      source.Makes options (.keyframes compiled.block) (frames.flatMap (·.declarations))

namespace Source.Makes

variable {options : Options} {source : Source} {artifact : Artifact}
  {declarations : List Declaration}

private theorem isNormal
    (made : source.Makes options artifact declarations) :
    ∀ declaration ∈ declarations, declaration.IsNormal options := by
  intro declaration member
  cases made with
  | rule entry leaf isLeaf only declared =>
      obtain rfl := List.mem_singleton.mp member
      exact Leaf.isNormal_of_mem_declarations declared
  | animation block hasFrames compiled compiles frames warnings normal =>
      obtain ⟨frame, frameMember, declared⟩ := List.mem_flatMap.mp member
      exact isNormal_of_normalFrames normal frame frameMember declaration declared

theorem isSome_rtl_iff
    (made : source.Makes options artifact declarations) :
    artifact.css.rtl.isSome = true ↔
      ∃ declaration ∈ declarations, declaration.directional = true := by
  cases made with
  | rule entry leaf isLeaf only declared =>
      simp [Artifact.css, Declaration.isSome_rtl_rule]
  | animation block hasFrames compiled compiles frames warnings normal =>
      rw [Artifact.css, block_of_compileKeyframes compiles normal,
        isSome_rtl_keyframesRule_iff (isNormal_of_normalFrames normal)]
      simp only [List.mem_flatMap, NormalFrame.Turns]
      constructor
      · rintro ⟨frame, frameMember, declaration, declared, directional⟩
        exact ⟨declaration, ⟨frame, frameMember, declared⟩, directional⟩
      · rintro ⟨declaration, ⟨frame, frameMember, declared⟩, directional⟩
        exact ⟨frame, frameMember, declaration, declared, directional⟩

private theorem rtl_ne_ltr
    (made : source.Makes options artifact declarations)
    {turned : String}
    (found : artifact.css.rtl = some turned) :
    turned ≠ artifact.css.ltr := by
  cases made with
  | rule entry leaf isLeaf only declared =>
      exact (Leaf.isNormal_of_mem_declarations declared).rtl_rule_ne found
  | animation block hasFrames compiled compiles frames warnings normal =>
      rw [Artifact.css, block_of_compileKeyframes compiles normal] at found ⊢
      exact rtl_keyframesRule_ne found

end Source.Makes

theorem mem_artifacts_iff_makes
    {options : Options}
    {source : Source}
    {output : Output}
    (success : compileSource options source = .ok output)
    (artifact : Artifact) :
    artifact ∈ output.artifacts ↔ ∃ declarations, source.Makes options artifact declarations := by
  cases artifact with
  | rule rule =>
      rw [rule_mem_artifacts_iff success]
      obtain ⟨defined, compiled, -⟩ := compileSource_eq_ok success
      obtain ⟨compiles, -⟩ := (compileDefinition_eq_ok_iff _ _ _).mp compiled
      have ofEntry (entry : String × Namespace) (entryMember : entry ∈ source.definition)
          (leaves : List Leaf) (flattened : flatten entry.1 entry.2.styles = .ok leaves) :
          (∃ leafOutput ∈ namespaceOutputs options entry, rule ∈ leafOutput.rules) ↔
            ∃ leaf ∈ leaves, rule ∈ leaf.rules options (leaf.declarations options) := by
        apply (compiles entry entryMember).exists_output_iff flattened
        intro leaf leafOutput yields
        rw [yields.rules]
      constructor
      · rintro ⟨entry, entryMember, yielded⟩
        obtain ⟨leaves, flattened, -⟩ := (compiles entry entryMember).leaves
        obtain ⟨leaf, leafMember, listed⟩ :=
          (ofEntry entry entryMember leaves flattened).mp yielded
        obtain ⟨declaration, declared, rfl⟩ := List.mem_map.mp listed
        exact ⟨_, .rule entry leaf ⟨entryMember, leaves, flattened, leafMember⟩ declaration
          declared⟩
      · rintro ⟨declarations, made⟩
        cases made with
        | rule entry leaf isLeaf declaration declared =>
            obtain ⟨entryMember, leaves, flattened, leafMember⟩ := isLeaf
            refine ⟨entry, entryMember, (ofEntry entry entryMember leaves flattened).mpr ?_⟩
            exact ⟨leaf, leafMember, List.mem_map_of_mem declared⟩
  | keyframes block =>
      rw [keyframes_mem_artifacts_iff success]
      constructor
      · rintro ⟨frames, hasFrames, compiled, compiles, rfl⟩
        obtain ⟨normal, warnings, normalized⟩ := exists_normalFrames_of_compileKeyframes compiles
        exact ⟨_, .animation frames hasFrames compiled compiles normal warnings normalized⟩
      · rintro ⟨declarations, made⟩
        cases made with
        | animation frames hasFrames compiled compiles normal warnings normalized =>
            exact ⟨frames, hasFrames, compiled, compiles, rfl⟩

/-- Whatever the options, an artifact has a text of its own for right-to-left pages exactly if a
declaration that it is made of is directional, and that text is another one. Declarations are
directional exactly if logical properties are wanted and a side was named; mirroring such a
declaration twice leads back to it. -/
theorem rtl_text_iff_directional
    (options : Options)
    (source : Source)
    (output : Output)
    (success : compileSource options source = .ok output) :
    (∀ artifact, artifact ∈ output.artifacts ↔
        ∃ declarations, source.Makes options artifact declarations) ∧
      ∀ artifact declarations, source.Makes options artifact declarations →
        (artifact.css.rtl.isSome = true ↔
            ∃ declaration ∈ declarations, declaration.directional = true) ∧
          (∀ turned, artifact.css.rtl = some turned → turned ≠ artifact.css.ltr) ∧
          ∀ declaration ∈ declarations,
            (∃ property values, values ≠ [] ∧ declaration = options.directed property values ∧
                (declaration.directional = true ↔
                  options.logicalProperties = true ∧ NamesSide property values)) ∧
              (declaration.directional = true →
                ∃ mirrored, declaration.mirrored? = some mirrored ∧
                  mirrored.mirrored? = some declaration ∧
                  mirrored.values.length = declaration.values.length) := by
  refine ⟨mem_artifacts_iff_makes success, ?_⟩
  intro artifact declarations made
  refine ⟨made.isSome_rtl_iff, fun _ found => made.rtl_ne_ltr found, ?_⟩
  intro declaration member
  have normal := made.isNormal declaration member
  constructor
  · obtain ⟨property, values, nonempty, rfl⟩ := normal
    exact ⟨property, values, nonempty, rfl, options.directional_directed_iff property values⟩
  · intro directional
    have turnedBack := (normal.turns directional).reflected_reflected directional
    refine ⟨declaration.reflected, Declaration.mirrored?_eq_some_reflected directional, ?_, ?_⟩
    · rw [Declaration.mirrored?_eq_some_reflected rfl, turnedBack]
    · exact List.length_map _

/-- An offset that is not known yet, a list of values and a frame turn; a margin that was written
along the line and the name of the animation do not. -/
theorem offset_alignment_and_frame_turn :
    let frames : Keyframes := [("to", [("opacity", .text "0"), ("left", .text "0")])]
    let source : Source :=
      ⟨[("box", ⟨["offset"],
        [("left", .dynamic ⟨"offset", none⟩),
          ("textAlign", .chain [.text "center", .text "right"]),
          ("marginInlineStart", .text "1em"), ("animationName", .keyframes frames)]⟩)], []⟩
    let turned : List (Option String) :=
      [some ".x10jtghj\x7binset-inline-end:var(--inset-inline-start,revert)\x7d",
        some ".x1fxwuy1\x7btext-align:center;text-align:start\x7d", none,
        some "@keyframes x1qe5ml3-B\x7bto\x7bopacity:0;inset-inline-end:0;\x7d\x7d", none]
    ∃ output, compileSource Options.default source = .ok output ∧
      output.artifacts.map (·.css.rtl) = turned ∧
      ∀ artifact ∈ output.artifacts, ∃ declarations,
        source.Makes Options.default artifact declarations ∧
          (artifact.css.rtl.isSome = true ↔
            ∃ declaration ∈ declarations, declaration.directional = true) ∧
          ∀ text, artifact.css.rtl = some text → text ≠ artifact.css.ltr := by
  intro frames source turned
  have texts :
      (compileSource Options.default source).map (fun output =>
        output.artifacts.map (·.css.rtl)) = .ok turned := by
    decide +kernel
  obtain ⟨output, success, sameTexts⟩ := Success.map_eq_ok_iff.mp texts
  obtain ⟨made, turning⟩ := rtl_text_iff_directional Options.default source output success
  refine ⟨output, success, sameTexts, ?_⟩
  intro artifact member
  obtain ⟨declarations, makes⟩ := (made artifact).mp member
  obtain ⟨exactly, different, -⟩ := turning artifact declarations makes
  exact ⟨declarations, makes, exactly, different⟩

end AtomicCss
