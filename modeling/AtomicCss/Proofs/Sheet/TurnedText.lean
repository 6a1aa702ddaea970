import AtomicCss.Proofs.Declaration.Turning
import AtomicCss.Proofs.Sheet.ContentAddress
import AtomicCss.Proofs.Sheet.KeyframesAddress

/-!
Contract: rules and animations with a text of their own for right-to-left pages.

Owns:
- the rules of declarations in normal form, in both writing directions;
- the declarations of frames, which are in normal form;
- the texts of frames and animations in both writing directions.

Does not own: the leaves and blocks that rules and animations come from.
-/

namespace AtomicCss

/-! ## Rules -/

private theorem Context.wrap_inj
    {context : Context}
    {first second : String}
    (equal : context.wrap first = context.wrap second) :
    first = second := by
  unfold wrap at equal
  generalize Text.sortStrings context.atRules = atRules at equal
  induction atRules with
  | nil => exact equal
  | cons atRule rest inductionHypothesis =>
      rw [List.foldr_cons, List.foldr_cons, String.append_left_inj,
        String.append_right_inj] at equal
      exact inductionHypothesis equal

namespace Declaration

theorem css_eq_of_ruleText_eq
    {first second : Declaration}
    {name : String}
    {context : Context}
    (equal : first.ruleText name context = second.ruleText name context) :
    first.css = second.css := by
  have sameRule := Context.wrap_inj equal
  rw [String.append_left_inj, String.append_right_inj] at sameRule
  exact sameRule

theorem isSome_rtl_rule
    (declaration : Declaration)
    (start : String)
    (context : Context) :
    (declaration.rule start context).css.rtl.isSome = declaration.directional := by
  rw [← declaration.isSome_mirrored?]
  exact Option.isSome_map

/-- A rule with a text for right-to-left pages has another one there. -/
theorem IsNormal.rtl_rule_ne
    {options : Options}
    {declaration : Declaration}
    (normal : declaration.IsNormal options)
    {start : String}
    {context : Context}
    {turned : String}
    (found : (declaration.rule start context).css.rtl = some turned) :
    turned ≠ (declaration.rule start context).css.ltr := by
  have directional : declaration.directional = true := by
    rw [← declaration.isSome_rtl_rule start context, found, Option.isSome_some]
  simp only [rule, ruleCss, mirrored?_eq_some_reflected directional, Option.map_some,
    Option.some.injEq] at found
  rw [← found]
  intro equal
  have sameCss := css_eq_of_ruleText_eq equal
  apply ((normal.turns directional).apart_css normal.values_ne_nil).ne
  rw [sameCss]

end Declaration

/-! ## Frames in normal form -/

/-- A key of a frame is null or goes through the normal form. -/
theorem normalize_of_frameEntry
    {options : Options}
    {key : String}
    {value : Value}
    {normalized : Normalized}
    (success : frameEntry options key value = .ok normalized) :
    normalized.declarations = [] ∨ options.normalize key value = .ok normalized := by
  unfold frameEntry at success
  cases kind : KeyKind.ofKey key with
  | pseudo | atRule =>
      rw [kind] at success
      cases success
  | property | default =>
      rw [kind] at success
      cases value with
      | null =>
          rw [← Except.ok.inj success]
          exact .inl rfl
      | object _ | dynamic _ | keyframes _ => cases success
      | number _ | text _ | chain _ => exact .inr success

private theorem isNormal_of_mem_frameDeclarations
    {options : Options}
    {styles : StyleMap}
    {normalized : Normalized}
    (success : frameDeclarations options styles = .ok normalized) :
    ∀ declaration ∈ normalized.declarations, declaration.IsNormal options := by
  induction styles generalizing normalized with
  | nil =>
      obtain rfl := Except.ok.inj success
      intro declaration member
      cases member
  | cons entry rest inductionHypothesis =>
      obtain ⟨here, entered, continuing⟩ := Success.bind_eq_ok_iff.mp success
      obtain ⟨others, restSuccess, finished⟩ := Success.bind_eq_ok_iff.mp continuing
      obtain rfl := Except.ok.inj finished
      intro declaration member
      rcases List.mem_append.mp member with inEntry | inRest
      · rcases normalize_of_frameEntry entered with none | normal
        · rw [none] at inEntry
          cases inEntry
        · exact Options.exists_directed_of_mem_normalize normal inEntry
      · exact inductionHypothesis restSuccess declaration inRest

theorem isNormal_of_normalFrames
    {options : Options}
    {block : Keyframes}
    {frames : List NormalFrame}
    {warnings : List Warning}
    (success : normalFrames options block = .ok (frames, warnings)) :
    ∀ frame ∈ frames, ∀ declaration ∈ frame.declarations, declaration.IsNormal options := by
  induction block generalizing frames warnings with
  | nil =>
      obtain ⟨rfl, -⟩ := Prod.mk.inj (Except.ok.inj success)
      intro frame member
      cases member
  | cons entry rest inductionHypothesis =>
      obtain ⟨written, -, normalizing⟩ := Success.bind_eq_ok_iff.mp success
      obtain ⟨normalized, declared, continuing⟩ := Success.bind_eq_ok_iff.mp normalizing
      obtain ⟨⟨others, otherWarnings⟩, otherNormal, finished⟩ :=
        Success.bind_eq_ok_iff.mp continuing
      obtain ⟨rfl, -⟩ := Prod.mk.inj (Except.ok.inj finished)
      intro frame member
      rcases List.mem_cons.mp member with rfl | later
      · exact isNormal_of_mem_frameDeclarations declared
      · exact inductionHypothesis otherNormal frame later

/-! ## Frames and animations in both writing directions -/

private theorem frameText_eq_concat_css
    (label : String)
    {declarations : List Declaration}
    (valued : ∀ declaration ∈ declarations, declaration.values ≠ []) :
    frameText label declarations =
      label ++ "\x7b" ++
        Text.concat (declarations.map fun declaration => declaration.css ++ ";") ++ "\x7d" := by
  unfold frameText
  rw [String.append_left_inj, String.append_right_inj]
  induction declarations with
  | nil => rfl
  | cons declaration rest inductionHypothesis =>
      obtain ⟨nonempty, restValued⟩ := List.forall_mem_cons.mp valued
      rw [List.flatMap_cons, Text.concat_append, inductionHypothesis restValued, List.map_cons,
        Text.concat_cons, Declaration.css_append_semicolon nonempty]
      rfl

namespace NormalFrame

def Turns (frame : NormalFrame) : Prop :=
  ∃ declaration ∈ frame.declarations, declaration.directional = true

private theorem text_rtl_of_not_turns
    {frame : NormalFrame}
    (undirected : ¬ frame.Turns) :
    frame.text .rtl = frame.text .ltr := by
  have kept : frame.declarations.map (·.toward .rtl) = frame.declarations.map id := by
    apply List.map_congr_left
    intro declaration member
    apply Declaration.toward_rtl_of_not_directional
    intro directional
    exact undirected ⟨declaration, member, directional⟩
  rw [List.map_id] at kept
  exact congrArg (frameText frame.label) kept

private theorem apart_text
    {options : Options}
    {frame : NormalFrame}
    (normal : ∀ declaration ∈ frame.declarations, declaration.IsNormal options)
    (turns : frame.Turns) :
    Text.Apart (frame.text .ltr) (frame.text .rtl) := by
  have turnedValued :
      ∀ declaration ∈ frame.declarations.map (·.toward .rtl), declaration.values ≠ [] := by
    intro turned member
    obtain ⟨declaration, declared, rfl⟩ := List.mem_map.mp member
    have nonempty := (normal declaration declared).values_ne_nil
    by_cases directional : declaration.directional = true
    · rw [Declaration.toward_rtl_of_directional directional]
      simpa [Declaration.reflected] using nonempty
    · rw [Declaration.toward_rtl_of_not_directional directional]
      exact nonempty
  have ltrText : frame.text .ltr = _ :=
    frameText_eq_concat_css frame.label fun declaration declared =>
      (normal declaration declared).values_ne_nil
  have rtlText : frame.text .rtl = _ := frameText_eq_concat_css frame.label turnedValued
  have apartBodies :
      Text.Apart
        (Text.concat (frame.declarations.map fun declaration => declaration.css ++ ";"))
        (Text.concat
          (frame.declarations.map fun declaration => (declaration.toward .rtl).css ++ ";")) := by
    refine Text.apart_concat_map ?_ ?_ turns
    · intro declaration _ undirected
      rw [Declaration.toward_rtl_of_not_directional undirected]
    · intro declaration declared directional
      rw [Declaration.toward_rtl_of_directional directional]
      exact ((normal declaration declared).turns directional).apart_css
        (normal declaration declared).values_ne_nil
  rw [ltrText, rtlText, List.map_map]
  exact (apartBodies.after _).append _ _

end NormalFrame

/-- The frames have two texts exactly if a line of one of them depends on the writing direction. -/
theorem framesText_rtl_eq_ltr_iff
    {options : Options}
    {frames : List NormalFrame}
    (normal : ∀ frame ∈ frames, ∀ declaration ∈ frame.declarations, declaration.IsNormal options) :
    framesText frames .rtl = framesText frames .ltr ↔ ¬ ∃ frame ∈ frames, frame.Turns := by
  constructor
  · intro equal turning
    have apart :
        Text.Apart (framesText frames .ltr) (framesText frames .rtl) :=
      Text.apart_concat_map
        (fun frame _ undirected => (NormalFrame.text_rtl_of_not_turns undirected).symm)
        (fun frame member turns => NormalFrame.apart_text (normal frame member) turns)
        turning
    exact apart.ne equal.symm
  · intro undirected
    unfold framesText
    congr 1
    apply List.map_congr_left
    intro frame member
    apply NormalFrame.text_rtl_of_not_turns
    intro turns
    exact undirected ⟨frame, member, turns⟩

theorem isSome_rtl_keyframesRule_iff
    {options : Options}
    {frames : List NormalFrame}
    (normal : ∀ frame ∈ frames, ∀ declaration ∈ frame.declarations, declaration.IsNormal options)
    (start : String) :
    (keyframesRule start frames).css.rtl.isSome = true ↔ ∃ frame ∈ frames, frame.Turns := by
  rw [css_keyframesRule]
  dsimp only
  split
  · rename_i equal
    have undirected := (framesText_rtl_eq_ltr_iff normal).mp equal
    simpa using undirected
  · rename_i different
    have turning := not_not.mp (mt (framesText_rtl_eq_ltr_iff normal).mpr different)
    simpa using turning

theorem rtl_keyframesRule_ne
    {start : String}
    {frames : List NormalFrame}
    {turned : String}
    (found : (keyframesRule start frames).css.rtl = some turned) :
    turned ≠ (keyframesRule start frames).css.ltr := by
  rw [css_keyframesRule] at found ⊢
  dsimp only at found ⊢
  split at found
  · cases found
  · rename_i different
    rw [← Option.some.inj found]
    intro equal
    unfold animationText at equal
    rw [String.append_left_inj, String.append_right_inj] at equal
    exact different equal

theorem exists_normalFrames_of_compileKeyframes
    {options : Options}
    {block : Keyframes}
    {compiled : CompiledKeyframes}
    (compiles : compileKeyframes options block = .ok compiled) :
    ∃ frames warnings, normalFrames options block = .ok (frames, warnings) := by
  unfold compileKeyframes at compiles
  split at compiles
  · cases compiles
  · obtain ⟨⟨frames, warnings⟩, normal, -⟩ := Success.bind_eq_ok_iff.mp compiles
    exact ⟨frames, warnings, normal⟩

end AtomicCss
