import AtomicCss.Proofs.Declaration.Mirroring
import AtomicCss.Proofs.Registry.History
import AtomicCss.Proofs.Sheet.FrameText
import Mathlib.Control.Monad.Basic
import Mathlib.Data.List.Forall2

/-!
Contract: which blocks of frames share an animation, given that they share its name.

Owns:
- the lines of a frame with the side they were written for;
- what the two texts of an animation tell about its frames;
- the exact condition for two blocks with one hash input to have one animation, and what a registry
  does where they have not.

Does not own: the hash. A name is a hash of the frames for left-to-right pages alone, so that the
condition is not met by every pair with one hash input.
-/

namespace AtomicCss

/-! ## Lines in both writing directions -/

def FrameLine.mirrored (line : FrameLine) : FrameLine :=
  ⟨Property.mirror line.property, Property.mirrorKeyword line.property line.value⟩

/-- A line for left-to-right pages, and whether it is another one on right-to-left pages. -/
structure FrameEntry where
  line : FrameLine
  directional : Bool
deriving DecidableEq, Repr

namespace FrameEntry

def toward (entry : FrameEntry) : Direction → FrameLine
  | .ltr => entry.line
  | .rtl => if entry.directional then entry.line.mirrored else entry.line

theorem toward_rtl
    (entry : FrameEntry) :
    entry.toward .rtl = if entry.directional then entry.line.mirrored else entry.line :=
  rfl

/-- Either both lines are mirrored or neither is, as far as that makes a difference. -/
def TurnsLike (first second : FrameEntry) : Prop :=
  first.directional = second.directional ∨ first.line.mirrored = first.line

theorem toward_rtl_eq_iff
    {first second : FrameEntry}
    (sameLine : first.line = second.line) :
    first.toward .rtl = second.toward .rtl ↔ first.TurnsLike second := by
  obtain ⟨line, firstDirectional⟩ := first
  obtain ⟨otherLine, secondDirectional⟩ := second
  simp only at sameLine
  subst sameLine
  unfold toward TurnsLike
  cases firstDirectional with
  | false =>
      cases secondDirectional with
      | false => simp
      | true => simpa using eq_comm
  | true =>
      cases secondDirectional with
      | false => simp
      | true => simp

theorem map_toward_rtl_eq_iff
    {first second : List FrameEntry}
    (sameLines : first.map (·.toward .ltr) = second.map (·.toward .ltr)) :
    first.map (·.toward .rtl) = second.map (·.toward .rtl) ↔
      List.Forall₂ TurnsLike first second := by
  induction first generalizing second with
  | nil =>
      obtain rfl := List.map_eq_nil_iff.mp sameLines.symm
      simp
  | cons entry rest inductionHypothesis =>
      cases second with
      | nil => cases sameLines
      | cons other others =>
          obtain ⟨sameLine, sameRest⟩ := List.cons.inj sameLines
          rw [List.map_cons, List.map_cons, List.cons.injEq, toward_rtl_eq_iff sameLine,
            inductionHypothesis sameRest, List.forall₂_cons]

end FrameEntry

def Declaration.frameEntries (declaration : Declaration) : List FrameEntry :=
  declaration.values.map fun value => ⟨⟨declaration.property, value⟩, declaration.directional⟩

private theorem Declaration.map_text_frameEntries
    (declaration : Declaration)
    (direction : Direction) :
    (declaration.frameEntries.map fun entry => (entry.toward direction).text) =
      (declaration.toward direction).values.map fun value =>
        (declaration.toward direction).property ++ ":" ++ value ++ ";" := by
  obtain ⟨property, values, directional⟩ := declaration
  cases direction with
  | ltr =>
      simp only [frameEntries, List.map_map]
      rfl
  | rtl =>
      cases directional with
      | false =>
          simp only [frameEntries, List.map_map]
          rfl
      | true =>
          simp only [frameEntries, toward, mirrored?, if_true, Option.getD_some, List.map_map]
          rfl

namespace NormalFrame

def entries (frame : NormalFrame) : List FrameEntry :=
  frame.declarations.flatMap Declaration.frameEntries

def written (frame : NormalFrame) (direction : Direction) : WrittenFrame :=
  ⟨frame.label, frame.entries.map (·.toward direction)⟩

def TurnsLike (first second : NormalFrame) : Prop :=
  List.Forall₂ FrameEntry.TurnsLike first.entries second.entries

private theorem text_eq_text_written
    (frame : NormalFrame)
    (direction : Direction) :
    frame.text direction = (frame.written direction).text := by
  have lines :
      ((frame.declarations.map (·.toward direction)).flatMap fun declaration =>
          declaration.values.map fun value => declaration.property ++ ":" ++ value ++ ";") =
        (frame.written direction).lines.map FrameLine.text := by
    simp only [written, entries, List.map_map, List.map_flatMap, List.flatMap_map]
    congr 1
    funext declaration
    exact (declaration.map_text_frameEntries direction).symm
  have textToward :
      frame.text direction =
        frameText frame.label (frame.declarations.map (·.toward direction)) := by
    cases direction with
    | ltr => simp [text, Declaration.toward]
    | rtl => rfl
  rw [textToward, frameText, lines, WrittenFrame.text, String.append_assoc]
  rfl

theorem map_written_rtl_eq_iff
    {first second : List NormalFrame}
    (sameWritten : first.map (·.written .ltr) = second.map (·.written .ltr)) :
    first.map (·.written .rtl) = second.map (·.written .rtl) ↔
      List.Forall₂ TurnsLike first second := by
  induction first generalizing second with
  | nil =>
      obtain rfl := List.map_eq_nil_iff.mp sameWritten.symm
      simp
  | cons frame rest inductionHypothesis =>
      cases second with
      | nil => cases sameWritten
      | cons other others =>
          obtain ⟨sameFrame, sameRest⟩ := List.cons.inj sameWritten
          obtain ⟨sameLabel, sameLines⟩ := WrittenFrame.mk.inj sameFrame
          have sameTurned :
              frame.written .rtl = other.written .rtl ↔ frame.TurnsLike other := by
            simp only [written, WrittenFrame.mk.injEq, sameLabel, true_and]
            exact FrameEntry.map_toward_rtl_eq_iff sameLines
          rw [List.map_cons, List.map_cons, List.cons.injEq, sameTurned,
            inductionHypothesis sameRest, List.forall₂_cons]

end NormalFrame

/-! ## Animations and their two texts -/

def framesText (frames : List NormalFrame) (direction : Direction) : String :=
  Text.concat (frames.map (·.text direction))

private theorem framesText_eq
    (frames : List NormalFrame)
    (direction : Direction) :
    framesText frames direction =
      Text.concat ((frames.map (·.written direction)).map WrittenFrame.text) := by
  unfold framesText
  rw [List.map_map]
  congr 2
  funext frame
  exact frame.text_eq_text_written direction

/-- Frames none of whose lines turns have one text for both writing directions. -/
theorem framesText_rtl_eq_ltr
    {frames : List NormalFrame}
    (unmoved : ∀ frame ∈ frames, ∀ entry ∈ frame.entries,
      entry.directional = true → entry.line.mirrored = entry.line) :
    framesText frames .rtl = framesText frames .ltr := by
  rw [framesText_eq, framesText_eq]
  congr 2
  apply List.map_congr_left
  intro frame frameMember
  simp only [NormalFrame.written, WrittenFrame.mk.injEq, true_and]
  apply List.map_congr_left
  intro entry entryMember
  rw [FrameEntry.toward_rtl]
  split
  · rename_i directional
    exact unmoved frame frameMember entry entryMember directional
  · rfl

def animationText (start : String) (frames : List NormalFrame) (direction : Direction) : String :=
  "@keyframes " ++ keyframesName start (framesText frames .ltr) ++ "\x7b" ++
    framesText frames direction ++ "\x7d"

theorem css_keyframesRule
    (start : String)
    (frames : List NormalFrame) :
    (keyframesRule start frames).css =
      ⟨animationText start frames .ltr,
        if framesText frames .rtl = framesText frames .ltr then none
        else some (animationText start frames .rtl)⟩ :=
  rfl

private theorem framesText_eq_of_animationText_eq
    {start : String}
    {first second : List NormalFrame}
    (sameBody : framesText first .ltr = framesText second .ltr)
    {direction : Direction}
    (equal : animationText start first direction = animationText start second direction) :
    framesText first direction = framesText second direction := by
  unfold animationText at equal
  rw [sameBody, String.append_left_inj, String.append_right_inj] at equal
  exact equal

/-- An animation is determined by the texts of its frames, and determines them. -/
theorem keyframesRule_eq_iff
    (start : String)
    (first second : List NormalFrame) :
    keyframesRule start first = keyframesRule start second ↔
      ∀ direction, framesText first direction = framesText second direction := by
  constructor
  · intro equal direction
    have sameBody : framesText first .ltr = framesText second .ltr :=
      congrArg KeyframesRule.body equal
    have sameTurned := congrArg (fun block => block.css.rtl) equal
    simp only [css_keyframesRule] at sameTurned
    cases direction with
    | ltr => exact sameBody
    | rtl =>
        -- A text for right-to-left pages that is left out is the one for left-to-right pages.
        by_cases firstSame : framesText first .rtl = framesText first .ltr
        · by_cases secondSame : framesText second .rtl = framesText second .ltr
          · rw [firstSame, secondSame, sameBody]
          · simp [firstSame, secondSame] at sameTurned
        · by_cases secondSame : framesText second .rtl = framesText second .ltr
          · simp [firstSame, secondSame] at sameTurned
          · rw [if_neg firstSame, if_neg secondSame, Option.some.injEq] at sameTurned
            exact framesText_eq_of_animationText_eq sameBody sameTurned
  · intro sameTexts
    have sameLtr : Text.concat (first.map (·.text .ltr)) = Text.concat (second.map (·.text .ltr)) :=
      sameTexts .ltr
    have sameRtl : Text.concat (first.map (·.text .rtl)) = Text.concat (second.map (·.text .rtl)) :=
      sameTexts .rtl
    unfold keyframesRule
    rw [sameLtr, sameRtl]

/-! ## Frames in normal form -/

/-- A plain line stays plain when it is mirrored. -/
theorem FrameLine.IsPlain.mirrored
    {line : FrameLine}
    (plain : line.IsPlain) :
    line.mirrored.IsPlain := by
  have plainValue : ';' ∉ (Property.mirrorKeyword line.property line.value).toList := by
    unfold Property.mirrorKeyword
    split_ifs
    · decide
    · decide
    · exact plain.semicolonFree
    · decide
    · decide
    · exact plain.semicolonFree
    · exact plain.semicolonFree
  refine ⟨?_, ?_, plainValue⟩
  · intro colon
    rcases Property.mem_mirror colon with inProperty | sideCharacter
    · exact plain.colonFree inProperty
    · exact absurd sideCharacter (by decide)
  · intro brace
    rcases Property.mem_mirror brace with inProperty | sideCharacter
    · exact plain.braceFree inProperty
    · exact absurd sideCharacter (by decide)

private theorem brace_not_mem_label_of_normalFrames
    {options : Options}
    {block : Keyframes}
    {frames : List NormalFrame}
    {warnings : List Warning}
    (success : normalFrames options block = .ok (frames, warnings)) :
    ∀ frame ∈ frames, '\x7b' ∉ frame.label.toList := by
  induction block generalizing frames warnings with
  | nil =>
      rw [normalFrames, Except.ok.injEq, Prod.mk.injEq] at success
      rw [← success.1]
      simp
  | cons entry rest inductionHypothesis =>
      obtain ⟨written, labelled, normalizing⟩ := Success.bind_eq_ok_iff.mp success
      obtain ⟨normalized, -, continuing⟩ := Success.bind_eq_ok_iff.mp normalizing
      obtain ⟨⟨others, otherWarnings⟩, otherNormal, finished⟩ :=
        Success.bind_eq_ok_iff.mp continuing
      obtain ⟨rfl, rfl⟩ := Prod.mk.inj (Except.ok.inj finished)
      intro frame member
      rcases List.mem_cons.mp member with rfl | later
      · exact brace_not_mem_of_frameLabel labelled
      · exact inductionHypothesis otherNormal frame later

namespace NormalFrame

/-- The lines of the frame are plain on left-to-right pages. -/
def IsPlain (frame : NormalFrame) : Prop :=
  ∀ entry ∈ frame.entries, entry.line.IsPlain

private theorem IsPlain.written
    {frame : NormalFrame}
    (plain : frame.IsPlain)
    (labelPlain : '\x7b' ∉ frame.label.toList)
    (direction : Direction) :
    (frame.written direction).IsPlain := by
  refine ⟨labelPlain, ?_⟩
  intro line member
  obtain ⟨entry, entryMember, rfl⟩ := List.mem_map.mp member
  have linePlain := plain entry entryMember
  cases direction with
  | ltr => exact linePlain
  | rtl =>
      rw [FrameEntry.toward_rtl]
      split
      · exact linePlain.mirrored
      · exact linePlain

end NormalFrame

/-- Plain frames are determined by their text. -/
theorem framesText_eq_iff
    {first second : List NormalFrame}
    (firstLabels : ∀ frame ∈ first, '\x7b' ∉ frame.label.toList)
    (secondLabels : ∀ frame ∈ second, '\x7b' ∉ frame.label.toList)
    (firstPlain : ∀ frame ∈ first, frame.IsPlain)
    (secondPlain : ∀ frame ∈ second, frame.IsPlain)
    (direction : Direction) :
    framesText first direction = framesText second direction ↔
      first.map (·.written direction) = second.map (·.written direction) := by
  have writtenPlain {frames : List NormalFrame}
      (labels : ∀ frame ∈ frames, '\x7b' ∉ frame.label.toList)
      (plain : ∀ frame ∈ frames, frame.IsPlain) :
      ∀ written ∈ frames.map (·.written direction), written.IsPlain := by
    intro written member
    obtain ⟨frame, frameMember, rfl⟩ := List.mem_map.mp member
    exact (plain frame frameMember).written (labels frame frameMember) direction
  rw [framesText_eq, framesText_eq]
  constructor
  · intro equal
    exact WrittenFrame.concat_text_inj (writtenPlain firstLabels firstPlain)
      (writtenPlain secondLabels secondPlain) equal
  · intro equal
    rw [equal]

/-! ## Animations in a registry -/

theorem block_of_compileKeyframes
    {options : Options}
    {block : Keyframes}
    {compiled : CompiledKeyframes}
    (compiles : compileKeyframes options block = .ok compiled)
    {frames : List NormalFrame}
    {warnings : List Warning}
    (normal : normalFrames options block = .ok (frames, warnings)) :
    compiled.block = keyframesRule options.classPrefix frames := by
  unfold compileKeyframes at compiles
  split at compiles
  · cases compiles
  · rw [normal] at compiles
    rw [← Except.ok.inj compiles]

namespace Operation

/-- Compiling an animation goes by what its name stands for. -/
theorem perform_compileAnimation
    {compiler : Compiler}
    {block : Keyframes}
    {compiled : CompiledKeyframes}
    (compiles : compileKeyframes compiler.options block = .ok compiled)
    {registry : Registry}
    {existing : Artifact}
    (found : registry.get? compiled.block.name = some existing) :
    (compileAnimation compiler block).perform registry =
      if existing = .keyframes compiled.block then .ok (.animated compiled) registry
      else .error (.nameCollision compiled.block.name existing.css.ltr compiled.block.css.ltr)
        registry := by
  have taken : registry.contains (Artifact.keyframes compiled.block).id = true := by
    unfold Registry.contains
    rw [Artifact.id, found]
    rfl
  rw [perform_eq_whole]
  simp only [change, Compiler.compileAnimation, compiles, Registry.insert, Registry.check,
    Artifact.id, found, Registry.add_of_contains taken, bind, Except.bind]
  split_ifs
  · rfl
  · rfl

/-- A name goes on standing for its animation. -/
theorem get?_after_compileAnimation
    {compiler : Compiler}
    {block : Keyframes}
    {compiled : CompiledKeyframes}
    (compiles : compileKeyframes compiler.options block = .ok compiled)
    {registry middle : Registry}
    {outcome : Outcome}
    (registered : (compileAnimation compiler block).perform registry = .ok outcome middle)
    (operations : List Operation) :
    (afterAll middle operations).get? compiled.block.name =
      some (.keyframes compiled.block) := by
  apply Keyed.lookup_of_prefix (prefix_afterAll operations middle)
  rw [perform_eq_whole, Program.whole_eq_ok_iff] at registered
  obtain ⟨done, animated, equal⟩ := Success.map_eq_ok_iff.mp registered
  obtain ⟨again, compilesAgain, inserting⟩ := Success.bind_eq_ok_iff.mp animated
  -- Compilation is a function, so what was registered is what the block compiles to.
  obtain rfl := Except.ok.inj (compiles.symm.trans compilesAgain)
  obtain ⟨extended, inserted, finished⟩ := Success.bind_eq_ok_iff.mp inserting
  obtain ⟨accepted, rfl⟩ := (Registry.insert_eq_ok_iff registry _ extended).mp inserted
  obtain rfl := Except.ok.inj finished
  obtain ⟨rfl, -⟩ := Prod.mk.inj equal
  rw [Registry.artifacts_add, Keyed.lookup_add]
  cases standing : Keyed.lookup Artifact.id registry.artifacts compiled.block.name with
  | none => simp [Artifact.id]
  | some existing =>
      rw [accepted existing standing]
      rfl

end Operation

/-- Two blocks of frames with one hash input have one name and one text for left-to-right pages. For
plain frames they are one animation exactly if their lines turn alike on right-to-left pages, which
they do where no line turns. A registry that has the one takes the other exactly if they are one
animation, and otherwise reports a collision of two texts that are equal. -/
theorem keyframes_of_one_hash_input
    {compiler : Compiler}
    {first second : Keyframes}
    {firstCompiled secondCompiled : CompiledKeyframes}
    (firstCompiles : compileKeyframes compiler.options first = .ok firstCompiled)
    (secondCompiles : compileKeyframes compiler.options second = .ok secondCompiled)
    {firstFrames secondFrames : List NormalFrame}
    {firstWarnings secondWarnings : List Warning}
    (firstNormal : normalFrames compiler.options first = .ok (firstFrames, firstWarnings))
    (secondNormal : normalFrames compiler.options second = .ok (secondFrames, secondWarnings))
    (sameHashInput : "<>" ++ firstCompiled.block.body = "<>" ++ secondCompiled.block.body) :
    firstCompiled.block.name = secondCompiled.block.name ∧
      firstCompiled.block.css.ltr = secondCompiled.block.css.ltr ∧
      (firstCompiled.block = secondCompiled.block ↔
        framesText firstFrames .rtl = framesText secondFrames .rtl) ∧
      ((∀ frame ∈ firstFrames ++ secondFrames, frame.IsPlain) →
        (firstCompiled.block = secondCompiled.block ↔
          List.Forall₂ NormalFrame.TurnsLike firstFrames secondFrames)) ∧
      ((∀ frame ∈ firstFrames ++ secondFrames, ∀ entry ∈ frame.entries,
          entry.directional = true → entry.line.mirrored = entry.line) →
        firstCompiled.block = secondCompiled.block) ∧
      ∀ (registry middle : Registry) (outcome : Outcome) (operations : List Operation),
        (Operation.compileAnimation compiler first).perform registry = .ok outcome middle →
          (Operation.compileAnimation compiler second).perform
              (Operation.afterAll middle operations) =
            if firstCompiled.block = secondCompiled.block then
              .ok (.animated secondCompiled) (Operation.afterAll middle operations)
            else
              .error (.nameCollision firstCompiled.block.name firstCompiled.block.css.ltr
                firstCompiled.block.css.ltr) (Operation.afterAll middle operations) := by
  have firstBlock := block_of_compileKeyframes firstCompiles firstNormal
  have secondBlock := block_of_compileKeyframes secondCompiles secondNormal
  have sameBody : framesText firstFrames .ltr = framesText secondFrames .ltr := by
    rw [String.append_right_inj, firstBlock, secondBlock] at sameHashInput
    exact sameHashInput
  have sameName : firstCompiled.block.name = secondCompiled.block.name := by
    rw [firstBlock, secondBlock]
    exact congrArg (keyframesName compiler.options.classPrefix) sameBody
  have sameText : firstCompiled.block.css.ltr = secondCompiled.block.css.ltr := by
    rw [firstBlock, secondBlock, css_keyframesRule, css_keyframesRule]
    simp only [animationText, sameBody]
  have sameBlockIff :
      firstCompiled.block = secondCompiled.block ↔
        framesText firstFrames .rtl = framesText secondFrames .rtl := by
    rw [firstBlock, secondBlock, keyframesRule_eq_iff]
    constructor
    · intro sameTexts
      exact sameTexts .rtl
    · intro sameTurned direction
      cases direction with
      | ltr => exact sameBody
      | rtl => exact sameTurned
  refine ⟨sameName, sameText, sameBlockIff, ?_, ?_, ?_⟩
  · intro plain
    obtain ⟨firstPlain, secondPlain⟩ := List.forall_mem_append.mp plain
    have readBack :=
      framesText_eq_iff (brace_not_mem_label_of_normalFrames firstNormal)
        (brace_not_mem_label_of_normalFrames secondNormal) firstPlain secondPlain
    -- Both directions are read back: the one gives equal lines, the other whether they turn alike.
    rw [sameBlockIff, readBack .rtl]
    exact NormalFrame.map_written_rtl_eq_iff ((readBack .ltr).mp sameBody)
  · intro unmoved
    obtain ⟨firstUnmoved, secondUnmoved⟩ := List.forall_mem_append.mp unmoved
    rw [sameBlockIff, framesText_rtl_eq_ltr firstUnmoved, framesText_rtl_eq_ltr secondUnmoved]
    exact sameBody
  · intro registry middle outcome operations registered
    have found := Operation.get?_after_compileAnimation firstCompiles registered operations
    rw [sameName] at found
    rw [Operation.perform_compileAnimation secondCompiles found, ← sameName, ← sameText]
    simp only [Artifact.keyframes.injEq, Artifact.css]

/-- A frame at the left and a frame at the start of the line have one hash input. After the one, the
other is refused. -/
theorem left_and_start_share_name :
    let compiler : Compiler := ⟨Options.default, by decide⟩
    let left : Keyframes := [("from", [("left", .text "10px")])]
    let start : Keyframes := [("from", [("insetInlineStart", .text "10px")])]
    let body := "from\x7binset-inline-start:10px;\x7d"
    let shown := "@keyframes x1clk3w7-B\x7bfrom\x7binset-inline-start:10px;\x7d\x7d"
    let turned := "@keyframes x1clk3w7-B\x7bfrom\x7binset-inline-end:10px;\x7d\x7d"
    let leftBlock : KeyframesRule := ⟨"x1clk3w7-B", body, ⟨shown, some turned⟩, 1⟩
    let startBlock : KeyframesRule := ⟨"x1clk3w7-B", body, ⟨shown, none⟩, 1⟩
    let registry : Registry := ⟨[.keyframes leftBlock]⟩
    compileKeyframes compiler.options left = .ok ⟨leftBlock, []⟩ ∧
      compileKeyframes compiler.options start = .ok ⟨startBlock, []⟩ ∧
      "<>" ++ leftBlock.body = "<>" ++ startBlock.body ∧
      leftBlock ≠ startBlock ∧
      (Operation.compileAnimation compiler left).perform Registry.empty =
        .ok (.animated ⟨leftBlock, []⟩) registry ∧
      (Operation.compileAnimation compiler start).perform registry =
        .error (.nameCollision "x1clk3w7-B" shown shown) registry := by
  intro compiler left start body shown turned leftBlock startBlock registry
  let line : FrameLine := ⟨"inset-inline-start", "10px"⟩
  let leftFrames : List NormalFrame := [⟨"from", [⟨line.property, [line.value], true⟩]⟩]
  let startFrames : List NormalFrame := [⟨"from", [⟨line.property, [line.value], false⟩]⟩]
  have leftCompiles : compileKeyframes compiler.options left = .ok ⟨leftBlock, []⟩ := by
    decide +kernel
  have startCompiles : compileKeyframes compiler.options start = .ok ⟨startBlock, []⟩ := by
    decide +kernel
  have leftNormal : normalFrames compiler.options left = .ok (leftFrames, []) := by
    decide +kernel
  have startNormal : normalFrames compiler.options start = .ok (startFrames, []) := by
    decide +kernel
  obtain ⟨-, -, -, sameBlockIff, -, registering⟩ :=
    keyframes_of_one_hash_input leftCompiles startCompiles leftNormal startNormal rfl
  have linePlain : line.IsPlain := ⟨by decide, by decide, by decide⟩
  have plain : ∀ frame ∈ leftFrames ++ startFrames, frame.IsPlain := by
    intro frame member entry inside
    have shownLine : entry.line = line := by
      simp only [leftFrames, startFrames, List.cons_append, List.nil_append, List.mem_cons,
        List.not_mem_nil, or_false] at member
      rcases member with rfl | rfl
      · rw [List.mem_singleton.mp inside]
      · rw [List.mem_singleton.mp inside]
    rw [shownLine]
    exact linePlain
  have different : leftBlock ≠ startBlock := by
    intro same
    have alike := (sameBlockIff plain).mp same
    have entriesAlike := (List.forall₂_cons.mp alike).1
    have lineAlike := (List.forall₂_cons.mp entriesAlike).1
    rcases lineAlike with bothTurn | unmoved
    · cases bothTurn
    · exact absurd unmoved (by decide +kernel)
  have leftRegistered :
      (Operation.compileAnimation compiler left).perform Registry.empty =
        .ok (.animated ⟨leftBlock, []⟩) registry := by
    rw [Operation.perform_eq_whole, Program.whole_eq_ok_iff, Operation.change,
      Compiler.compileAnimation, leftCompiles]
    rfl
  have refused := registering Registry.empty registry _ [] leftRegistered
  rw [if_neg different] at refused
  exact ⟨leftCompiles, startCompiles, rfl, different, leftRegistered, refused⟩

end AtomicCss
