import AtomicCss.Proofs.Compile.WritingDirections
import AtomicCss.Proofs.Hash.Base36

/-!
Contract: the names of artifacts, taken apart.

Owns:
- names as a prefix, the digits of a hash, and a mark for animations;
- artifacts that bear the hash of their content;
- names of one prefix are told apart by their hashes, names of the two kinds by their ends.

Does not own: contents with the same hash.
-/

namespace AtomicCss

/-! ## Identifiers -/

/-- A letter or `_`, then letters, digits, `_` or `-`. -/
def IsCssName (name : String) : Prop :=
  ∃ first rest, name.toList = first :: rest ∧ (first.isAlpha = true ∨ first = '_') ∧
    ∀ character ∈ rest, character.isAlphanum = true ∨ character = '_' ∨ character = '-'

theorem isCssName_iff
    (name : String) :
    IsCssName name ↔ isClassPrefix name = true := by
  rw [isClassPrefix_iff]
  simp only [IsCssName, isNameStart, isNameChar, List.all_eq_true, Bool.or_eq_true,
    decide_eq_true_eq, or_assoc]

/-! ## Names of artifacts -/

namespace Artifact

def mark : Artifact → String
  | .rule _ => ""
  | .keyframes _ => "-B"

/-- An artifact made of some content, and the hash of that content: a rule of a declaration in a
context, or an animation of frames. -/
inductive IsAddressed (start : String) : Artifact → UInt32 → Prop
  | rule (declaration : Declaration) (context : Context) :
      IsAddressed start (.rule (declaration.rule start context))
        (Hash.ofText (classHashInput declaration.property declaration.valueText context
          declaration.directional))
  | animation (frames : List NormalFrame) :
      IsAddressed start (.keyframes (keyframesRule start frames))
        (Hash.ofText ("<>" ++ (keyframesRule start frames).body))

structure IsWellNamed (artifact : Artifact) (start : String) (word : UInt32) : Prop where
  identifier : IsCssName artifact.id
  spelled : ∃ digits, artifact.id.toList = start.toList ++ digits ++ artifact.mark.toList ∧
    Hash.Spells digits word

private theorem mark_eq_of_isKeyframes_eq
    {first second : Artifact}
    (sameKind : first.isKeyframes = second.isKeyframes) :
    first.mark = second.mark := by
  cases first <;> cases second
  · rfl
  · cases sameKind
  · cases sameKind
  · rfl

namespace IsAddressed

variable {start : String} {artifact : Artifact} {word : UInt32}

theorem id_eq
    (addressed : artifact.IsAddressed start word) :
    artifact.id = start ++ Hash.base36 word ++ artifact.mark := by
  cases addressed with
  | rule declaration context => exact String.append_empty.symm
  | animation frames => rfl

theorem toList_id
    (addressed : artifact.IsAddressed start word) :
    artifact.id.toList = start.toList ++ (Hash.base36 word).toList ++ artifact.mark.toList := by
  rw [addressed.id_eq, String.toList_append, String.toList_append]

private theorem isWellNamed
    (addressed : artifact.IsAddressed start word)
    (identifier : isClassPrefix start = true) :
    artifact.IsWellNamed start word := by
  have hashed : isClassPrefix (start ++ Hash.base36 word) = true := by
    apply isClassPrefix_append identifier
    intro character member
    simp [isNameChar, (Hash.spells_base36 word).isAlphanum character member]
  have marked : artifact.mark.toList.all isNameChar = true := by
    cases artifact with
    | rule rule => rfl
    | keyframes block =>
        show "-B".toList.all isNameChar = true
        decide
  refine ⟨?_, (Hash.base36 word).toList, addressed.toList_id, Hash.spells_base36 word⟩
  rw [isCssName_iff, addressed.id_eq]
  exact isClassPrefix_append hashed (List.all_eq_true.mp marked)

/-- Of two artifacts of one kind and one prefix, the names are equal exactly if the hashes are. -/
theorem id_eq_iff
    {another : Artifact}
    {anotherWord : UInt32}
    (addressed : artifact.IsAddressed start word)
    (alsoAddressed : another.IsAddressed start anotherWord)
    (sameKind : artifact.isKeyframes = another.isKeyframes) :
    artifact.id = another.id ↔ word = anotherWord := by
  rw [← Hash.base36_inj, ← String.toList_inj, ← String.toList_inj, addressed.toList_id,
    alsoAddressed.toList_id, mark_eq_of_isKeyframes_eq sameKind]
  constructor
  · intro same
    exact List.append_cancel_left (List.append_cancel_right same)
  · intro same
    rw [same]

/-- The name of a rule ends with a digit of its hash. -/
theorem getLast_rule
    {rule : AtomicRule}
    (addressed : (Artifact.rule rule).IsAddressed start word) :
    ∃ character, (Artifact.rule rule).id.toList.getLast? = some character ∧
      (character.isDigit = true ∨ character.isLower = true) := by
  have spells := Hash.spells_base36 word
  have nonempty : (Hash.base36 word).toList ≠ [] := spells.ne_nil
  refine ⟨(Hash.base36 word).toList.getLast nonempty, ?_,
    spells.alphanumeric _ (List.getLast_mem nonempty)⟩
  rw [addressed.toList_id]
  show (start.toList ++ (Hash.base36 word).toList ++ []).getLast? = _
  rw [List.append_nil, List.getLast?_append_of_ne_nil _ nonempty, List.getLast?_eq_some_getLast]

private theorem getLast_animation
    {block : KeyframesRule}
    (addressed : (Artifact.keyframes block).IsAddressed start word) :
    (Artifact.keyframes block).id.toList.getLast? = some 'B' := by
  have marked : "-B".toList ≠ [] := by decide
  rw [addressed.toList_id]
  show (start.toList ++ (Hash.base36 word).toList ++ "-B".toList).getLast? = some 'B'
  rw [List.getLast?_append_of_ne_nil _ marked]
  decide

/-- Whatever the prefixes, a rule and an animation have different names. -/
theorem id_rule_ne_id_animation
    {otherStart : String}
    {otherWord : UInt32}
    {rule : AtomicRule}
    {block : KeyframesRule}
    (addressed : (Artifact.rule rule).IsAddressed start word)
    (alsoAddressed : (Artifact.keyframes block).IsAddressed otherStart otherWord) :
    (Artifact.rule rule).id ≠ (Artifact.keyframes block).id := by
  intro same
  obtain ⟨character, ends, alphanumeric⟩ := addressed.getLast_rule
  rw [same, alsoAddressed.getLast_animation, Option.some_inj] at ends
  rw [← ends] at alphanumeric
  exact absurd alphanumeric (by decide)

end IsAddressed

private theorem id_ne_of_isKeyframes_ne
    {first second : Artifact}
    {start otherStart : String}
    {word otherWord : UInt32}
    (addressed : first.IsAddressed start word)
    (alsoAddressed : second.IsAddressed otherStart otherWord)
    (kinds : first.isKeyframes ≠ second.isKeyframes) :
    first.id ≠ second.id := by
  cases first with
  | rule rule =>
      cases second with
      | rule other => exact absurd rfl kinds
      | keyframes block => exact addressed.id_rule_ne_id_animation alsoAddressed
  | keyframes block =>
      cases second with
      | rule rule => exact (alsoAddressed.id_rule_ne_id_animation addressed).symm
      | keyframes other => exact absurd rfl kinds

end Artifact

/-! ## Artifacts of compilations -/

/-- An artifact of some compilation that succeeds. -/
inductive Compiler.Emits (compiler : Compiler) (artifact : Artifact) : Prop
  | definition (definition : Definition) (output : Output)
      (success : compileDefinition compiler.options definition = .ok output)
      (member : artifact ∈ output.artifacts)
  | source (source : Source) (output : Output)
      (success : compileSource compiler.options source = .ok output)
      (member : artifact ∈ output.artifacts)
  | animation (frames : Keyframes) (compiled : CompiledKeyframes)
      (success : compileKeyframes compiler.options frames = .ok compiled)
      (same : artifact = .keyframes compiled.block)

private theorem exists_isAddressed_of_compileSource
    {options : Options}
    {source : Source}
    {output : Output}
    (success : compileSource options source = .ok output)
    {artifact : Artifact}
    (member : artifact ∈ output.artifacts) :
    ∃ word, artifact.IsAddressed options.classPrefix word := by
  obtain ⟨declarations, made⟩ := (mem_artifacts_iff_makes success artifact).mp member
  cases made with
  | rule entry leaf isLeaf declaration declared => exact ⟨_, .rule declaration leaf.context⟩
  | animation block hasFrames compiled compiles frames warnings normal =>
      rw [block_of_compileKeyframes compiles normal]
      exact ⟨_, .animation frames⟩

private theorem Compiler.Emits.exists_isAddressed
    {compiler : Compiler}
    {artifact : Artifact}
    (emitted : compiler.Emits artifact) :
    ∃ word, artifact.IsAddressed compiler.options.classPrefix word := by
  cases emitted with
  | definition definition output success member =>
      have alone : compileSource compiler.options ⟨definition, []⟩ = .ok output := by
        rw [compileSource, success]
        rfl
      exact exists_isAddressed_of_compileSource alone member
  | source source output success member => exact exists_isAddressed_of_compileSource success member
  | animation frames compiled success same =>
      obtain ⟨normal, warnings, normalized⟩ := exists_normalFrames_of_compileKeyframes success
      rw [same, block_of_compileKeyframes success normalized]
      exact ⟨_, .animation normal⟩

/-- Every artifact of every compilation has a name of its prefix that is an identifier, in which one
to seven digits and small letters spell the hash of its content. Names of one kind and one prefix
are equal exactly if the hashes are. Rules and animations never share a name, whatever their
prefixes. -/
theorem generated_names_spell_hashes_and_kinds_differ
    (compiler other : Compiler)
    (artifact another : Artifact)
    (emitted : compiler.Emits artifact)
    (alsoEmitted : other.Emits another) :
    (∃ word, artifact.IsAddressed compiler.options.classPrefix word ∧
        artifact.IsWellNamed compiler.options.classPrefix word) ∧
      (∀ word anotherWord,
        artifact.IsAddressed compiler.options.classPrefix word →
        another.IsAddressed other.options.classPrefix anotherWord →
        compiler.options.classPrefix = other.options.classPrefix →
        artifact.isKeyframes = another.isKeyframes →
          (artifact.id = another.id ↔ word = anotherWord)) ∧
      (artifact.isKeyframes ≠ another.isKeyframes → artifact.id ≠ another.id) := by
  obtain ⟨word, addressed⟩ := emitted.exists_isAddressed
  obtain ⟨anotherWord, alsoAddressed⟩ := alsoEmitted.exists_isAddressed
  refine ⟨⟨word, addressed, addressed.isWellNamed compiler.valid.1⟩, ?_, ?_⟩
  · intro word anotherWord addressed alsoAddressed samePrefix sameKind
    rw [← samePrefix] at alsoAddressed
    exact addressed.id_eq_iff alsoAddressed sameKind
  · exact Artifact.id_ne_of_isKeyframes_ne addressed alsoAddressed

/-- An animation, and a rule whose prefix is the name of that animation. -/
theorem fading_and_rule_prefixed_by_it_differ :
    let plain : Compiler := ⟨Options.default, by decide⟩
    let prefixed : Compiler := ⟨{ Options.default with classPrefix := "x1mi9bte-B" }, by decide⟩
    let fading : Artifact := .keyframes ⟨"x1mi9bte-B", "to\x7bopacity:0;\x7d",
      ⟨"@keyframes x1mi9bte-B\x7bto\x7bopacity:0;\x7d\x7d", none⟩, 1⟩
    let red : Artifact :=
      .rule ⟨"x1mi9bte-B1e2nbdu", ⟨".x1mi9bte-B1e2nbdu\x7bcolor:red\x7d", none⟩, 3000⟩
    plain.Emits fading ∧ prefixed.Emits red ∧
      (∃ word, fading.IsAddressed "x" word ∧ fading.IsWellNamed "x" word) ∧
      (∃ word, red.IsAddressed "x1mi9bte-B" word ∧ red.IsWellNamed "x1mi9bte-B" word) ∧
      fading.id ≠ red.id := by
  intro plain prefixed fading red
  have fadingEmitted : plain.Emits fading :=
    .animation [("to", [("opacity", .text "0")])] ⟨_, []⟩ (by decide +kernel) rfl
  have redEmitted : prefixed.Emits red :=
    .definition [("box", ⟨[], [("color", .text "red")]⟩)]
      ⟨[("box", ⟨[("color", ["x1mi9bte-B1e2nbdu"])], [], []⟩)], [red], []⟩ (by decide +kernel)
      (.head _)
  obtain ⟨fadingNamed, -, differ⟩ :=
    generated_names_spell_hashes_and_kinds_differ plain prefixed fading red fadingEmitted redEmitted
  obtain ⟨redNamed, -⟩ :=
    generated_names_spell_hashes_and_kinds_differ prefixed plain red fading redEmitted fadingEmitted
  exact ⟨fadingEmitted, redEmitted, fadingNamed, redNamed, differ Bool.false_ne_true.symm⟩

end AtomicCss
