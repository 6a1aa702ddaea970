import AtomicCss.Compile.Compiler
import AtomicCss.Proofs.Declaration.ChainTexts
import AtomicCss.Proofs.Declaration.Longhands
import AtomicCss.Proofs.Style.Paths

/-!
Contract: when a value has no normal form, and where that stops a compilation.

Owns:
- the number of declarations and values that a literal or a chain comes to;
- the errors of the normal form, each with the values that give rise to it;
- the frames, animations and leaves that fail with such an error, which are those with a fallback
  chain that is refused.

Does not own: errors of keys, labels, contexts and parameters.
-/

namespace AtomicCss

/-- An error of the normal form: a value that is refused, or references that are scattered over a
chain. -/
def Error.isNormalization : Error → Bool
  | .invalidValue _ _ => true
  | .scatteredVariables _ => true
  | _ => false

theorem Error.ne_of_isNormalization
    {error other : Error}
    (normalization : error.isNormalization = true)
    (plain : other.isNormalization = false) :
    other ≠ error := by
  rintro rfl
  cases normalization.symm.trans plain

theorem Shorthand.length_longhands
    (shorthand : Shorthand) :
    shorthand.longhands.length = 2 ∨ shorthand.longhands.length = 4 := by
  cases shorthand with
  | box _ _ _ _ => exact .inr rfl
  | axis _ _ => exact .inl rfl

/-! ## Literals and chains -/

namespace Options

variable (options : Options)

private theorem length_values_directed
    (name : String)
    (values : List String) :
    (options.directed name values).values.length = values.length := by
  unfold directed
  split
  · rfl
  · exact List.length_map _

private theorem length_declarations_normalizeLiteral
    (name : String)
    (literal : Literal) :
    (options.normalizeLiteral name literal).declarations.length ∈ [1, 2, 4] := by
  have length :
      (options.normalizeLiteral name literal).declarations.length =
        ((options.expand name literal).1.map Prod.fst).length := by
    simp [normalizeLiteral]
  rw [length]
  rcases options.map_fst_expand name literal with whole | ⟨shorthand, -, split⟩
  · simp [whole]
  · rw [split]
    rcases shorthand.length_longhands with two | four
    · simp [two]
    · simp [four]

/-- A literal comes to one, two or four declarations of one value each. -/
theorem exists_normalize_literal
    (key : String)
    {value : Value}
    (isLiteral : value.isLiteral = true) :
    ∃ normalized, options.normalize key value = .ok normalized ∧
      normalized.declarations.length ∈ [1, 2, 4] ∧
      ∀ declaration ∈ normalized.declarations, declaration.values.length = 1 := by
  obtain ⟨literal, found⟩ := Option.isSome_iff_exists.mp isLiteral
  obtain ⟨normalized, normal, declarations⟩ := options.exists_normalize_of_literal key found
  refine ⟨normalized, normal, ?_, ?_⟩
  · rw [declarations]
    exact options.length_declarations_normalizeLiteral _ literal
  · intro declaration member
    rw [declarations] at member
    obtain ⟨pair, -, rfl⟩ := List.mem_map.mp member
    exact options.length_values_directed _ _

/-- What is neither a literal nor a chain is refused. -/
theorem normalize_of_not_literal
    (key : String)
    {value : Value}
    (notLiteral : value.isLiteral = false)
    (notChain : value.kind ≠ .chain) :
    options.normalize key value =
      .error (.invalidValue (Property.canonicalName key) (.notLiteral value.kind)) := by
  cases value with
  | number _ | text _ => cases notLiteral
  | chain _ => exact absurd rfl notChain
  | null | dynamic _ | keyframes _ | object _ => rfl

theorem normalize_chain_eq_error_iff
    (key : String)
    (items : List Value)
    (error : Error) :
    options.normalize key (.chain items) = .error error ↔
      options.normalizeChain (Property.canonicalName key) items = .error error :=
  Failure.map_eq_error_iff

/-- A chain of literals is refused just for scattered references, and otherwise comes to one
declaration. -/
theorem normalize_chain_of_literals
    (key : String)
    {items : List Value}
    (nonempty : items ≠ [])
    (literals : ∀ item ∈ items, item.isLiteral = true) :
    let name := Property.canonicalName key
    let texts := Value.texts name items
    (options.normalize key (.chain items) = .error (.scatteredVariables name) ↔
        Chain.Scattered texts) ∧
      (¬Chain.Scattered texts →
        ∃ normalized declaration, options.normalize key (.chain items) = .ok normalized ∧
          normalized.declarations = [declaration] ∧ declaration.values ≠ []) := by
  intro name texts
  have chain := options.normalizeChain_of_literals name nonempty literals
  constructor
  · rw [normalize_chain_eq_error_iff, chain, Failure.map_eq_error_iff, Chain.compose_eq_error_iff]
    exact and_iff_left rfl
  · intro together
    have accepted : ∃ values, Chain.compose name texts = .ok values := by
      cases composed : Chain.compose name texts with
      | ok values => exact ⟨values, rfl⟩
      | error error => exact absurd ((Chain.compose_eq_error_iff _ _ _).mp composed).1 together
    obtain ⟨values, composed⟩ := accepted
    have filled : values ≠ [] :=
      Chain.compose_ne_nil (Value.texts_ne_nil name nonempty literals) composed
    have normal : ∃ normalized, options.normalize key (.chain items) = .ok normalized ∧
        normalized.declarations = [options.directed name values] := by
      rw [normalize, chain, composed]
      exact ⟨_, rfl, rfl⟩
    obtain ⟨normalized, success, declarations⟩ := normal
    exact ⟨normalized, _, success, declarations, options.values_directed_ne_nil name filled⟩

end Options

/-! ## Frames -/

section Frames

variable {options : Options} {error : Error} (normalization : error.isNormalization = true)

/-- A key that opens a context is refused in a frame, whatever its value. -/
theorem frameEntry_of_opensContext
    (options : Options)
    {key : String}
    (opening : OpensContext key)
    (value : Value) :
    frameEntry options key value = .error (.selectorInKeyframes key) := by
  rcases KeyKind.ofKey_of_opensContext opening with pseudo | atRule
  · simp [frameEntry, pseudo]
  · simp [frameEntry, atRule]

/-- A number, a text or a chain of a frame has its normal form there. -/
theorem frameEntry_of_plain
    (options : Options)
    {key : String}
    (closed : ¬OpensContext key)
    {value : Value}
    (plain : value.isLiteral = true ∨ value.kind = .chain) :
    frameEntry options key value = options.normalize key value := by
  have kind := not_opensContext_iff.mp closed
  cases value with
  | number _ | text _ | chain _ =>
      rcases kind with property | default
      · simp [frameEntry, property]
      · simp [frameEntry, default]
  | null | dynamic _ | keyframes _ | object _ =>
      simp [Value.isLiteral, Value.literal?, Value.kind] at plain

/-- Any other value is passed over if it is null, and else refused as none that frames take. -/
theorem frameEntry_of_not_plain
    (options : Options)
    {key : String}
    (closed : ¬OpensContext key)
    {value : Value}
    (notLiteral : value.isLiteral = false)
    (notChain : value.kind ≠ .chain) :
    frameEntry options key value =
      if value.kind = .null then .ok ⟨[], []⟩
      else .error (.invalidKeyframes (.notPlain key value.kind)) := by
  have kind := not_opensContext_iff.mp closed
  cases value with
  | number _ | text _ => cases notLiteral
  | chain _ => exact absurd rfl notChain
  | null | dynamic _ | keyframes _ | object _ =>
      rcases kind with property | default
      · simp [frameEntry, property, Value.kind]
      · simp [frameEntry, default, Value.kind]

include normalization in
/-- Of the entries of a frame, those with a chain that is refused have no normal form. -/
theorem frameEntry_eq_error_iff
    (key : String)
    (value : Value) :
    frameEntry options key value = .error error ↔
      ¬OpensContext key ∧
        ∃ items, value = .chain items ∧ options.normalize key (.chain items) = .error error := by
  have unlike {other : Error} := @Error.ne_of_isNormalization error other normalization
  constructor
  · intro failed
    have closed : ¬OpensContext key := by
      intro opening
      rw [frameEntry_of_opensContext options opening] at failed
      exact unlike rfl (Except.error.inj failed)
    refine ⟨closed, ?_⟩
    cases value with
    | chain items =>
        rw [frameEntry_of_plain options closed (.inr rfl)] at failed
        exact ⟨items, rfl, failed⟩
    | number _ | text _ =>
        rw [frameEntry_of_plain options closed (.inl rfl)] at failed
        cases failed
    | null =>
        rw [frameEntry_of_not_plain options closed rfl (by simp [Value.kind])] at failed
        cases failed
    | object _ | dynamic _ | keyframes _ =>
        rw [frameEntry_of_not_plain options closed rfl (by simp [Value.kind])] at failed
        exact absurd (Except.error.inj failed) (unlike rfl)
  · rintro ⟨closed, items, rfl, failed⟩
    rw [frameEntry_of_plain options closed (.inr rfl)]
    exact failed

/-- A frame fails with the first of its entries that does. -/
theorem frameDeclarations_eq_error_iff
    (styles : StyleMap) :
    frameDeclarations options styles = .error error ↔
      Failure.FailsFirst (fun entry => frameEntry options entry.1 entry.2) styles error := by
  induction styles with
  | nil => simp [frameDeclarations, Failure.not_failsFirst_nil]
  | cons entry rest inductionHypothesis =>
      rw [Failure.failsFirst_cons_iff, ← inductionHypothesis, frameDeclarations,
        Failure.bind_eq_error_iff]
      simp only [Failure.bind_eq_error_iff, reduceCtorEq, and_false, exists_false, or_false,
        exists_and_right]

include normalization in
/-- A frame has no normal form if a chain of it is refused before anything else is. -/
theorem frameDeclarations_eq_error_iff_chain
    (styles : StyleMap) :
    frameDeclarations options styles = .error error ↔
      ∃ before key items after, styles = before ++ (key, .chain items) :: after ∧
        (∀ entry ∈ before, ∃ normalized, frameEntry options entry.1 entry.2 = .ok normalized) ∧
        ¬OpensContext key ∧ options.normalize key (.chain items) = .error error := by
  rw [frameDeclarations_eq_error_iff]
  constructor
  · rintro ⟨before, ⟨key, value⟩, after, rfl, earlier, failed⟩
    obtain ⟨closed, items, rfl, refused⟩ :=
      (frameEntry_eq_error_iff normalization key value).mp failed
    exact ⟨before, key, items, after, rfl, earlier, closed, refused⟩
  · rintro ⟨before, key, items, after, rfl, earlier, closed, refused⟩
    exact ⟨before, (key, .chain items), after, rfl, earlier,
      (frameEntry_eq_error_iff normalization key _).mpr ⟨closed, items, rfl, refused⟩⟩

/-! ## Animations -/

def normalFrame (options : Options) (frame : String × StyleMap) :
    Except Error (NormalFrame × List Warning) := do
  let written ← frameLabel frame.1
  let normalized ← frameDeclarations options frame.2
  .ok (⟨written, normalized.declarations⟩, normalized.warnings)

theorem normalFrames_eq_error_iff
    (frames : Keyframes) :
    normalFrames options frames = .error error ↔
      Failure.FailsFirst (normalFrame options) frames error := by
  induction frames with
  | nil => simp [normalFrames, Failure.not_failsFirst_nil]
  | cons frame rest inductionHypothesis =>
      rw [Failure.failsFirst_cons_iff, ← inductionHypothesis, normalFrames, normalFrame]
      cases frameLabel frame.1 with
      | error refused => simp [bind, Except.bind]
      | ok written =>
          cases frameDeclarations options frame.2 with
          | error refused => simp [bind, Except.bind]
          | ok normalized =>
              cases normalFrames options rest with
              | error refused => simp [bind, Except.bind]
              | ok others => simp [bind, Except.bind]

include normalization in
theorem normalFrame_eq_error_iff
    (frame : String × StyleMap) :
    normalFrame options frame = .error error ↔
      (∃ written, frameLabel frame.1 = .ok written) ∧
        frameDeclarations options frame.2 = .error error := by
  have labelled : frameLabel frame.1 ≠ .error error := by
    intro failed
    unfold frameLabel at failed
    simp only at failed
    split at failed
    · cases failed
    · exact Error.ne_of_isNormalization normalization rfl (Except.error.inj failed)
  rw [normalFrame, Failure.bind_eq_error_iff, or_iff_right labelled]
  simp only [Failure.bind_eq_error_iff, reduceCtorEq, and_false, exists_false, or_false,
    exists_and_right]

include normalization in
/-- An animation fails with an error of the normal form if a frame of it does before anything else
is wrong. -/
theorem compileKeyframes_eq_error_iff
    (frames : Keyframes) :
    compileKeyframes options frames = .error error ↔
      ∃ before label styles after, frames = before ++ (label, styles) :: after ∧
        (∀ frame ∈ before, ∃ normal, normalFrame options frame = .ok normal) ∧
        (∃ written, frameLabel label = .ok written) ∧
        frameDeclarations options styles = .error error := by
  have block : compileKeyframes options frames = .error error ↔
      Failure.FailsFirst (normalFrame options) frames error := by
    rw [← normalFrames_eq_error_iff]
    cases frames with
    | nil =>
        simpa [compileKeyframes, normalFrames, bind, Except.bind] using
          Error.ne_of_isNormalization normalization rfl
    | cons frame rest =>
        have filled :
            compileKeyframes options (frame :: rest) =
              (normalFrames options (frame :: rest)).map fun normal =>
                ⟨keyframesRule options.classPrefix normal.1, normal.2⟩ := rfl
        rw [filled, Failure.map_eq_error_iff]
  rw [block]
  constructor
  · rintro ⟨before, ⟨label, styles⟩, after, rfl, earlier, failed⟩
    obtain ⟨labelled, refused⟩ := (normalFrame_eq_error_iff normalization _).mp failed
    exact ⟨before, label, styles, after, rfl, earlier, labelled, refused⟩
  · rintro ⟨before, label, styles, after, rfl, earlier, labelled, refused⟩
    exact ⟨before, (label, styles), after, rfl, earlier,
      (normalFrame_eq_error_iff normalization _).mpr ⟨labelled, refused⟩⟩

/-! ## Leaves -/

include normalization in
/-- A leaf fails with an error of the normal form if its chain is refused or its animation fails
so. -/
theorem Leaf.compile_eq_error_iff
    (scope : String)
    (parameters : List String)
    (leaf : Leaf) :
    leaf.compile options scope parameters = .error error ↔
      (∃ items, leaf.value = .chain items ∧
        options.normalize leaf.property (.chain items) = .error error) ∨
      ∃ frames, leaf.value = .keyframes frames ∧
        compileKeyframes options frames = .error error := by
  have unlike {other : Error} := @Error.ne_of_isNormalization error other normalization
  obtain ⟨key, property, context, value⟩ := leaf
  unfold compile
  cases value with
  | null => simp
  | object entries => simpa using unlike rfl
  | dynamic reference =>
      by_cases declared : reference.parameter ∈ parameters
      · simp [declared]
      · simpa [declared] using unlike rfl
  | number _ | text _ => simp [Options.normalize, bind, Except.bind]
  | chain items => simp [Failure.bind_eq_error_iff]
  | keyframes frames =>
      -- The name of an animation is a text, which always has a normal form.
      simp [Failure.bind_eq_error_iff, Options.normalize]

end Frames

/-! ## Failure -/

/-- When a value has no normal form, whatever the settings are. For every key, a number or a text
comes to one, two or four declarations of one value each. A chain is invalid just if it is empty or
has an entry that is no literal; any other chain is refused just if an entry stands between two
references in the texts of its entries, and else comes to one declaration, which has a value. Any
other value is invalid. In a frame, an animation and a leaf, the errors of the normal form are those
of chains: the first thing that goes wrong there is a chain that is refused. -/
theorem normal_form_fails_iff
    (options : Options) :
    (∀ key value, value.isLiteral = true →
      ∃ normalized, options.normalize key value = .ok normalized ∧
        normalized.declarations.length ∈ [1, 2, 4] ∧
        ∀ declaration ∈ normalized.declarations, declaration.values.length = 1) ∧
    (∀ key items,
      let name := Property.canonicalName key
      let texts := Value.texts name items
      ((∃ fault, options.normalize key (.chain items) = .error (.invalidValue name fault)) ↔
        items = [] ∨ ∃ item ∈ items, item.isLiteral = false) ∧
      (items ≠ [] → (∀ item ∈ items, item.isLiteral = true) →
        (options.normalize key (.chain items) = .error (.scatteredVariables name) ↔
          Chain.Scattered texts) ∧
        (¬Chain.Scattered texts →
          ∃ normalized declaration, options.normalize key (.chain items) = .ok normalized ∧
            normalized.declarations = [declaration] ∧ declaration.values ≠ []))) ∧
    (∀ key value, value.isLiteral = false → value.kind ≠ .chain →
      options.normalize key value =
        .error (.invalidValue (Property.canonicalName key) (.notLiteral value.kind))) ∧
    ∀ error, error.isNormalization = true →
      (∀ styles, frameDeclarations options styles = .error error ↔
        ∃ before key items after, styles = before ++ (key, .chain items) :: after ∧
          (∀ entry ∈ before, ∃ normalized, frameEntry options entry.1 entry.2 = .ok normalized) ∧
          ¬OpensContext key ∧ options.normalize key (.chain items) = .error error) ∧
      (∀ frames, compileKeyframes options frames = .error error ↔
        ∃ before label styles after, frames = before ++ (label, styles) :: after ∧
          (∀ frame ∈ before, ∃ normal, normalFrame options frame = .ok normal) ∧
          (∃ written, frameLabel label = .ok written) ∧
          frameDeclarations options styles = .error error) ∧
      ∀ scope parameters (leaf : Leaf), leaf.compile options scope parameters = .error error ↔
        (∃ items, leaf.value = .chain items ∧
          options.normalize leaf.property (.chain items) = .error error) ∨
        ∃ frames, leaf.value = .keyframes frames ∧
          compileKeyframes options frames = .error error := by
  refine ⟨?_, ?_, ?_, ?_⟩
  · intro key value isLiteral
    exact options.exists_normalize_literal key isLiteral
  · intro key items name texts
    constructor
    · simp only [options.normalize_chain_eq_error_iff]
      exact options.exists_normalizeChain_invalid_iff name
    · intro nonempty literals
      exact options.normalize_chain_of_literals key nonempty literals
  · intro key value notLiteral notChain
    exact options.normalize_of_not_literal key notLiteral notChain
  · intro error normalization
    exact ⟨frameDeclarations_eq_error_iff_chain normalization,
      compileKeyframes_eq_error_iff normalization, Leaf.compile_eq_error_iff normalization⟩

/-- A width between two references, in a frame behind a color that is null, stops the leaf that
spells out the animation. -/
theorem width_between_references_stops_animation :
    let widths : List Value := [.text "var(--x)", .text "0.50PX", .text "var( --y )"]
    let frame : StyleMap := [("color", .null), ("maxWidth", .chain widths)]
    let leaf : Leaf := ⟨"animationName", "animationName", Context.empty, .keyframes [("to", frame)]⟩
    Value.texts "max-width" widths = ["var(--x)", ".50px", "var(--y)"] ∧
      Chain.Scattered (Value.texts "max-width" widths) ∧
      leaf.compile Options.default "box" [] = .error (.scatteredVariables "max-width") := by
  intro widths frame leaf
  have texts : Value.texts "max-width" widths = ["var(--x)", ".50px", "var(--y)"] := by
    decide +kernel
  have scattered : Chain.Scattered (Value.texts "max-width" widths) := by
    rw [texts]
    exact ⟨_, _, _, List.Sublist.refl _, by decide, by decide, by decide⟩
  have name : Property.canonicalName "maxWidth" = "max-width" := by decide +kernel
  obtain ⟨-, chains, -, errors⟩ := normal_form_fails_iff Options.default
  obtain ⟨framed, animated, compiled⟩ := errors (.scatteredVariables "max-width") rfl
  have literals : ∀ width ∈ widths, width.isLiteral = true := by
    simp [widths, Value.isLiteral, Value.literal?]
  have refused := ((chains "maxWidth" widths).2 (List.cons_ne_nil _ _) literals).1
  rw [name] at refused
  refine ⟨texts, scattered, ?_⟩
  apply (compiled "box" [] leaf).mpr
  refine .inr ⟨_, rfl, (animated _).mpr ?_⟩
  refine ⟨[], "to", frame, [], rfl, by simp, ⟨"to", by decide +kernel⟩, ?_⟩
  apply (framed frame).mpr
  refine ⟨[("color", .null)], "maxWidth", widths, [], rfl, ?_, by decide, refused.mpr scattered⟩
  rw [List.forall_mem_singleton]
  exact ⟨⟨[], []⟩, rfl⟩

end AtomicCss
