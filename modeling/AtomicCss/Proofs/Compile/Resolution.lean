import AtomicCss.Proofs.Compile.Refusals
import AtomicCss.Proofs.Compile.Shorthands

/-!
Contract: the property that a key stands for, whether its value is known or not.

Owns:
- the values that are given to longhands, and those that stay whole;
- the one declaration of a value that stays whole;
- the agreement of that declaration with the one of a dynamic value.

Does not own: the longhands of a value that is split.
-/

namespace AtomicCss

/-- Values that a property is split for: it is a shorthand, these are wanted in parts, and the value
is a literal that has the parts. -/
def Options.Expands (options : Options) (name : String) (value : Value) : Prop :=
  options.expandShorthands = true ∧
    ∃ shorthand literal, Shorthand.ofName? name = some shorthand ∧
      value.literal? = some literal ∧ shorthand.Splits name literal

/-- The texts that a property is declared with for a value that stays whole: the one of a literal,
or those of a chain with its references folded. -/
def Value.composed? (name : String) : Value → Option (List String)
  | .chain items => (Chain.compose name (texts name items)).toOption
  | value => value.literal?.map fun literal => [literal.canonical name]

namespace Options

variable (options : Options)

/-! ## Values that stay whole -/

private theorem expand_of_not_splits
    {name : String}
    {literal : Literal}
    (whole : options.expandShorthands = true → ∀ shorthand,
      Shorthand.ofName? name = some shorthand → ¬shorthand.Splits name literal) :
    (options.expand name literal).1 = [(name, literal)] := by
  unfold expand
  split
  · rfl
  · rename_i shorthand found
    have unsplit : ¬shorthand.Splits name literal := by
      split at found
      · rename_i expanding
        exact whole expanding shorthand found
      · cases found
    cases literal with
    | number magnitude => exact absurd trivial unsplit
    | text written =>
        show (expandText name written shorthand).1 = _
        unfold expandText
        simp only
        split
        · rfl
        · rename_i kept
          rw [← Shorthand.words]
          split
          · -- Words that can be given out would have been.
            rename_i pairs distributed
            have bounds :=
              (Shorthand.exists_distribute_iff shorthand _).mp ⟨pairs, distributed⟩
            refine absurd ⟨bounds, ?_⟩ unsplit
            simp only [Bool.or_eq_true, not_or] at kept
            simpa using kept.1
          · rfl

/-- A value that stays whole has one declaration, made of its texts. -/
theorem exists_composed_of_not_expands
    {options : Options}
    {key : String}
    {value : Value}
    {normalized : Normalized}
    (accepted : options.normalize key value = .ok normalized)
    (whole : ¬options.Expands (Property.canonicalName key) value) :
    ∃ texts, value.composed? (Property.canonicalName key) = some texts ∧
      normalized.declarations = [options.directed (Property.canonicalName key) texts] := by
  cases value with
  | number _ | text _ =>
      refine ⟨_, rfl, ?_⟩
      obtain rfl := Except.ok.inj accepted
      show (options.normalizeLiteral _ _).declarations = _
      rw [normalizeLiteral, options.expand_of_not_splits]
      · rfl
      · intro expanding shorthand found splits
        exact whole ⟨expanding, shorthand, _, found, rfl, splits⟩
  | chain items =>
      obtain ⟨chained, normalChain, rfl⟩ := Success.map_eq_ok_iff.mp accepted
      obtain ⟨texts, composed, single⟩ := options.exists_compose_of_normalizeChain _ normalChain
      exact ⟨texts, by simp [Value.composed?, composed, Except.toOption], single⟩
  | null | dynamic _ | keyframes _ | object _ => cases accepted

/-- A value that is split has several declarations. -/
theorem length_declarations_of_expands
    {options : Options}
    {key : String}
    {value : Value}
    {normalized : Normalized}
    (accepted : options.normalize key value = .ok normalized)
    (expands : options.Expands (Property.canonicalName key) value) :
    normalized.declarations.length = 2 ∨ normalized.declarations.length = 4 := by
  obtain ⟨expanding, shorthand, literal, found, isLiteral, splits⟩ := expands
  obtain ⟨same, sameAccepted, declarations⟩ := options.exists_normalize_of_literal key isLiteral
  obtain rfl : normalized = same := Except.ok.inj (accepted.symm.trans sameAccepted)
  obtain ⟨assigned, assigns, names⟩ := Shorthand.exists_assigned splits
  have length : normalized.declarations.length = shorthand.longhands.length := by
    rw [declarations, normalizeLiteral, options.expand_of_splits expanding found splits assigns,
      List.length_map, ← names, List.length_map]
  rw [length]
  exact shorthand.length_longhands

/-! ## The property that is declared -/

private theorem name_resolveProperty
    (key : String) :
    (options.resolveProperty key).name = options.declaredName (Property.canonicalName key) := by
  unfold resolveProperty declaredName
  simp only
  cases options.logical? (Property.canonicalName key) with
  | none => rfl
  | some logical => rfl

/-- A declaration follows the writing direction if the property of its key does, or if one of its
texts is a physical keyword. -/
theorem directional_directed_iff_resolveProperty
    (key : String)
    (texts : List String) :
    (options.directed (Property.canonicalName key) texts).directional = true ↔
      (options.resolveProperty key).directional = true ∨
        options.logicalProperties = true ∧ ∃ text ∈ texts,
          (Property.logicalKeyword? (options.resolveProperty key).name text).isSome = true := by
  unfold directed resolveProperty
  simp only
  cases found : options.logical? (Property.canonicalName key) with
  | some logical => simp
  | none =>
      -- The property keeps its name, under which the keywords are looked up.
      cases wanted : options.logicalProperties with
      | false => simp [logicalKeyword?, wanted]
      | true => simp [logicalKeyword?, wanted]

end Options

/-! ## Known and dynamic values -/

def Leaf.CompilesTo (options : Options) (scope : String) (parameters : List String) (leaf : Leaf)
    (declaration : Declaration) : Prop :=
  ∃ output, leaf.compile options scope parameters = .ok output ∧
    output.rules = [declaration.rule options.classPrefix leaf.context]

private theorem Leaf.compilesTo_of_normal
    {options : Options}
    {leaf : Leaf}
    {normalized : Normalized}
    (normal : options.normalize leaf.property leaf.value = .ok normalized)
    {declaration : Declaration}
    (single : normalized.declarations = [declaration])
    (scope : String)
    (parameters : List String) :
    leaf.CompilesTo options scope parameters declaration := by
  refine ⟨_, Leaf.compile_of_normal normal scope parameters, ?_⟩
  rw [Normalized.rules, single]
  rfl

private theorem Leaf.compilesTo_dynamicDeclaration
    (options : Options)
    (scope : String)
    {parameters : List String}
    {leaf : Leaf}
    {reference : DynamicReference}
    (dynamic : leaf.value = .dynamic reference)
    (declared : reference.parameter ∈ parameters) :
    leaf.CompilesTo options scope parameters (leaf.dynamicDeclaration options) := by
  have listed : parameters.contains reference.parameter = true :=
    List.contains_iff_mem.mpr declared
  unfold CompilesTo compile
  simp only [dynamic, listed, if_true]
  exact ⟨_, rfl, rfl⟩

/-- A key stands for one property, whether its value is known or dynamic. A value with a normal form
has one declaration exactly if it is not split. That declaration is of the property that the key is
resolved to. It follows the writing direction exactly if that property does or one of its texts,
after references are folded, is a keyword with a logical counterpart and these are wanted. In every
context, a dynamic value of the key compiles as well, to a rule of the same property with the same
priority. -/
theorem known_and_dynamic_values_resolve_alike
    {options : Options}
    {key : String}
    {value : Value}
    {normalized : Normalized}
    (accepted : options.normalize key value = .ok normalized) :
    let name := Property.canonicalName key
    let resolved := options.resolveProperty key
    (normalized.declarations.length = 1 ↔ ¬options.Expands name value) ∧
    (¬options.Expands name value → ∃ declaration texts,
      normalized.declarations = [declaration] ∧
      value.composed? name = some texts ∧
      declaration.property = resolved.name ∧
      (declaration.directional = true ↔
        resolved.directional = true ∨
          options.logicalProperties = true ∧
            ∃ text ∈ texts, (Property.logicalKeyword? resolved.name text).isSome = true) ∧
      ∀ scope parameters label context reference, reference.parameter ∈ parameters →
        (Leaf.mk label key context value).CompilesTo options scope parameters declaration ∧
        ∃ dynamic,
          (Leaf.mk label key context (.dynamic reference)).CompilesTo options scope parameters
            dynamic ∧
          dynamic.property = declaration.property ∧
          dynamic.directional = resolved.directional ∧
          (dynamic.rule options.classPrefix context).priority =
            (declaration.rule options.classPrefix context).priority) := by
  intro name resolved
  have single (whole : ¬options.Expands name value) :=
    Options.exists_composed_of_not_expands accepted whole
  refine ⟨⟨?_, ?_⟩, ?_⟩
  · intro one expands
    have several := Options.length_declarations_of_expands accepted expands
    omega
  · intro whole
    obtain ⟨texts, -, declarations⟩ := single whole
    rw [declarations, List.length_singleton]
  · intro whole
    obtain ⟨texts, composed, declarations⟩ := single whole
    have property : (options.directed name texts).property = resolved.name := by
      rw [options.property_directed, ← options.name_resolveProperty]
    refine ⟨options.directed name texts, texts, declarations, composed, property, ?_, ?_⟩
    · exact options.directional_directed_iff_resolveProperty key texts
    · intro scope parameters label context reference declared
      refine ⟨Leaf.compilesTo_of_normal accepted declarations scope parameters, _,
        Leaf.compilesTo_dynamicDeclaration options scope rfl declared, property.symm, rfl, ?_⟩
      show rulePriority resolved.name context = rulePriority _ context
      rw [property]

/-- A keyword after a reference turns its declaration with the page, while a dynamic value of the
same key does not turn; both are of the same property and have the same priority. -/
theorem aligned_chain_beside_dynamic_alignment :
    let chain : Value := .chain [.text "var(--side)", .text "left"]
    let declaration : Declaration := ⟨"text-align", ["var(--side)", "start"], true⟩
    let context : Context := ⟨[.pseudo ":hover"]⟩
    let leaf : Leaf := ⟨"textAlign", "textAlign", context, .dynamic ⟨"side", none⟩⟩
    Options.default.normalize "textAlign" chain = .ok ⟨[declaration], []⟩ ∧
    ¬Options.default.Expands (Property.canonicalName "textAlign") chain ∧
    ∃ dynamic, leaf.CompilesTo Options.default "card" ["side"] dynamic ∧
      dynamic.property = "text-align" ∧ dynamic.directional = false ∧
      (dynamic.rule "x" context).priority = (declaration.rule "x" context).priority := by
  intro chain declaration context leaf
  have accepted : Options.default.normalize "textAlign" chain = .ok ⟨[declaration], []⟩ := by
    decide +kernel
  have whole : ¬Options.default.Expands (Property.canonicalName "textAlign") chain := by
    rintro ⟨-, _, _, -, isLiteral, -⟩
    cases isLiteral
  obtain ⟨-, resolution⟩ := known_and_dynamic_values_resolve_alike accepted
  obtain ⟨declared, -, single, -, -, -, everywhere⟩ := resolution whole
  obtain rfl : declared = declaration := (List.singleton_inj.mp single).symm
  obtain ⟨-, dynamic, compiles, property, directional, priority⟩ :=
    everywhere "card" ["side"] "textAlign" context ⟨"side", none⟩ List.mem_cons_self
  have unturned : (Options.default.resolveProperty "textAlign").directional = false := by
    decide +kernel
  exact ⟨accepted, whole, dynamic, compiles, property, directional.trans unturned, priority⟩

end AtomicCss
