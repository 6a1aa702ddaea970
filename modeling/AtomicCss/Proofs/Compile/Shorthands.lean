import AtomicCss.Proofs.CommandLine.Describing
import AtomicCss.Proofs.Declaration.PlainWords
import AtomicCss.Proofs.Property.Spelling

/-!
Contract: a shorthand compiles as the longhands it stands for.

Owns:
- the literals that a shorthand is split for, and what they set its longhands to;
- the compilation of several literals in one context, as one list of rules;
- the agreement of a shorthand with a namespace that sets each longhand on its own.

Does not own: the keys that classes are listed under, which are those that were written.
-/

namespace AtomicCss

def Literal.value : Literal → Value
  | .number magnitude => .number magnitude
  | .text written => .text written

private theorem Literal.literal?_value
    (literal : Literal) :
    literal.value.literal? = some literal := by
  cases literal with
  | number _ | text _ => rfl

private theorem Literal.value_ne_object
    (literal : Literal)
    (entries : StyleMap) :
    literal.value ≠ .object entries := by
  cases literal with
  | number _ | text _ => simp [value]

/-! ## Splitting -/

namespace Shorthand

def words (written : String) : List String :=
  (Text.splitWords written.toList).map String.ofList

/-- A literal that a shorthand of this name is split for: a number, or a text with at least one word
and at most as many as the shorthand takes, which is no radius with a slash. -/
def Splits (name : String) (shorthand : Shorthand) : Literal → Prop
  | .number _ => True
  | .text written =>
    (1 ≤ (words written).length ∧ (words written).length ≤ shorthand.limit) ∧
      ¬(name = "border-radius" ∧ '/' ∈ written.toList)

instance (name : String) (shorthand : Shorthand) (literal : Literal) :
    Decidable (shorthand.Splits name literal) :=
  match literal with
  | .number _ => inferInstanceAs (Decidable True)
  | .text _ => inferInstanceAs (Decidable ((_ ∧ _) ∧ ¬(_ ∧ _)))

/-- What a literal sets the longhands to: the number each time, or the word that each is given. -/
def assigned? (shorthand : Shorthand) : Literal → Option (List (String × Literal))
  | .number magnitude =>
    some (shorthand.longhands.map fun longhand => (longhand, .number magnitude))
  | .text written =>
    (shorthand.distribute (words written)).map (List.map fun pair => (pair.1, .text pair.2))

theorem exists_distribute_iff
    {α : Type}
    (shorthand : Shorthand)
    (values : List α) :
    (∃ pairs, shorthand.distribute values = some pairs) ↔
      1 ≤ values.length ∧ values.length ≤ shorthand.limit := by
  cases shorthand with
  | box top right bottom left =>
      rcases values with _ | ⟨_, _ | ⟨_, _ | ⟨_, _ | ⟨_, _ | ⟨_, _⟩⟩⟩⟩⟩
      all_goals simp [distribute, limit, longhands]
  | axis first second =>
      rcases values with _ | ⟨_, _ | ⟨_, _ | ⟨_, _⟩⟩⟩
      all_goals simp [distribute, limit, longhands]

end Shorthand

/-! ## Names of properties -/

def isPropertyChar (character : Char) : Bool :=
  character.isLower || character = '-'

/-- A name that starts with a small letter and has none but small letters and dashes. -/
def isPropertyName (name : String) : Bool :=
  match name.toList with
  | [] => false
  | first :: rest => first.isLower && rest.all isPropertyChar

private theorem isNameChar_of_isPropertyChar
    {character : Char}
    (plain : isPropertyChar character = true) :
    isNameChar character = true := by
  simp only [isPropertyChar, isNameChar, Char.isAlphanum, Text.isAlpha_iff, Bool.or_eq_true]
    at plain ⊢
  tauto

private theorem not_isUpper_of_isPropertyChar
    {character : Char}
    (plain : isPropertyChar character = true) :
    character.isUpper = false := by
  have passed := passes_of_isNameChar
    (fun other => !isPropertyChar other || !other.isUpper)
    (by decide) (isNameChar_of_isPropertyChar plain)
  simpa [plain] using passed

section PropertyNames

variable {name : String} (plain : isPropertyName name = true)
include plain

private theorem exists_chars_of_isPropertyName :
    ∃ first rest, name.toList = first :: rest ∧ first.isLower = true ∧
      ∀ character ∈ first :: rest, isPropertyChar character = true := by
  unfold isPropertyName at plain
  cases chars : name.toList with
  | nil => simp [chars] at plain
  | cons first rest =>
      simp only [chars, Bool.and_eq_true] at plain
      refine ⟨first, rest, rfl, plain.1, ?_⟩
      rw [List.forall_mem_cons]
      exact ⟨by simp [isPropertyChar, plain.1], List.all_eq_true.mp plain.2⟩

/-- Such a name is a property where a style map holds styles. -/
theorem isPropertyKey_of_isPropertyName :
    IsPropertyKey name := by
  obtain ⟨first, rest, chars, lower, all⟩ := exists_chars_of_isPropertyName plain
  have start : name.toList.head? = some first := by rw [chars, List.head?_cons]
  have solid : Text.isBlank first = false :=
    isBlank_of_isNameChar (isNameChar_of_isPropertyChar (all first List.mem_cons_self))
  refine ⟨?_, ?_, ?_⟩
  · intro pseudo
    have colon := Text.head?_of_startsWith_colon (KeyKind.startsWith_of_ofKey_eq_pseudo pseudo)
    obtain rfl := Option.some.inj (start.symm.trans colon)
    exact absurd lower (by decide)
  · intro atRule
    have sign := Text.head?_of_startsWith_at (KeyKind.startsWith_of_ofKey_eq_atRule atRule)
    obtain rfl := Option.some.inj (start.symm.trans sign)
    exact absurd lower (by decide)
  · intro blank
    have trimmed := Text.head?_trim start solid
    rw [blank] at trimmed
    cases trimmed

/-- Such a name is its own dashed spelling. -/
theorem dashed_of_isPropertyName :
    Property.dashed name = name := by
  obtain ⟨first, rest, chars, -, all⟩ := exists_chars_of_isPropertyName plain
  apply Property.dashed_of_isSmall
  rw [chars]
  intro character member
  exact not_isUpper_of_isPropertyChar (all character member)

theorem canonicalName_of_isPropertyName
    (present : Property.alias? name = none) :
    Property.canonicalName name = name := by
  rw [Property.canonicalName, dashed_of_isPropertyName plain, present, Option.getD_none]

end PropertyNames

namespace Shorthand

/-- The names of the table are those of their own properties, and no longhand is split further. -/
theorem plain_of_ofName?
    {name : String}
    {shorthand : Shorthand}
    (found : ofName? name = some shorthand) :
    (isPropertyName name = true ∧ Property.alias? name = none) ∧
      ∀ longhand ∈ shorthand.longhands,
        (isPropertyName longhand = true ∧ Property.alias? longhand = none) ∧
          ofName? longhand = none := by
  have tested :
      table.all fun entry =>
        isPropertyName entry.1 && (Property.alias? entry.1).isNone &&
          entry.2.longhands.all fun longhand =>
            isPropertyName longhand && (Property.alias? longhand).isNone &&
              (ofName? longhand).isNone := by
    decide +kernel
  simpa using List.all_eq_true.mp tested _ (mem_of_table_lookup found)

theorem exists_assigned
    {name : String}
    {shorthand : Shorthand}
    {literal : Literal}
    (splits : shorthand.Splits name literal) :
    ∃ assigned, shorthand.assigned? literal = some assigned ∧
      assigned.map Prod.fst = shorthand.longhands := by
  cases literal with
  | number magnitude =>
      refine ⟨_, rfl, ?_⟩
      rw [List.map_map]
      exact List.map_id _
  | text written =>
      obtain ⟨pairs, distributed⟩ := (exists_distribute_iff shorthand (words written)).mpr splits.1
      refine ⟨_, by rw [assigned?, distributed, Option.map_some], ?_⟩
      rw [List.map_map]
      exact Options.map_fst_distribute distributed

end Shorthand

namespace Options

variable (options : Options)

/-- A shorthand is split into its longhands with what they are set to. -/
theorem expand_of_splits
    (expanding : options.expandShorthands = true)
    {name : String}
    {shorthand : Shorthand}
    (found : Shorthand.ofName? name = some shorthand)
    {literal : Literal}
    (splits : shorthand.Splits name literal)
    {assigned : List (String × Literal)}
    (assigns : shorthand.assigned? literal = some assigned) :
    (options.expand name literal).1 = assigned := by
  rw [expand, if_pos expanding, found]
  cases literal with
  | number magnitude => exact Option.some.inj assigns
  | text written =>
      obtain ⟨pairs, distributed, rfl⟩ := Option.map_eq_some_iff.mp assigns
      obtain ⟨⟨someWord, -⟩, slashless⟩ := splits
      have slashFree : (name = "border-radius" && written.toList.contains '/') = false := by
        simpa using slashless
      have filled : (Shorthand.words written).isEmpty = false := by
        rw [List.isEmpty_eq_false_iff]
        exact List.length_pos_iff.mp someWord
      show (expandText name written shorthand).1 = _
      rw [expandText, ← Shorthand.words, slashFree, filled, distributed]
      rfl

/-- A longhand has one declaration. -/
theorem declarations_of_unsplit
    {name : String}
    (unsplit : Shorthand.ofName? name = none)
    (literal : Literal) :
    (options.normalizeLiteral name literal).declarations =
      [options.directed name [literal.canonical name]] := by
  simp [normalizeLiteral, expand, unsplit]

end Options

/-! ## Several literals in one context -/

/-- The style map that gives several properties their values in a context written this way. -/
def ContextSpelling.around (spelling : ContextSpelling) (entries : StyleMap) : StyleMap :=
  nested spelling.outer
    (entries.map fun entry => (entry.1, conditional spelling.inner entry.2))

def literalEntries (pairs : List (String × Literal)) : StyleMap :=
  pairs.map fun pair => (pair.1, pair.2.value)

def literalLeaf (start : String) (context : Context) (pair : String × Literal) : Leaf :=
  ⟨start ++ pair.1, pair.1, context, pair.2.value⟩

/-- The rules of literals in a context, one property after the other. -/
def literalRules (options : Options) (context : Context) (pairs : List (String × Literal)) :
    List Artifact :=
  pairs.flatMap fun pair =>
    (options.normalizeLiteral (Property.canonicalName pair.1) pair.2).declarations.map
      fun declaration => .rule (declaration.rule options.classPrefix context)

private theorem Level.leaves_around
    (scope : String)
    {pairs : List (String × Literal)}
    (nonempty : pairs ≠ [])
    (properties : ∀ pair ∈ pairs, IsPropertyKey pair.1)
    {keys : List String}
    (opening : ∀ key ∈ keys, OpensContext key)
    (context : Context) :
    (styles context).leaves scope
        ((literalEntries pairs).map fun entry =>
          (entry.1, ContextSpelling.conditional keys entry.2)) = (do
      let inner ← context.enterAll keys
      .ok (pairs.map (literalLeaf context.keyStart inner))) := by
  have visited (pair : String × Literal) (isProperty : IsPropertyKey pair.1) :
      (styles context).visit scope pair.1 (ContextSpelling.conditional keys pair.2.value) = (do
        let inner ← context.enterAll keys
        .ok [literalLeaf context.keyStart inner pair]) := by
    rw [← leaves_singleton]
    exact leaves_property scope isProperty pair.2.value_ne_object opening context
  rw [leaves]
  cases entered : context.enterAll keys with
  | error error =>
      -- The first property meets the fault.
      cases pairs with
      | nil => exact absurd rfl nonempty
      | cons pair rest =>
          rw [literalEntries, List.map_cons, List.map_cons, walk,
            visited pair (properties pair List.mem_cons_self), entered]
          rfl
  | ok inner =>
      clear nonempty
      induction pairs with
      | nil => rfl
      | cons pair rest inductionHypothesis =>
          obtain ⟨isProperty, restProperties⟩ := List.forall_mem_cons.mp properties
          rw [literalEntries, List.map_cons, List.map_cons, walk, visited pair isProperty, entered,
            ← literalEntries, inductionHypothesis restProperties]
          rfl

private theorem ContextSpelling.flatten_around
    (scope : String)
    (spelling : ContextSpelling)
    (opening : ∀ key ∈ spelling.keys, OpensContext key)
    {pairs : List (String × Literal)}
    (nonempty : pairs ≠ [])
    (properties : ∀ pair ∈ pairs, IsPropertyKey pair.1) :
    flatten scope (spelling.around (literalEntries pairs)) = (do
      let outer ← Context.empty.enterAll spelling.outer
      let inner ← outer.enterAll spelling.inner
      .ok (pairs.map (literalLeaf outer.keyStart inner))) := by
  obtain ⟨outerOpen, innerOpen⟩ := List.forall_mem_append.mp opening
  rw [flatten_eq_leaves, around, Level.leaves_nested scope outerOpen]
  cases Context.empty.enterAll spelling.outer with
  | error error => rfl
  | ok outer => exact Level.leaves_around scope nonempty properties innerOpen outer

private theorem Registry.insertAll_append
    (registry : Registry)
    (first second : List Artifact) :
    registry.insertAll (first ++ second) = (do
      let extended ← registry.insertAll first
      extended.insertAll second) := by
  induction first generalizing registry with
  | nil => rfl
  | cons artifact rest inductionHypothesis =>
      rw [List.cons_append, insertAll, insertAll]
      cases registry.insert artifact with
      | error error => rfl
      | ok inserted => exact inductionHypothesis inserted.1

theorem literalRules_cons
    (options : Options)
    (context : Context)
    (pair : String × Literal)
    (rest : List (String × Literal)) :
    literalRules options context (pair :: rest) =
      literalRules options context [pair] ++ literalRules options context rest := by
  simp [literalRules]

/-- Going through the leaves of literals inserts their rules, and nothing else can fail. -/
theorem registry_foldlM_literals
    (options : Options)
    (scope start : String)
    (parameters : List String)
    (context : Context)
    (pairs : List (String × Literal))
    (state : NamespaceState) :
    ((pairs.map (literalLeaf start context)).foldlM
        (NamespaceState.step options scope parameters) state).map NamespaceState.registry =
      state.registry.insertAll (literalRules options context pairs) := by
  induction pairs generalizing state with
  | nil => rfl
  | cons pair rest inductionHypothesis =>
      obtain ⟨normalized, normal, declarations⟩ :=
        options.exists_normalize_of_literal pair.1 pair.2.literal?_value
      let leaf := literalLeaf start context pair
      have leafNormal : options.normalize leaf.property leaf.value = .ok normalized := normal
      have compiled := Leaf.compile_of_normal leafNormal scope parameters
      have rules :
          literalRules options context [pair] =
            (normalized.rules options.classPrefix (literalLeaf start context pair).context).map
              .rule := by
        rw [Normalized.rules, declarations, List.map_map, literalRules, List.flatMap_singleton]
        rfl
      rw [literalRules_cons, Registry.insertAll_append, rules, List.map_cons, List.foldlM_cons,
        NamespaceState.step, compiled]
      simp only [bind, Except.bind, NamespaceState.absorb, LeafOutput.artifacts,
        Option.toList_none, List.map_nil, List.nil_append]
      cases state.registry.insertAll _ with
      | error error => rfl
      | ok extended => exact inductionHypothesis _

/-- The artifacts of a namespace whose leaves are literals in one context. -/
theorem artifacts_compileDefinition_of_leaves
    (options : Options)
    {scope start : String}
    (parameters : List String)
    {styles : StyleMap}
    {context : Context}
    {pairs : List (String × Literal)}
    (flattened : flatten scope styles = .ok (pairs.map (literalLeaf start context))) :
    (compileDefinition options [(scope, ⟨parameters, styles⟩)]).map Output.artifacts = (do
      let registry ← Registry.empty.insertAll (literalRules options context pairs)
      .ok registry.artifacts) := by
  have absorbed :=
    registry_foldlM_literals options scope start parameters context pairs
      ⟨⟨[], parameters, []⟩, Registry.empty, []⟩
  simp only [compileDefinition, List.foldlM_cons, List.foldlM_nil, DefinitionState.step,
    flattened, DefinitionState.start, bind, Except.bind]
  rw [← absorbed]
  cases (pairs.map (literalLeaf start context)).foldlM
      (NamespaceState.step options scope parameters)
      ⟨⟨[], parameters, []⟩, Registry.empty, []⟩ with
  | error error => rfl
  | ok finished => rfl

/-- The artifacts of literals in one context, or the fault that comes first. -/
theorem artifacts_compileDefinition_literals
    (options : Options)
    (scope : String)
    (parameters : List String)
    (spelling : ContextSpelling)
    (opening : ∀ key ∈ spelling.keys, OpensContext key)
    {pairs : List (String × Literal)}
    (nonempty : pairs ≠ [])
    (properties : ∀ pair ∈ pairs, IsPropertyKey pair.1) :
    (compileDefinition options
        [(scope, ⟨parameters, spelling.around (literalEntries pairs)⟩)]).map Output.artifacts = (do
      let context ← Context.empty.enterAll spelling.keys
      let registry ← Registry.empty.insertAll (literalRules options context pairs)
      .ok registry.artifacts) := by
  have flattened := spelling.flatten_around scope opening nonempty properties
  have entering :
      Context.empty.enterAll spelling.keys = (do
        let outer ← Context.empty.enterAll spelling.outer
        outer.enterAll spelling.inner) :=
    List.foldlM_append
  rw [entering]
  cases outerEntered : Context.empty.enterAll spelling.outer with
  | error error =>
      rw [outerEntered] at flattened
      rw [compileDefinition_of_flatten_error options parameters flattened]
      rfl
  | ok outer =>
      simp only [outerEntered, bind, Except.bind] at flattened ⊢
      cases innerEntered : outer.enterAll spelling.inner with
      | error error =>
          rw [innerEntered] at flattened
          rw [compileDefinition_of_flatten_error options parameters flattened]
          rfl
      | ok context =>
          rw [innerEntered] at flattened
          exact artifacts_compileDefinition_of_leaves options parameters flattened

private theorem nodup_literalRules_singleton
    (options : Options)
    (context : Context)
    (pair : String × Literal) :
    (literalRules options context [pair]).Nodup := by
  have ruleInjective : Function.Injective Artifact.rule := fun _ _ => Artifact.rule.inj
  have nodup :=
    (nodup_rules_normalizeLiteral options (Property.canonicalName pair.1) pair.2
      options.classPrefix context).map ruleInjective
  rw [List.map_map] at nodup
  rw [literalRules, List.flatMap_singleton]
  exact nodup

/-! ## Agreement -/

def longhandRule (options : Options) (context : Context) (pair : String × Literal) : Artifact :=
  .rule ((options.directed pair.1 [pair.2.canonical pair.1]).rule options.classPrefix context)

section Agreement

variable {options : Options} (expanding : options.expandShorthands = true)
variable {name : String} {shorthand : Shorthand} (found : Shorthand.ofName? name = some shorthand)
variable {literal : Literal} (splits : shorthand.Splits name literal)

include found in
private theorem literalRules_longhands
    {assigned : List (String × Literal)}
    (names : assigned.map Prod.fst = shorthand.longhands)
    (context : Context) :
    literalRules options context assigned = assigned.map (longhandRule options context) := by
  have each : ∀ pair ∈ assigned,
      (options.normalizeLiteral (Property.canonicalName pair.1) pair.2).declarations.map
          (fun declaration => Artifact.rule (declaration.rule options.classPrefix context)) =
        [longhandRule options context pair] := by
    intro pair member
    have isLonghand : pair.1 ∈ shorthand.longhands := names ▸ List.mem_map_of_mem member
    obtain ⟨⟨plain, present⟩, unsplit⟩ := (Shorthand.plain_of_ofName? found).2 pair.1 isLonghand
    rw [canonicalName_of_isPropertyName plain present, options.declarations_of_unsplit unsplit]
    rfl
  rw [literalRules, List.flatMap_congr each, List.map_eq_flatMap]

include expanding found splits in
private theorem literalRules_shorthand
    {assigned : List (String × Literal)}
    (assigns : shorthand.assigned? literal = some assigned)
    (context : Context) :
    literalRules options context [(name, literal)] =
      assigned.map (longhandRule options context) := by
  obtain ⟨plain, present⟩ := (Shorthand.plain_of_ofName? found).1
  have declarations :
      (options.normalizeLiteral name literal).declarations =
        assigned.map fun pair => options.directed pair.1 [pair.2.canonical pair.1] := by
    rw [← options.expand_of_splits expanding found splits assigns]
    rfl
  rw [literalRules, List.flatMap_singleton, canonicalName_of_isPropertyName plain present,
    declarations, List.map_map]
  rfl

/-- A shorthand equals its longhands. With expansion switched on, whatever the other settings are,
take a shorthand of the table and a literal that it is split for, in a context written in any way.
The literal sets the longhands of the table, in order; the namespace that sets them one by one fails
for the same reason, or has the same artifacts in the same order: one rule for each longhand,
wherever the context keeps the rules of nesting and the rules have different names. -/
theorem shorthand_compiles_as_longhands
    {options : Options}
    (expanding : options.expandShorthands = true)
    {name : String}
    {shorthand : Shorthand}
    (found : Shorthand.ofName? name = some shorthand)
    {literal : Literal}
    (splits : shorthand.Splits name literal)
    (scope : String)
    (parameters : List String)
    (spelling : ContextSpelling)
    (opening : ∀ key ∈ spelling.keys, OpensContext key) :
    ∃ assigned,
      shorthand.assigned? literal = some assigned ∧
      assigned.map Prod.fst = shorthand.longhands ∧
      (compileDefinition options (spelling.definition scope parameters name literal.value)).map
          Output.artifacts =
        (compileDefinition options
          [(scope, ⟨parameters, spelling.around (literalEntries assigned)⟩)]).map
          Output.artifacts ∧
      ∀ artifacts,
        (compileDefinition options (spelling.definition scope parameters name literal.value)).map
            Output.artifacts = .ok artifacts ↔
          ∃ context, Context.empty.enterAll spelling.keys = .ok context ∧
            Keyed.Distinct Artifact.id (assigned.map (longhandRule options context)) ∧
            assigned.map (longhandRule options context) = artifacts := by
  obtain ⟨⟨plain, present⟩, longhandsPlain⟩ := Shorthand.plain_of_ofName? found
  obtain ⟨assigned, assigns, names⟩ := Shorthand.exists_assigned splits
  have isProperty : IsPropertyKey name := isPropertyKey_of_isPropertyName plain
  have areProperties : ∀ pair ∈ assigned, IsPropertyKey pair.1 := by
    intro pair member
    have isLonghand : pair.1 ∈ shorthand.longhands := names ▸ List.mem_map_of_mem member
    exact isPropertyKey_of_isPropertyName (longhandsPlain pair.1 isLonghand).1.1
  have nonempty : assigned ≠ [] := by
    rintro rfl
    cases shorthand with
    | box _ _ _ _ | axis _ _ => cases names
  have shorthandArtifacts :=
    artifacts_compileDefinition_literals options scope parameters spelling opening
      (List.cons_ne_nil (name, literal) []) (List.forall_mem_singleton.mpr isProperty)
  have longhandArtifacts :=
    artifacts_compileDefinition_literals options scope parameters spelling opening nonempty
      areProperties
  simp only [literalRules_shorthand expanding found splits assigns] at shorthandArtifacts
  simp only [literalRules_longhands found names] at longhandArtifacts
  refine ⟨assigned, assigns, names, shorthandArtifacts.trans longhandArtifacts.symm, ?_⟩
  intro artifacts
  have literals :
      (compileDefinition options (spelling.definition scope parameters name literal.value)).map
        Output.artifacts = _ := shorthandArtifacts
  rw [literals, Success.bind_eq_ok_iff]
  apply exists_congr
  intro context
  have nodup : (assigned.map (longhandRule options context)).Nodup := by
    rw [← literalRules_shorthand expanding found splits assigns]
    exact nodup_literalRules_singleton options context (name, literal)
  rw [Success.bind_eq_ok_iff]
  simp only [Registry.insertAll_empty_eq_ok_iff nodup, and_assoc, exists_and_left,
    exists_eq_left, Except.ok.injEq]

/-- A margin of two lengths, for hovering, has the four rules of its sides set one by one. -/
theorem hovered_margin_compiles_as_sides :
    let spelling : ContextSpelling := ⟨[":hover"], []⟩
    let sides : List (String × Literal) :=
      [("margin-top", .text "0.5px"), ("margin-right", .text "2px"),
        ("margin-bottom", .text "0.5px"), ("margin-left", .text "2px")]
    Options.default.expandShorthands = true ∧
      (∀ key ∈ spelling.keys, OpensContext key) ∧
      ∃ output,
        compileDefinition Options.default
            (spelling.definition "box" [] "margin" (.text " 0.5px  2px")) = .ok output ∧
          output.artifacts.length = 4 ∧
          (compileDefinition Options.default
              [("box", ⟨[], spelling.around (literalEntries sides)⟩)]).map Output.artifacts =
            .ok output.artifacts := by
  intro spelling sides
  have expanding : Options.default.expandShorthands = true := rfl
  have opening : ∀ key ∈ spelling.keys, OpensContext key := by decide
  have found :
      Shorthand.ofName? "margin" =
        some (.box "margin-top" "margin-right" "margin-bottom" "margin-left") := by
    decide
  have splits :
      Shorthand.Splits "margin"
        (.box "margin-top" "margin-right" "margin-bottom" "margin-left") (.text " 0.5px  2px") := by
    decide +kernel
  have assigns :
      (Shorthand.box "margin-top" "margin-right" "margin-bottom" "margin-left").assigned?
        (.text " 0.5px  2px") = some sides := by
    decide +kernel
  obtain ⟨assigned, sameAssigns, -, same, -⟩ :=
    shorthand_compiles_as_longhands expanding found splits "box" [] spelling opening
  obtain rfl := Option.some.inj (assigns.symm.trans sameAssigns)
  have emitted :
      ((compileDefinition Options.default
        (spelling.definition "box" [] "margin" (.text " 0.5px  2px"))).map
          fun output => output.artifacts.length) = .ok 4 := by
    decide +kernel
  obtain ⟨output, compiled, counted⟩ := Success.map_eq_ok_iff.mp emitted
  refine ⟨expanding, opening, output, compiled, counted, ?_⟩
  have single : (Literal.text " 0.5px  2px").value = .text " 0.5px  2px" := rfl
  rw [← same, single, compiled]
  rfl

end Agreement

end AtomicCss
