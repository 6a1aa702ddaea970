import AtomicCss.CommandLine.Describe
import AtomicCss.Proofs.Compile.Spelling
import AtomicCss.Proofs.Context.Nesting
import AtomicCss.Proofs.Declaration.Longhands

/-!
Contract: the described rules of a declaration against those that are compiled.

Owns:
- the description of a declaration and the compilation of one, as two readings of the same keys;
- the description of everything that compiles, line by line;
- exactly which described declarations do not compile, and what is said of them.

Does not own: the options of the command, and values that are no literals.
-/

namespace AtomicCss

def Normalized.rules (normalized : Normalized) (start : String) (context : Context) :
    List AtomicRule :=
  normalized.declarations.map fun declaration => declaration.rule start context

def Warning.line (warning : Warning) : String :=
  "⚠️  " ++ warning.display

def Artifact.lines (artifact : Artifact) : List String :=
  artifact.id :: ("   ltr: " ++ artifact.css.ltr) ::
    (artifact.css.rtl.toList.map ("   rtl: " ++ ·) ++
      ["   priority: " ++ Nat.repr artifact.priority])

/-- The lines on an output: its warnings, then its artifacts in order. -/
def Output.lines (output : Output) : List String :=
  output.warnings.map Warning.line ++ output.artifacts.flatMap Artifact.lines

private theorem AtomicRule.describe_eq
    (rule : AtomicRule) :
    rule.describe = (Artifact.rule rule).lines := by
  obtain ⟨className, ⟨ltr, rtl⟩, priority⟩ := rule
  cases rtl with
  | none => rfl
  | some text => rfl

/-! ## Two readings of a declaration -/

section Readings

variable
  {options : Options}
  {property : String}
  {value : Value}
  {normalized : Normalized}

theorem describeDeclaration_eq
    (normal : options.normalize property value = .ok normalized)
    (keys : List String) :
    describeDeclaration options property value keys = (do
      let context ← Context.empty.extendAll keys
      .ok (normalized.warnings.map Warning.line ++
        ((normalized.rules options.classPrefix context).map .rule).flatMap Artifact.lines)) := by
  have described : AtomicRule.describe = fun rule => (Artifact.rule rule).lines :=
    funext AtomicRule.describe_eq
  have extended : contextOf keys = Context.empty.extendAll keys := rfl
  unfold describeDeclaration
  rw [extended, normal, described]
  cases Context.empty.extendAll keys with
  | error error => rfl
  | ok context =>
      show Except.ok (_ ++ (normalized.rules options.classPrefix context).flatMap _) = .ok _
      rw [List.flatMap_map]
      rfl

/-- A leaf whose value has a normal form compiles to the rules of that form. -/
theorem Leaf.compile_of_normal
    {leaf : Leaf}
    (normal : options.normalize leaf.property leaf.value = .ok normalized)
    (scope : String)
    (parameters : List String) :
    leaf.compile options scope parameters =
      .ok ⟨leaf.key, none, normalized.rules options.classPrefix leaf.context, none,
        normalized.warnings⟩ := by
  obtain ⟨key, property, context, value⟩ := leaf
  cases value with
  | number _ | text _ | chain _ =>
      simp only [compile, normal, bind, Except.bind]
      rfl
  | null | dynamic _ | keyframes _ | object _ => cases normal

theorem compileDefinition_literal_eq
    (normal : options.normalize property value = .ok normalized)
    {literal : Literal}
    (isLiteral : value.literal? = some literal)
    (scope : String)
    (parameters : List String)
    (isProperty : IsPropertyKey property)
    (spelling : ContextSpelling)
    (opening : ∀ key ∈ spelling.keys, OpensContext key) :
    (compileDefinition options (spelling.definition scope parameters property value)).map
        (fun output => (output.artifacts, output.warnings)) = (do
      let context ← Context.empty.enterAll spelling.keys
      let registry ← Registry.empty.insertAll
        ((normalized.rules options.classPrefix context).map .rule)
      .ok (registry.artifacts, normalized.warnings)) := by
  have single : ∀ entries, value ≠ .object entries := by
    rintro entries rfl
    cases isLiteral
  have flattened := spelling.flatten_styles_eq scope opening isProperty single
  have entering :
      Context.empty.enterAll spelling.keys = (do
        let outer ← Context.empty.enterAll spelling.outer
        outer.enterAll spelling.inner) :=
    List.foldlM_append
  rw [entering, ContextSpelling.definition]
  cases outerEntered : Context.empty.enterAll spelling.outer with
  | error error =>
      rw [outerEntered] at flattened
      rw [compileDefinition_of_flatten_error options parameters flattened]
      rfl
  | ok outer =>
      simp only [outerEntered, bind, Except.bind] at flattened ⊢
      cases innerEntered : outer.enterAll spelling.inner with
      | error error =>
          rw [innerEntered] at flattened
          rw [compileDefinition_of_flatten_error options parameters flattened]
          rfl
      | ok context =>
          rw [innerEntered] at flattened
          rw [compileDefinition_of_single_leaf options flattened,
            Leaf.compile_of_normal normal]
          simp only [bind, Except.bind, LeafOutput.artifacts, Option.toList_none, List.map_nil,
            List.nil_append]
          cases Registry.empty.insertAll
            ((normalized.rules options.classPrefix context).map .rule) with
          | error error => rfl
          | ok registry => rfl

private theorem nodup_rules_of_literal
    (normal : options.normalize property value = .ok normalized)
    {literal : Literal}
    (isLiteral : value.literal? = some literal)
    (context : Context) :
    ((normalized.rules options.classPrefix context).map Artifact.rule).Nodup := by
  obtain ⟨same, sameNormal, declarations⟩ :=
    options.exists_normalize_of_literal property isLiteral
  obtain rfl : normalized = same := Except.ok.inj (normal.symm.trans sameNormal)
  have ruleInjective : Function.Injective Artifact.rule := fun _ _ => Artifact.rule.inj
  apply List.Nodup.map ruleInjective
  rw [Normalized.rules, declarations]
  exact nodup_rules_normalizeLiteral options _ literal options.classPrefix context

theorem distinct_rules_iff
    (rules : List AtomicRule) :
    Keyed.Distinct Artifact.id (rules.map .rule) ↔ (rules.map AtomicRule.className).Nodup := by
  rw [Keyed.Distinct, List.map_map]
  rfl

/-- What a literal compiles to, where it does: all rules of its declarations, in order. -/
theorem compileDefinition_literal_eq_ok_iff
    (normal : options.normalize property value = .ok normalized)
    {literal : Literal}
    (isLiteral : value.literal? = some literal)
    (scope : String)
    (parameters : List String)
    (isProperty : IsPropertyKey property)
    (spelling : ContextSpelling)
    (opening : ∀ key ∈ spelling.keys, OpensContext key)
    (emitted : List Artifact × List Warning) :
    (∃ output,
      compileDefinition options (spelling.definition scope parameters property value) =
          .ok output ∧
        (output.artifacts, output.warnings) = emitted) ↔
      ∃ context, Context.empty.extendAll spelling.keys = .ok context ∧ context.IsWellNested ∧
        ((normalized.rules options.classPrefix context).map AtomicRule.className).Nodup ∧
        ((normalized.rules options.classPrefix context).map .rule, normalized.warnings) =
          emitted := by
  rw [← Success.map_eq_ok_iff,
    compileDefinition_literal_eq normal isLiteral scope parameters isProperty spelling opening,
    Success.bind_eq_ok_iff]
  apply exists_congr
  intro context
  have nodup := nodup_rules_of_literal normal isLiteral context
  rw [Context.enterAll_eq_ok_iff Context.isWellNested_empty, Success.bind_eq_ok_iff, and_assoc]
  simp only [Registry.insertAll_empty_eq_ok_iff nodup, distinct_rules_iff, and_assoc,
    exists_and_left, exists_eq_left, Except.ok.injEq]

/-- Why a declaration is refused that has rules in a context. -/
inductive RefusedFor (context : Context) (rules : List AtomicRule) : Error → Prop where
  | nesting (path : String) {fault : NestingFault} (breaks : context.Breaks fault) :
      RefusedFor context rules (.invalidNesting path fault)
  | collision (id existing incoming : String)
      (shared : ¬(rules.map AtomicRule.className).Nodup) :
      RefusedFor context rules (.nameCollision id existing incoming)

private theorem refusedFor_of_compileDefinition
    (normal : options.normalize property value = .ok normalized)
    {literal : Literal}
    (isLiteral : value.literal? = some literal)
    (scope : String)
    (parameters : List String)
    (isProperty : IsPropertyKey property)
    (spelling : ContextSpelling)
    (opening : ∀ key ∈ spelling.keys, OpensContext key)
    {context : Context}
    (extended : Context.empty.extendAll spelling.keys = .ok context)
    {error : Error}
    (failed :
      compileDefinition options (spelling.definition scope parameters property value) =
        .error error) :
    RefusedFor context (normalized.rules options.classPrefix context) error := by
  have refused :=
    compileDefinition_literal_eq normal isLiteral scope parameters isProperty spelling opening
  rw [failed] at refused
  cases entered : Context.empty.enterAll spelling.keys with
  | error reason =>
      rw [entered] at refused
      obtain rfl := Except.error.inj refused
      obtain ⟨path, fault, rfl, breaks⟩ := Context.exists_breaks_of_enterAll extended entered
      exact .nesting path breaks
  | ok reached =>
      have reachedExtended :=
        ((Context.enterAll_eq_ok_iff Context.isWellNested_empty _ _).mp entered).1
      obtain rfl : context = reached := Except.ok.inj (extended.symm.trans reachedExtended)
      simp only [entered, bind, Except.bind] at refused
      cases inserted : Registry.empty.insertAll
          ((normalized.rules options.classPrefix context).map .rule) with
      | ok registry =>
          rw [inserted] at refused
          cases refused
      | error reason =>
          rw [inserted] at refused
          obtain rfl := Except.error.inj refused
          obtain ⟨id, existing, incoming, rfl⟩ := Registry.exists_collision_of_insertAll inserted
          refine .collision id existing incoming ?_
          intro names
          have nodup := nodup_rules_of_literal normal isLiteral context
          have accepted :=
            (Registry.insertAll_empty_eq_ok_iff nodup _).mpr
              ⟨(distinct_rules_iff _).mpr names, rfl⟩
          rw [inserted] at accepted
          cases accepted

end Readings

/-! ## Agreement -/

/-- A declaration that compiles is described as it is compiled. For every literal under a property
key, in a context written in any way, the lines are those on the warnings and on the artifacts of
the output, in order. -/
theorem compiled_declaration_described
    (compiler : Compiler)
    (scope : String)
    (parameters : List String)
    {property : String}
    (isProperty : IsPropertyKey property)
    {value : Value}
    {literal : Literal}
    (isLiteral : value.literal? = some literal)
    (spelling : ContextSpelling)
    (opening : ∀ key ∈ spelling.keys, OpensContext key)
    {output : Output}
    (compiled :
      compileDefinition compiler.options (spelling.definition scope parameters property value) =
        .ok output) :
    describeDeclaration compiler.options property value spelling.keys = .ok output.lines := by
  obtain ⟨normalized, normal, -⟩ :=
    compiler.options.exists_normalize_of_literal property isLiteral
  obtain ⟨context, extended, -, -, same⟩ :=
    (compileDefinition_literal_eq_ok_iff normal isLiteral scope parameters isProperty spelling
      opening _).mp ⟨output, compiled, rfl⟩
  obtain ⟨sameArtifacts, sameWarnings⟩ := Prod.mk.inj same
  rw [describeDeclaration_eq normal, extended, Output.lines, ← sameArtifacts, ← sameWarnings]
  rfl

/-- A margin in four parts, one of them in a unit that is not known, for hovering in print: a
warning and four rules, two of which turn with the writing direction. -/
theorem hovered_margin_in_print_described :
    let spelling : ContextSpelling := ⟨[":hover", "@media print"], []⟩
    let value : Value := .text "1px 2zz 3px 4px"
    IsPropertyKey "margin" ∧ (∀ key ∈ spelling.keys, OpensContext key) ∧
      ∃ output,
        compileDefinition Options.default (spelling.definition "box" [] "margin" value) =
            .ok output ∧
          output.warnings.length = 1 ∧
          output.artifacts.map (·.css.rtl.isSome) = [false, true, false, true] ∧
          describeDeclaration Options.default "margin" value spelling.keys = .ok output.lines := by
  intro spelling value
  have isProperty : IsPropertyKey "margin" := ⟨by decide, by decide, by decide⟩
  have opening : ∀ key ∈ spelling.keys, OpensContext key := by decide
  refine ⟨isProperty, opening, ?_⟩
  have emitted :
      ((compileDefinition Options.default (spelling.definition "box" [] "margin" value)).map
        fun output => (output.warnings.length, output.artifacts.map (·.css.rtl.isSome))) =
          .ok (1, [false, true, false, true]) := by
    decide +kernel
  obtain ⟨output, compiled, counted⟩ := Success.map_eq_ok_iff.mp emitted
  obtain ⟨warned, turned⟩ := Prod.mk.inj counted
  refine ⟨output, compiled, warned, turned, ?_⟩
  exact compiled_declaration_described ⟨Options.default, by decide⟩ "box" [] isProperty rfl
    spelling opening compiled

/-- A declaration that is described compiles exactly where its context keeps the rules of nesting
and its rules have different names. Otherwise it is refused for breaking one of these. -/
theorem described_declaration_compiles_iff
    (compiler : Compiler)
    (scope : String)
    (parameters : List String)
    {property : String}
    (isProperty : IsPropertyKey property)
    {value : Value}
    {literal : Literal}
    (isLiteral : value.literal? = some literal)
    (spelling : ContextSpelling)
    (opening : ∀ key ∈ spelling.keys, OpensContext key)
    {lines : List String}
    (described :
      describeDeclaration compiler.options property value spelling.keys = .ok lines) :
    ∃ context normalized,
      contextOf spelling.keys = .ok context ∧
      compiler.options.normalize property value = .ok normalized ∧
      ((∃ output,
        compileDefinition compiler.options (spelling.definition scope parameters property value) =
          .ok output) ↔
        context.IsWellNested ∧
          ((normalized.rules compiler.options.classPrefix context).map
            AtomicRule.className).Nodup) ∧
      ∀ error,
        compileDefinition compiler.options (spelling.definition scope parameters property value) =
            .error error →
          RefusedFor context (normalized.rules compiler.options.classPrefix context) error := by
  obtain ⟨normalized, normal, -⟩ :=
    compiler.options.exists_normalize_of_literal property isLiteral
  rw [describeDeclaration_eq normal] at described
  obtain ⟨context, extended, -⟩ := Success.bind_eq_ok_iff.mp described
  have onlyContext {reached : Context}
      (reachedExtended : Context.empty.extendAll spelling.keys = .ok reached) :
      context = reached :=
    Except.ok.inj (extended.symm.trans reachedExtended)
  have compiles_iff :=
    compileDefinition_literal_eq_ok_iff normal isLiteral scope parameters isProperty spelling
      opening
  refine ⟨context, normalized, extended, normal, ⟨?_, ?_⟩, ?_⟩
  · rintro ⟨output, compiled⟩
    obtain ⟨reached, reachedExtended, wellNested, names, -⟩ :=
      (compiles_iff _).mp ⟨output, compiled, rfl⟩
    obtain rfl := onlyContext reachedExtended
    exact ⟨wellNested, names⟩
  · rintro ⟨wellNested, names⟩
    obtain ⟨output, compiled, -⟩ :=
      (compiles_iff _).mpr ⟨context, extended, wellNested, names, rfl⟩
    exact ⟨output, compiled⟩
  · intro error failed
    exact refusedFor_of_compileDefinition normal isLiteral scope parameters isProperty spelling
      opening extended failed

/-- Described and refused: a pseudo-element inside another one, nine levels, and a gap whose two
longhands share a name. -/
theorem elements_levels_and_gap_refused :
    let elements : ContextSpelling := ⟨["::before", "::after"], []⟩
    let levels : ContextSpelling :=
      ⟨["@media (a)", "@media (b)", "@media (c)", "@media (d)", "@media (e)", "@media (f)",
        "@media (g)", "@media (h)", "@media (i)"], []⟩
    let plain : ContextSpelling := ⟨[], []⟩
    ∀ entry ∈ [("color", "red", elements), ("color", "red", levels),
        ("gap", "32326px 87834px", plain)],
      IsPropertyKey entry.1 ∧ (∀ key ∈ entry.2.2.keys, OpensContext key) ∧
        (∃ lines,
          describeDeclaration Options.default entry.1 (.text entry.2.1) entry.2.2.keys =
            .ok lines) ∧
        ¬∃ output,
          compileDefinition Options.default
            (entry.2.2.definition "box" [] entry.1 (.text entry.2.1)) = .ok output := by
  intro elements levels plain
  -- A description needs no more than a context, and a refusal one of the two conditions broken.
  have refused (property written : String) (spelling : ContextSpelling)
      (isProperty : IsPropertyKey property)
      (opening : ∀ key ∈ spelling.keys, OpensContext key)
      (context : Context)
      (extended : contextOf spelling.keys = .ok context)
      (broken : ∀ normalized,
        Options.default.normalize property (.text written) = .ok normalized →
          ¬(context.IsWellNested ∧
            ((normalized.rules Options.default.classPrefix context).map
              AtomicRule.className).Nodup)) :
      IsPropertyKey property ∧ (∀ key ∈ spelling.keys, OpensContext key) ∧
        (∃ lines,
          describeDeclaration Options.default property (.text written) spelling.keys =
            .ok lines) ∧
        ¬∃ output,
          compileDefinition Options.default
            (spelling.definition "box" [] property (.text written)) = .ok output := by
    have described :
        ∃ lines,
          describeDeclaration Options.default property (.text written) spelling.keys =
            .ok lines := by
      unfold describeDeclaration
      rw [extended]
      exact ⟨_, rfl⟩
    obtain ⟨lines, success⟩ := described
    refine ⟨isProperty, opening, ⟨lines, success⟩, ?_⟩
    intro compiled
    obtain ⟨reached, normalized, reachedRead, normal, compiles_iff, -⟩ :=
      described_declaration_compiles_iff ⟨Options.default, by decide⟩ "box" [] isProperty rfl
        spelling opening success
    obtain rfl : context = reached := Except.ok.inj (extended.symm.trans reachedRead)
    exact broken normalized normal (compiles_iff.mp compiled)
  have color : IsPropertyKey "color" := ⟨by decide, by decide, by decide⟩
  have gap : IsPropertyKey "gap" := ⟨by decide, by decide, by decide⟩
  simp only [List.forall_mem_cons]
  refine ⟨?_, ?_, ?_, by simp⟩
  · apply refused "color" "red" elements color (by decide)
      ⟨[.pseudo "::before", .pseudo "::after"]⟩ (by decide +kernel)
    intro normalized normal kept
    exact absurd kept.1.elements (by decide)
  · apply refused "color" "red" levels color (by decide) ⟨levels.keys.map .atRule⟩
      (by decide +kernel)
    intro normalized normal kept
    exact absurd kept.1.depth (by decide)
  · apply refused "gap" "32326px 87834px" plain gap (by decide) Context.empty rfl
    intro normalized normal kept
    obtain rfl := Except.ok.inj normal
    exact absurd kept.2 (by decide +kernel)

end AtomicCss
