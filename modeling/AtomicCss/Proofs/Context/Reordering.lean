import AtomicCss.Proofs.Sheet.ContentAddress
import AtomicCss.Proofs.Text.Order

/-!
Contract: contexts with their levels in another order.

Owns:
- the writing, the hash contribution and the priority of a context, none of which sees the order;
- the rules, custom properties and leaf outputs that follow from them.

Does not own: how a leaf comes to stand in a context, and the key it is listed under, which keeps
the order of the nested maps around it.
-/

namespace AtomicCss

namespace Context

variable {first second : Context} (reordered : first.segments.Perm second.segments)
include reordered

private theorem perm_pseudos : first.pseudos.Perm second.pseudos :=
  reordered.filterMap _

private theorem perm_atRules : first.atRules.Perm second.atRules :=
  reordered.filterMap _

private theorem modifiers_eq_of_perm : first.modifiers = second.modifiers := by
  have sameEmptiness : first.segments.isEmpty = second.segments.isEmpty := reordered.isEmpty_eq
  unfold modifiers
  rw [sameEmptiness, Text.sortStrings_eq_of_perm (perm_pseudos reordered),
    Text.sortStrings_eq_of_perm (perm_atRules reordered)]

private theorem selectorPseudos_eq_of_perm : first.selectorPseudos = second.selectorPseudos := by
  have samePseudos := perm_pseudos reordered
  unfold selectorPseudos
  rw [Text.sortStrings_eq_of_perm (samePseudos.filter _),
    Text.sortStrings_eq_of_perm (samePseudos.filter Segment.isElementText)]

private theorem priority_eq_of_perm : first.priority = second.priority := by
  obtain ⟨firstSegments⟩ := first
  obtain ⟨secondSegments⟩ := second
  simp only [priority] at reordered ⊢
  induction reordered with
  | nil => rfl
  | cons segment _ inductionHypothesis =>
      simp only [List.foldr_cons, inductionHypothesis]
  | swap segment next rest =>
      simp only [List.foldr_cons]
      omega
  | trans _ _ firstStep secondStep => exact firstStep.trans secondStep

private theorem writtenAlike_of_perm : first.WrittenAlike second :=
  { atRules := Text.sortStrings_eq_of_perm (perm_atRules reordered)
    pseudos := congrArg Text.concat (selectorPseudos_eq_of_perm reordered)
    priority := priority_eq_of_perm reordered }

end Context

/-- The rule of a declaration, with its class, its texts and its priority, does not depend on the
order of the levels around it. -/
theorem Declaration.rule_eq_of_perm
    (declaration : Declaration)
    (start : String)
    {first second : Context}
    (reordered : first.segments.Perm second.segments) :
    declaration.rule start first = declaration.rule start second := by
  have sameInput : declaration.hashInput first = declaration.hashInput second := by
    unfold hashInput classHashInput
    rw [Context.modifiers_eq_of_perm reordered]
  exact declaration.rule_eq_of_writtenAlike (Context.writtenAlike_of_perm reordered) sameInput start

theorem dynamicVariable_eq_of_perm
    (property : String)
    {first second : Context}
    (reordered : first.segments.Perm second.segments) :
    dynamicVariable property first = dynamicVariable property second := by
  have sameEmptiness : first.segments.isEmpty = second.segments.isEmpty := reordered.isEmpty_eq
  unfold dynamicVariable
  rw [sameEmptiness, Context.modifiers_eq_of_perm reordered]

/-! ## Leaves -/

/-- What a leaf compiles to, listed under another key. -/
def LeafOutput.under (key : String) (output : LeafOutput) : LeafOutput :=
  ⟨key, output.animation, output.rules, output.binding, output.warnings⟩

namespace Leaf

/-- Two leaves hold one value for one property, in contexts that differ in the order of their
levels. -/
structure SameInOtherOrder (first second : Leaf) : Prop where
  property : first.property = second.property
  value : first.value = second.value
  context : first.context.segments.Perm second.context.segments

variable {first second : Leaf} (same : first.SameInOtherOrder second) (options : Options)
include same

private theorem SameInOtherOrder.rules
    (declarations : List Declaration) :
    first.rules options declarations = second.rules options declarations := by
  apply List.map_congr_left
  intro declaration _
  exact declaration.rule_eq_of_perm options.classPrefix same.context

private theorem SameInOtherOrder.binding
    (reference : DynamicReference) :
    first.binding options reference = second.binding options reference := by
  unfold Leaf.binding
  rw [same.property]
  simp only [dynamicVariable_eq_of_perm _ same.context]

private theorem SameInOtherOrder.dynamicDeclaration :
    first.dynamicDeclaration options = second.dynamicDeclaration options := by
  unfold Leaf.dynamicDeclaration
  rw [same.property]
  simp only [dynamicVariable_eq_of_perm _ same.context]

/-- The leaves compile alike, or fail for the same reason. Only the key may differ. -/
theorem SameInOtherOrder.compile
    (single : ∀ entries, first.value ≠ .object entries)
    (scope : String)
    (parameters : List String) :
    second.compile options scope parameters =
      (first.compile options scope parameters).map (LeafOutput.under second.key) := by
  have sameRules := same.rules options
  have sameBinding := same.binding options
  have sameDynamic := same.dynamicDeclaration options
  have sameProperty := same.property
  unfold Leaf.compile
  rw [← same.value]
  cases held : first.value with
  | object entries => exact absurd held (single entries)
  | null => rfl
  | dynamic reference =>
      by_cases known : parameters.contains reference.parameter
      · simp only [known, if_true, sameRules, sameBinding, sameDynamic, sameProperty]
        rfl
      · simp only [known, Bool.false_eq_true, if_false]
        rfl
  | keyframes frames =>
      simp only [sameProperty, sameRules, bind, Except.bind]
      cases compileKeyframes options frames with
      | error error => rfl
      | ok compiled =>
          dsimp only
          cases options.normalize second.property (.text compiled.block.name) with
          | error error => rfl
          | ok normalized => rfl
  | number _ | text _ | chain _ =>
      simp only [sameProperty, sameRules, bind, Except.bind]
      cases options.normalize second.property _ with
      | error error => rfl
      | ok normalized => rfl

end Leaf

end AtomicCss
