import AtomicCss.Proofs.Context.Entering
import AtomicCss.Proofs.Property.Sides
import AtomicCss.Proofs.Registry.Cascade
import Mathlib.Algebra.GroupWithZero.Nat

/-!
Contract: what contexts add to the priority of a rule.

Owns:
- the range of the priorities of pseudo-classes;
- the priority of a context by the kinds of its segments;
- the exact condition for a rule under pseudo-classes to come before one under at-rules.

Does not own: contexts with a pseudo-element, which outweighs all else. The priorities of stacked
pseudo-classes add up, so that the condition is not met by all contexts.
-/

namespace AtomicCss

namespace Segment

def isClass : Segment → Bool
  | .pseudo written => !isElementText written
  | .atRule _ => false

theorem pseudoClassPriority_range
    (written : String) :
    40 ≤ pseudoClassPriority written ∧ pseudoClassPriority written ≤ 170 := by
  have table :
      (pseudoClassPriorities.all fun entry => 40 ≤ entry.2 && entry.2 ≤ 170) = true := by
    decide
  unfold pseudoClassPriority
  dsimp only
  cases found :
      pseudoClassPriorities.lookup (String.ofList (written.toList.takeWhile (· != '('))) with
  | none => decide
  | some priority =>
      have listed := List.all_eq_true.mp table _ (mem_of_table_lookup found)
      simpa using listed

private theorem isElement_of_isClass
    {segment : Segment}
    (isClass : segment.isClass = true) :
    segment.isElement = false := by
  cases segment with
  | atRule written => rfl
  | pseudo written => simpa [Segment.isClass, Segment.isElement] using isClass

private theorem priority_range_of_isClass
    {segment : Segment}
    (isClass : segment.isClass = true) :
    40 ≤ segment.priority ∧ segment.priority ≤ 170 := by
  cases segment with
  | atRule written => cases isClass
  | pseudo written =>
      have notElement : isElementText written = false := isElement_of_isClass isClass
      simp only [priority, notElement, Bool.false_eq_true, if_false]
      exact pseudoClassPriority_range written

end Segment

namespace Context

/-! ## Priorities by kind -/

def classPriority (context : Context) : Nat :=
  ((context.segments.filter Segment.isClass).map Segment.priority).sum

/-- Pseudo-classes, at least one, and nothing else. -/
def IsClassOnly (context : Context) : Prop :=
  context.segments ≠ [] ∧ ∀ segment ∈ context.segments, segment.isClass = true

/-- At-rules, at least one, with or without pseudo-classes. -/
def IsGuarded (context : Context) : Prop :=
  context.atRules ≠ [] ∧ context.hasElement = false

/-- The context of a leaf of some style map that can be flattened. -/
def IsAccepted (context : Context) : Prop :=
  ∃ scope styles leaves leaf,
    flatten scope styles = .ok leaves ∧ leaf ∈ leaves ∧ leaf.context = context

section Cons

variable (segment : Segment) (rest : List Segment)

theorem priority_cons :
    priority ⟨segment :: rest⟩ = segment.priority + priority ⟨rest⟩ :=
  rfl

private theorem atRules_cons_atRule
    (written : String) :
    atRules ⟨.atRule written :: rest⟩ = written :: atRules ⟨rest⟩ :=
  rfl

private theorem atRules_cons_pseudo
    (written : String) :
    atRules ⟨.pseudo written :: rest⟩ = atRules ⟨rest⟩ :=
  rfl

theorem classPriority_cons :
    classPriority ⟨segment :: rest⟩ =
      (if segment.isClass then segment.priority else 0) + classPriority ⟨rest⟩ := by
  unfold classPriority
  cases isClass : segment.isClass with
  | true => simp [isClass]
  | false => simp [isClass]

end Cons

/-- Every kind of segment has its share in the priority of a context. -/
theorem priority_eq
    (context : Context) :
    context.priority =
      200 * context.atRules.length + context.classPriority +
        5000 * context.segments.countP Segment.isElement := by
  obtain ⟨segments⟩ := context
  induction segments with
  | nil => rfl
  | cons segment rest inductionHypothesis =>
      rw [priority_cons, inductionHypothesis, classPriority_cons, List.countP_cons]
      cases segment with
      | atRule written =>
          rw [atRules_cons_atRule, List.length_cons]
          simp only [Segment.priority, Segment.isClass, Segment.isElement, Bool.false_eq_true,
            if_false]
          omega
      | pseudo written =>
          rw [atRules_cons_pseudo]
          by_cases element : Segment.isElementText written = true
          · simp only [Segment.priority, Segment.isClass, Segment.isElement, element, Bool.not_true,
              Bool.false_eq_true, if_true, if_false]
            omega
          · rw [Bool.not_eq_true] at element
            simp only [Segment.priority, Segment.isClass, Segment.isElement, element,
              Bool.not_false, Bool.false_eq_true, if_true, if_false]
            omega

private theorem IsGuarded.priority_eq
    {context : Context}
    (guarded : context.IsGuarded) :
    context.priority = 200 * context.atRules.length + context.classPriority := by
  have noElement : context.segments.countP Segment.isElement = 0 := by
    rw [List.countP_eq_zero]
    intro segment member isElement
    have hasElement : context.hasElement = true := List.any_eq_true.mpr ⟨segment, member, isElement⟩
    rw [guarded.2] at hasElement
    cases hasElement
  rw [Context.priority_eq, noElement]
  omega

private theorem IsGuarded.atRules_pos
    {context : Context}
    (guarded : context.IsGuarded) :
    1 ≤ context.atRules.length :=
  List.length_pos_iff.mpr guarded.1

namespace IsClassOnly

variable {context : Context} (only : context.IsClassOnly)
include only

private theorem classPriority_eq_sum :
    context.classPriority = (context.segments.map Segment.priority).sum := by
  unfold classPriority
  rw [List.filter_eq_self.mpr only.2]

private theorem priority_eq :
    context.priority = context.classPriority := by
  have noAtRule : context.atRules = [] := by
    rw [atRules, List.filterMap_eq_nil_iff]
    intro segment member
    cases segment with
    | pseudo written => rfl
    | atRule written => cases only.2 _ member
  have noElement : context.segments.countP Segment.isElement = 0 := by
    rw [List.countP_eq_zero]
    intro segment member
    rw [Segment.isElement_of_isClass (only.2 segment member)]
    exact Bool.false_ne_true
  rw [Context.priority_eq, noAtRule, noElement]
  simp

private theorem classPriority_range :
    40 * context.depth ≤ context.classPriority ∧ context.classPriority ≤ 170 * context.depth := by
  rw [only.classPriority_eq_sum, depth]
  obtain ⟨-, isClass⟩ := only
  obtain ⟨segments⟩ := context
  dsimp only at isClass ⊢
  induction segments with
  | nil => simp
  | cons segment rest inductionHypothesis =>
      obtain ⟨headClass, restClass⟩ := List.forall_mem_cons.mp isClass
      have headRange := Segment.priority_range_of_isClass headClass
      have restRange := inductionHypothesis restClass
      simp only [List.map_cons, List.sum_cons, List.length_cons]
      omega

private theorem depth_pos :
    1 ≤ context.depth :=
  List.length_pos_iff.mpr only.1

end IsClassOnly

theorem isAccepted_print : IsAccepted ⟨[.atRule "@media print"]⟩ :=
  ⟨"", [("@media print", .object [("color", .text "red")])],
    [⟨"@media print_color", "color", ⟨[.atRule "@media print"]⟩, .text "red"⟩], _, rfl,
    List.mem_singleton_self _, rfl⟩

theorem isGuarded_print : IsGuarded ⟨[.atRule "@media print"]⟩ :=
  ⟨by decide, by decide⟩

end Context

/-! ## Rules of one property -/

theorem rulePriority_lt_iff
    (property : String)
    (first second : Context) :
    rulePriority property first < rulePriority property second ↔ first.priority < second.priority :=
  Nat.add_lt_add_iff_left

/-- Rules of one property under pseudo-classes alone and under at-rules. Both come after the rule
outside every context. The first comes before the second exactly where its pseudo-classes add up to
less than the other context, two hundred for each at-rule; so it comes before the rules under all
at-rules exactly where they add up to less than two hundred. One pseudo-class does; five do not. -/
theorem classes_before_atRules_iff
    (property : String)
    {classes guarded : Context}
    (onlyClasses : classes.IsClassOnly)
    (isGuarded : guarded.IsGuarded) :
    let share := 200 * guarded.atRules.length + guarded.classPriority
    rulePriority property Context.empty < rulePriority property classes ∧
      rulePriority property Context.empty < rulePriority property guarded ∧
      (rulePriority property classes < rulePriority property guarded ↔
        classes.classPriority < share) ∧
      ((∀ other : Context, other.IsAccepted → other.IsGuarded →
          rulePriority property classes < rulePriority property other) ↔
        classes.classPriority < 200) ∧
      (classes.depth = 1 → classes.classPriority < 200) ∧
      (5 ≤ classes.depth → 200 ≤ classes.classPriority) ∧
      ∀ (registry : Registry) (start : String) (first second : Declaration),
        first.property = property → second.property = property →
        let classRule := Artifact.rule (first.rule start classes)
        let guardedRule := Artifact.rule (second.rule start guarded)
        classRule ∈ registry.artifacts → guardedRule ∈ registry.artifacts →
          (classes.classPriority < share → [classRule, guardedRule].Sublist registry.sorted) ∧
            (share < classes.classPriority → [guardedRule, classRule].Sublist registry.sorted) := by
  intro share
  have classesPriority := onlyClasses.priority_eq
  have guardedPriority : guarded.priority = share := isGuarded.priority_eq
  have range := onlyClasses.classPriority_range
  have someClass := onlyClasses.depth_pos
  have someAtRule := isGuarded.atRules_pos
  have emptyPriority : Context.empty.priority = 0 := rfl
  refine ⟨?_, ?_, ?_, ?_, ?_, ?_, ?_⟩
  · rw [rulePriority_lt_iff]
    omega
  · rw [rulePriority_lt_iff]
    omega
  · rw [rulePriority_lt_iff, classesPriority, guardedPriority]
  · constructor
    · intro law
      -- One at-rule alone is the lowest context of its kind.
      have atPrint := law _ Context.isAccepted_print Context.isGuarded_print
      rw [rulePriority_lt_iff, classesPriority] at atPrint
      exact atPrint
    · intro small other _ otherGuarded
      have otherAtRule := otherGuarded.atRules_pos
      rw [rulePriority_lt_iff, classesPriority, otherGuarded.priority_eq]
      omega
  · intro single
    omega
  · intro several
    omega
  · intro registry start first second firstProperty secondProperty classRule guardedRule
      classMember guardedMember
    have classRank : classRule.priority = propertyPriority property + classes.classPriority := by
      rw [← classesPriority, ← firstProperty]
      rfl
    have guardedRank : guardedRule.priority = propertyPriority property + share := by
      rw [← guardedPriority, ← secondProperty]
      rfl
    constructor
    · intro lower
      apply Registry.pair_sublist_sorted classMember guardedMember
      omega
    · intro higher
      apply Registry.pair_sublist_sorted guardedMember classMember
      omega

/-- A link that is hovered over and has the focus outweighs a rule for printed pages: its rule comes
later in every style sheet. -/
theorem hovered_focus_after_print :
    let classes : Context := ⟨[.pseudo ":hover", .pseudo ":focus"]⟩
    let guarded : Context := ⟨[.atRule "@media print"]⟩
    classes.IsAccepted ∧ guarded.IsAccepted ∧ classes.IsClassOnly ∧ guarded.IsGuarded ∧
      rulePriority "color" classes = 3280 ∧ rulePriority "color" guarded = 3200 ∧
      ¬ rulePriority "color" classes < rulePriority "color" guarded ∧
      ∀ registry : Registry,
        let classRule := Artifact.rule (Declaration.rule ⟨"color", ["red"], false⟩ "x" classes)
        let guardedRule := Artifact.rule (Declaration.rule ⟨"color", ["blue"], false⟩ "x" guarded)
        classRule ∈ registry.artifacts → guardedRule ∈ registry.artifacts →
          [guardedRule, classRule].Sublist registry.sorted := by
  intro classes guarded
  have accepted : classes.IsAccepted :=
    ⟨"", [("color", .object [(":hover", .object [(":focus", .text "red")])])],
      [⟨"color", "color", classes, .text "red"⟩], _, rfl, List.mem_singleton_self _, rfl⟩
  have onlyClasses : classes.IsClassOnly := ⟨by decide, by decide⟩
  obtain ⟨-, -, before, -, -, -, sorted⟩ :=
    classes_before_atRules_iff "color" onlyClasses Context.isGuarded_print
  refine ⟨accepted, Context.isAccepted_print, onlyClasses, Context.isGuarded_print, by decide,
    by decide, ?_, ?_⟩
  · rw [before]
    decide
  · intro registry classRule guardedRule classMember guardedMember
    exact (sorted registry "x" _ _ rfl rfl classMember guardedMember).2 (by decide)

end AtomicCss
