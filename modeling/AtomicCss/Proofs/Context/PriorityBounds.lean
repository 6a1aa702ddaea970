import AtomicCss.Proofs.Context.Nesting
import AtomicCss.Proofs.Context.Priority

/-!
Contract: how large priorities get, and what a pseudo-element weighs.

Owns:
- the ranges of the priorities of segments, properties and contexts;
- the sum of a priority in words of 32 bits, which is exact for the contexts of leaves;
- the order of rules with and without a pseudo-element.

Does not own: the order of rules under pseudo-classes and at-rules. Contexts that were not reached
through a style map have no bound.
-/

namespace AtomicCss

/-! ## Ranges -/

private theorem propertyPriority_range
    (property : String) :
    1 ≤ propertyPriority property ∧ propertyPriority property ≤ 4000 := by
  unfold propertyPriority
  cases PropertyClass.ofName property <;> decide

theorem Segment.priority_range
    (segment : Segment) :
    40 ≤ segment.priority ∧
      segment.priority ≤ 200 + 4800 * if segment.isElement then 1 else 0 := by
  cases segment with
  | atRule written =>
      show 40 ≤ 200 ∧ 200 ≤ 200 + 4800 * 0
      omega
  | pseudo written =>
      have range := pseudoClassPriority_range written
      show 40 ≤ (if isElementText written then 5000 else pseudoClassPriority written) ∧
        (if isElementText written then 5000 else pseudoClassPriority written) ≤
          200 + 4800 * if isElementText written then 1 else 0
      by_cases element : isElementText written = true
      · simp only [if_pos element]
        omega
      · simp only [if_neg element]
        omega

namespace Context

theorem priority_eq_sum
    (context : Context) :
    context.priority = (context.segments.map Segment.priority).sum := by
  obtain ⟨segments⟩ := context
  induction segments with
  | nil => rfl
  | cons segment rest inductionHypothesis =>
      rw [priority_cons, inductionHypothesis]
      rfl

private theorem priority_push
    (context : Context)
    (segment : Segment) :
    (context.push segment).priority = context.priority + segment.priority := by
  rw [priority_eq_sum, priority_eq_sum, push, List.map_append, List.sum_append]
  rfl

/-- A level counts two hundred at most, and a pseudo-element 4800 more. -/
theorem priority_le
    (context : Context) :
    context.priority ≤ 200 * context.depth + 4800 * context.elementCount := by
  obtain ⟨segments⟩ := context
  induction segments with
  | nil => exact Nat.le_refl 0
  | cons segment rest inductionHypothesis =>
      have head := segment.priority_range.2
      have elements :
          elementCount ⟨segment :: rest⟩ =
            elementCount ⟨rest⟩ + if segment.isElement then 1 else 0 :=
        List.countP_cons
      have levels : depth ⟨segment :: rest⟩ = depth ⟨rest⟩ + 1 := rfl
      rw [priority_cons, elements, levels]
      omega

private theorem le_priority_of_hasElement
    {context : Context}
    (hasElement : context.hasElement = true) :
    5000 ≤ context.priority := by
  have some : 0 < context.elementCount := (hasElement_iff context).mp hasElement
  have shares := priority_eq context
  unfold elementCount at some
  omega

/-! ## Contexts of leaves -/

private theorem IsAccepted.isWellNested
    {context : Context}
    (accepted : context.IsAccepted) :
    context.IsWellNested := by
  obtain ⟨scope, styles, leaves, leaf, flattened, member, rfl⟩ := accepted
  exact isWellNested_of_mem_flatten flattened member

private theorem IsAccepted.of_enterAll
    {keys : List String}
    {context : Context}
    (opening : ∀ key ∈ keys, OpensContext key)
    (entered : empty.enterAll keys = .ok context) :
    context.IsAccepted := by
  let spelling : ContextSpelling := ⟨keys, []⟩
  have isProperty : IsPropertyKey "color" := ⟨by decide, by decide, by decide⟩
  have allOpen : ∀ key ∈ spelling.keys, OpensContext key := by
    simpa [spelling, ContextSpelling.keys] using opening
  have single : ∀ entries, Value.null ≠ .object entries := by simp
  have flattened := spelling.flatten_styles_eq "" allOpen isProperty single
  simp only [spelling, entered, bind, Except.bind] at flattened
  exact ⟨"", _, _, _, flattened, List.mem_singleton_self _, rfl⟩

end Context

/-! ## Sums in words -/

/-- The priority of a declaration of a property in a context, in words of 32 bits: the context is
summed up from the outside, and the property is added last. -/
def rulePriority32 (property : String) (context : Context) : UInt32 :=
  UInt32.ofNat (propertyPriority property) +
    context.segments.foldl (fun sum segment => sum + UInt32.ofNat segment.priority) 0

private theorem toNat_add_of_lt
    {left right : UInt32}
    (small : left.toNat + right.toNat < 2 ^ 32) :
    (left + right).toNat = left.toNat + right.toNat := by
  rw [UInt32.toNat_add, Nat.mod_eq_of_lt small]

/-- No partial sum wraps around where the whole sum does not. -/
theorem toNat_foldl_priority
    {segments : List Segment}
    {start : UInt32}
    (small : start.toNat + (segments.map Segment.priority).sum < 2 ^ 32) :
    (segments.foldl (fun sum segment => sum + UInt32.ofNat segment.priority) start).toNat =
      start.toNat + (segments.map Segment.priority).sum := by
  induction segments generalizing start with
  | nil => rfl
  | cons segment rest inductionHypothesis =>
      rw [List.map_cons, List.sum_cons] at small ⊢
      have word : (UInt32.ofNat segment.priority).toNat = segment.priority := by
        rw [UInt32.toNat_ofNat', Nat.mod_eq_of_lt (by omega)]
      have step :
          (start + UInt32.ofNat segment.priority).toNat = start.toNat + segment.priority := by
        rw [toNat_add_of_lt (by omega), word]
      rw [List.foldl_cons, inductionHypothesis (by omega), step]
      omega

private theorem toNat_rulePriority32
    {property : String}
    {context : Context}
    (small : rulePriority property context < 2 ^ 32) :
    (rulePriority32 property context).toNat = rulePriority property context := by
  unfold rulePriority at small ⊢
  rw [Context.priority_eq_sum] at small ⊢
  have word : (UInt32.ofNat (propertyPriority property)).toNat = propertyPriority property := by
    rw [UInt32.toNat_ofNat', Nat.mod_eq_of_lt (by omega)]
  have summed :
      (context.segments.foldl
          (fun sum segment => sum + UInt32.ofNat segment.priority) (0 : UInt32)).toNat =
        (context.segments.map Segment.priority).sum := by
    rw [toNat_foldl_priority]
    · exact Nat.zero_add _
    · show 0 + (context.segments.map Segment.priority).sum < 2 ^ 32
      omega
  unfold rulePriority32
  rw [toNat_add_of_lt]
  · rw [word, summed]
  · rw [word, summed]
    exact small

/-! ## Rules of leaves -/

private theorem rulePriority_range
    (property : String)
    {context : Context}
    (wellNested : context.IsWellNested) :
    1 ≤ rulePriority property context ∧ rulePriority property context ≤ 10400 := by
  have property := propertyPriority_range property
  have bound := context.priority_le
  have elements := wellNested.elements
  have depth : context.depth ≤ 8 := wellNested.depth
  unfold rulePriority
  omega

/-- In the context of any leaf, the priority of a property is a number from 1 to 10400, and its sum
in words is exact. One more segment always adds to a priority. Of the rules of a property, one with
a pseudo-element in its context comes after those of all leaves that have none. -/
theorem priorities_bounded_and_elements_outweigh
    (property : String) :
    (∀ context : Context, context.IsAccepted →
        1 ≤ rulePriority property context ∧ rulePriority property context ≤ 10400 ∧
          (rulePriority32 property context).toNat = rulePriority property context) ∧
      (∀ (context : Context) (segment : Segment),
        rulePriority property context < rulePriority property (context.push segment)) ∧
      ∀ first second : Context, second.IsAccepted →
        first.hasElement = true → second.hasElement = false →
          rulePriority property second < rulePriority property first := by
  refine ⟨?_, ?_, ?_⟩
  · intro context accepted
    obtain ⟨positive, bounded⟩ := rulePriority_range property accepted.isWellNested
    exact ⟨positive, bounded, toNat_rulePriority32 (by omega)⟩
  · intro context segment
    have adds := segment.priority_range.1
    rw [rulePriority_lt_iff, Context.priority_push]
    omega
  · intro first second accepted hasElement hasNone
    have heavy := Context.le_priority_of_hasElement hasElement
    have none : second.elementCount = 0 := by
      have notSome := (Context.hasElement_iff second).not.mp (by simp [hasNone])
      omega
    have light := second.priority_le
    have depth : second.depth ≤ 8 := accepted.isWellNested.depth
    rw [rulePriority_lt_iff]
    omega

/-- Both bounds are reached: by a custom property outside every context, and by a width under a
pseudo-element and seven at-rules, which comes after the width under eight at-rules. -/
theorem marked_width_reaches_bound :
    let sizes := ["@media (a)", "@media (b)", "@media (c)", "@media (d)", "@media (e)",
      "@media (f)", "@media (g)"]
    let marked : Context := ⟨.pseudo "::before" :: sizes.map .atRule⟩
    let unmarked : Context := ⟨.atRule "@supports (h)" :: sizes.map .atRule⟩
    (marked.IsAccepted ∧ unmarked.IsAccepted ∧ Context.empty.IsAccepted) ∧
      (rulePriority "--gap" Context.empty = 1 ∧ rulePriority "width" marked = 10400 ∧
        (rulePriority32 "width" marked).toNat = 10400) ∧
      rulePriority "width" unmarked < rulePriority "width" marked ∧
      ∀ segment : Segment,
        rulePriority "width" marked < rulePriority "width" (marked.push segment) := by
  intro sizes marked unmarked
  have markedAccepted : marked.IsAccepted :=
    .of_enterAll (by decide : ∀ key ∈ "::before" :: sizes, OpensContext key) (by decide +kernel)
  have unmarkedAccepted : unmarked.IsAccepted :=
    .of_enterAll (by decide : ∀ key ∈ "@supports (h)" :: sizes, OpensContext key)
      (by decide +kernel)
  have emptyAccepted : Context.empty.IsAccepted :=
    .of_enterAll (by decide : ∀ key ∈ ([] : List String), OpensContext key) rfl
  obtain ⟨bounded, adds, outweighs⟩ := priorities_bounded_and_elements_outweigh "width"
  have reached : rulePriority "width" marked = 10400 := by decide
  obtain ⟨-, -, word⟩ := bounded marked markedAccepted
  exact ⟨⟨markedAccepted, unmarkedAccepted, emptyAccepted⟩,
    ⟨by decide, reached, word.trans reached⟩,
    outweighs marked unmarked unmarkedAccepted (by decide) (by decide), adds marked⟩

end AtomicCss
