import AtomicCss.Proofs.Style.Spelling

/-!
Contract: contexts that keep the rules of nesting.

Owns:
- the rules on a context as a whole: one pseudo-element at most, and a bounded depth;
- entering keys one after the other, taken apart into reading them and keeping these rules;
- the contexts of leaves, which keep them.

Does not own: how a broken rule is reported.
-/

namespace AtomicCss.Context

def elementCount (context : Context) : Nat :=
  context.segments.countP Segment.isElement

/-- The rules on a context as a whole. -/
structure IsWellNested (context : Context) : Prop where
  elements : context.elementCount ≤ 1
  depth : context.depth ≤ depthLimit

theorem isWellNested_empty : empty.IsWellNested :=
  ⟨by decide, by decide⟩

theorem IsWellNested.of_prefix
    {outer inner : Context}
    (wellNested : inner.IsWellNested)
    (start : outer.segments <+: inner.segments) :
    outer.IsWellNested :=
  ⟨Nat.le_trans (start.sublist.countP_le) wellNested.elements,
    Nat.le_trans start.length_le wellNested.depth⟩

section Push

variable (context : Context) (segment : Segment)

theorem elementCount_push :
    (context.push segment).elementCount =
      context.elementCount + if segment.isElement then 1 else 0 := by
  show (context.segments ++ [segment]).countP Segment.isElement = _
  rw [List.countP_append, List.countP_singleton]
  rfl

theorem depth_push :
    (context.push segment).depth = context.depth + 1 := by
  show (context.segments ++ [segment]).length = _
  rw [List.length_append, List.length_singleton]
  rfl

theorem hasElement_iff :
    context.hasElement = true ↔ 0 < context.elementCount := by
  rw [hasElement, elementCount, List.countP_pos_iff, List.any_eq_true]

variable {context}

theorem IsWellNested.push_iff
    (wellNested : context.IsWellNested) :
    (context.push segment).IsWellNested ↔
      ¬(segment.isElement = true ∧ context.hasElement = true) ∧ context.depth < depthLimit := by
  have outerElements := wellNested.elements
  have elements := elementCount_push context segment
  have depth := depth_push context segment
  rw [hasElement_iff]
  constructor
  · intro inner
    have innerElements := inner.elements
    have innerDepth := inner.depth
    refine ⟨?_, by omega⟩
    rintro ⟨isElement, another⟩
    rw [isElement, if_pos rfl] at elements
    omega
  · rintro ⟨single, shallow⟩
    refine ⟨?_, by omega⟩
    by_cases isElement : segment.isElement = true
    · have none : ¬ 0 < context.elementCount := fun another => single ⟨isElement, another⟩
      rw [if_pos isElement] at elements
      omega
    · rw [if_neg isElement] at elements
      omega

end Push

/-! ## Reading keys -/

/-- The context with the segment of a key inside, which may not repeat. No other rule is checked. -/
def extend (context : Context) (key : String) : Except Error Context := do
  let segment ← Segment.read key
  if context.contains segment then
    .error (.invalidNesting context.display (.repeated segment.text))
  else .ok (context.push segment)

def extendAll (context : Context) (keys : List String) : Except Error Context :=
  keys.foldlM extend context

theorem extend_eq_ok_iff
    (context : Context)
    (key : String)
    (inner : Context) :
    context.extend key = .ok inner ↔
      ∃ segment, Segment.read key = .ok segment ∧ segment ∉ context.segments ∧
        inner = context.push segment := by
  rw [extend, Success.bind_eq_ok_iff]
  apply exists_congr
  intro segment
  apply and_congr_right
  intro readSegment
  by_cases repeated : segment ∈ context.segments
  · simp [contains, repeated]
  · simp [contains, repeated, eq_comm]

private theorem extend_of_enter
    {context inner : Context}
    {key : String}
    (entered : context.enter key = .ok inner) :
    context.extend key = .ok inner := by
  obtain ⟨segment, readSegment, fresh, -, -, rfl⟩ := (enter_eq_ok_iff context key inner).mp entered
  exact (extend_eq_ok_iff context key _).mpr ⟨segment, readSegment, fresh, rfl⟩

theorem enter_eq_ok_iff_extend
    {context : Context}
    (wellNested : context.IsWellNested)
    (key : String)
    (inner : Context) :
    context.enter key = .ok inner ↔ context.extend key = .ok inner ∧ inner.IsWellNested := by
  rw [enter_eq_ok_iff, extend_eq_ok_iff]
  constructor
  · rintro ⟨segment, readSegment, fresh, single, shallow, rfl⟩
    exact ⟨⟨segment, readSegment, fresh, rfl⟩, (wellNested.push_iff segment).mpr ⟨single, shallow⟩⟩
  · rintro ⟨⟨segment, readSegment, fresh, rfl⟩, inside⟩
    obtain ⟨single, shallow⟩ := (wellNested.push_iff segment).mp inside
    exact ⟨segment, readSegment, fresh, single, shallow, rfl⟩

private theorem prefix_of_extendAll
    {keys : List String}
    {context final : Context}
    (extended : context.extendAll keys = .ok final) :
    context.segments <+: final.segments := by
  induction keys generalizing context with
  | nil =>
      obtain rfl := Except.ok.inj extended
      exact List.prefix_refl _
  | cons key rest inductionHypothesis =>
      rw [extendAll, List.foldlM_cons] at extended
      obtain ⟨inner, opened, restExtended⟩ := Success.bind_eq_ok_iff.mp extended
      obtain ⟨segment, -, -, rfl⟩ := (extend_eq_ok_iff context key inner).mp opened
      exact (List.prefix_append _ _).trans (inductionHypothesis restExtended)

/-- Keys are entered exactly where they are read without repetition and the context they lead to
keeps the rules. -/
theorem enterAll_eq_ok_iff
    {context : Context}
    (wellNested : context.IsWellNested)
    (keys : List String)
    (final : Context) :
    context.enterAll keys = .ok final ↔
      context.extendAll keys = .ok final ∧ final.IsWellNested := by
  induction keys generalizing context with
  | nil =>
      show Except.ok context = .ok final ↔ Except.ok context = .ok final ∧ final.IsWellNested
      constructor
      · intro same
        exact ⟨same, Except.ok.inj same ▸ wellNested⟩
      · exact And.left
  | cons key rest inductionHypothesis =>
      rw [enterAll, extendAll, List.foldlM_cons, List.foldlM_cons, Success.bind_eq_ok_iff,
        Success.bind_eq_ok_iff]
      constructor
      · rintro ⟨inner, entered, restEntered⟩
        obtain ⟨opened, inside⟩ := (enter_eq_ok_iff_extend wellNested key inner).mp entered
        obtain ⟨restOpened, kept⟩ := (inductionHypothesis inside).mp restEntered
        exact ⟨⟨inner, opened, restOpened⟩, kept⟩
      · rintro ⟨⟨inner, opened, restOpened⟩, kept⟩
        -- A context inside which a well nested one can be reached is well nested itself.
        have inside : inner.IsWellNested := kept.of_prefix (prefix_of_extendAll restOpened)
        have entered := (enter_eq_ok_iff_extend wellNested key inner).mpr ⟨opened, inside⟩
        exact ⟨inner, entered, (inductionHypothesis inside).mpr ⟨restOpened, kept⟩⟩

/-- What is said of a context that breaks the rules: a pseudo-element inside another one, or too
many levels. -/
inductive Breaks (context : Context) : NestingFault → Prop where
  | nestedElement (several : 1 < context.elementCount) : Breaks context .nestedElement
  | tooDeep (deep : depthLimit < context.depth) : Breaks context (.tooDeep depthLimit)

private theorem Breaks.of_prefix
    {outer inner : Context}
    {fault : NestingFault}
    (breaks : outer.Breaks fault)
    (start : outer.segments <+: inner.segments) :
    inner.Breaks fault := by
  cases breaks with
  | nestedElement several =>
      exact .nestedElement (Nat.lt_of_lt_of_le several start.sublist.countP_le)
  | tooDeep deep => exact .tooDeep (Nat.lt_of_lt_of_le deep start.length_le)

private theorem exists_breaks_of_enter
    {context inner : Context}
    {key : String}
    {error : Error}
    (opened : context.extend key = .ok inner)
    (failed : context.enter key = .error error) :
    ∃ path fault, error = .invalidNesting path fault ∧ inner.Breaks fault := by
  obtain ⟨segment, readSegment, fresh, rfl⟩ := (extend_eq_ok_iff context key inner).mp opened
  have elements := elementCount_push context segment
  have depth := depth_push context segment
  have notRepeated : context.contains segment = false := by simp [contains, fresh]
  simp only [enter, readSegment, notRepeated, bind, Except.bind, Bool.false_eq_true, if_false]
    at failed
  by_cases nested : (segment.isElement && context.hasElement) = true
  · rw [if_pos nested] at failed
    obtain ⟨isElement, another⟩ := Bool.and_eq_true_iff.mp nested
    rw [hasElement_iff] at another
    rw [if_pos isElement] at elements
    exact ⟨_, _, (Except.error.inj failed).symm, .nestedElement (by omega)⟩
  · rw [if_neg nested] at failed
    by_cases deep : depthLimit ≤ context.depth
    · rw [if_pos deep] at failed
      exact ⟨_, _, (Except.error.inj failed).symm, .tooDeep (by omega)⟩
    · rw [if_neg deep] at failed
      cases failed

/-- Where keys are read but not entered, the context they lead to breaks a rule. -/
theorem exists_breaks_of_enterAll
    {keys : List String}
    {context final : Context}
    {error : Error}
    (opened : context.extendAll keys = .ok final)
    (failed : context.enterAll keys = .error error) :
    ∃ path fault, error = .invalidNesting path fault ∧ final.Breaks fault := by
  induction keys generalizing context with
  | nil => cases failed
  | cons key rest inductionHypothesis =>
      rw [extendAll, List.foldlM_cons] at opened
      obtain ⟨inner, keyOpened, restOpened⟩ := Success.bind_eq_ok_iff.mp opened
      rw [enterAll, List.foldlM_cons] at failed
      cases entered : context.enter key with
      | error reason =>
          rw [entered] at failed
          obtain rfl := Except.error.inj failed
          obtain ⟨path, fault, named, breaks⟩ := exists_breaks_of_enter keyOpened entered
          exact ⟨path, fault, named, breaks.of_prefix (prefix_of_extendAll restOpened)⟩
      | ok reached =>
          have sameOpened := extend_of_enter entered
          obtain rfl : inner = reached := Except.ok.inj (keyOpened.symm.trans sameOpened)
          rw [entered] at failed
          exact inductionHypothesis restOpened failed

/-! ## Leaves -/

theorem isWellNested_of_mem_flatten
    {scope : String}
    {styles : StyleMap}
    {leaves : List Leaf}
    (flattened : flatten scope styles = .ok leaves)
    {leaf : Leaf}
    (member : leaf ∈ leaves) :
    leaf.context.IsWellNested := by
  have kept : KeptByEntering IsWellNested := by
    intro context key inner outer entered
    exact ((enter_eq_ok_iff_extend outer key inner).mp entered).2
  rw [flatten_eq_leaves] at flattened
  exact Level.kept_of_mem_leaves kept styles (.styles empty) isWellNested_empty flattened leaf
    member

end AtomicCss.Context
