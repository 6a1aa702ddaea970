import AtomicCss.Proofs.Context.Entering
import Mathlib.Data.List.Nodup

/-!
Contract: the ways to write a property in a context.

Owns:
- keys that nest legally, in any order;
- the style map that spells a context partly as nested maps and partly as conditions;
- the one leaf of such a map.

Does not own: what the leaf compiles to.
-/

namespace AtomicCss

/-! ## Keys that nest -/

/-- A key that starts as those of contexts do. -/
def OpensContext (key : String) : Prop :=
  Text.startsWith ":" key = true ∨ Text.startsWith "@" key = true

instance (key : String) : Decidable (OpensContext key) :=
  inferInstanceAs (Decidable (_ ∨ _))

/-- Keys that open contexts, one inside the other: each is read as a segment, no segment repeats, at
most one is a pseudo-element, and they do not go too deep. -/
structure NestsLegally (keys : List String) : Prop where
  opening : ∀ key ∈ keys, OpensContext key
  segments : ∀ key ∈ keys, ∃ segment, Segment.read key = .ok segment
  distinct : (keys.map Text.trim).Nodup
  elements : (keys.filter fun key => Segment.isElementText (Text.trim key)).length ≤ 1
  depth : keys.length ≤ Context.depthLimit

theorem NestsLegally.of_perm
    {first second : List String}
    (legal : NestsLegally first)
    (reordered : first.Perm second) :
    NestsLegally second :=
  { opening := fun key member => legal.opening key (reordered.mem_iff.mpr member)
    segments := fun key member => legal.segments key (reordered.mem_iff.mpr member)
    distinct := (reordered.map Text.trim).nodup_iff.mp legal.distinct
    elements := (reordered.filter _).length_eq ▸ legal.elements
    depth := reordered.length_eq ▸ legal.depth }

theorem NestsLegally.of_sublist
    {keys fewer : List String}
    (legal : NestsLegally keys)
    (sublist : fewer.Sublist keys) :
    NestsLegally fewer :=
  { opening := fun key member => legal.opening key (sublist.subset member)
    segments := fun key member => legal.segments key (sublist.subset member)
    distinct := legal.distinct.sublist (sublist.map Text.trim)
    elements := Nat.le_trans (sublist.filter _).length_le legal.elements
    depth := Nat.le_trans sublist.length_le legal.depth }

def readSegments (keys : List String) : List Segment :=
  keys.filterMap fun key => (Segment.read key).toOption

private theorem mem_readSegments
    {keys : List String}
    {segment : Segment}
    (member : segment ∈ readSegments keys) :
    ∃ key ∈ keys, Segment.read key = .ok segment := by
  obtain ⟨key, keyMember, found⟩ := List.mem_filterMap.mp member
  refine ⟨key, keyMember, ?_⟩
  cases success : Segment.read key with
  | error error => simp [success, Except.toOption] at found
  | ok other =>
      simp only [success, Except.toOption, Option.some_inj] at found
      rw [found]

namespace Segment

private theorem text_of_read
    {key : String}
    {segment : Segment}
    (success : read key = .ok segment) :
    segment.text = Text.trim key := by
  rcases read_eq_ok_cases success with ⟨same, -⟩ | ⟨same, -⟩
  · rw [same, text]
  · rw [same, text]

private theorem isElementText_of_read
    {key : String}
    {segment : Segment}
    (success : read key = .ok segment)
    (element : segment.isElement = true) :
    isElementText (Text.trim key) = true := by
  rcases read_eq_ok_cases success with ⟨same, -⟩ | ⟨same, -⟩
  · rw [same, isElement] at element
    exact element
  · rw [same, isElement] at element
    cases element

end Segment

/-! ## Entering several levels -/

namespace Context

def enterAll (context : Context) (keys : List String) : Except Error Context :=
  keys.foldlM enter context

/-- After keys that were entered, the next one of a legal nesting can be entered. -/
theorem enter_of_nestsLegally
    {before rest : List String}
    {key : String}
    (legal : NestsLegally (before ++ key :: rest))
    {segment : Segment}
    (success : Segment.read key = .ok segment) :
    enter ⟨readSegments before⟩ key = .ok ⟨readSegments before ++ [segment]⟩ := by
  have fresh : segment ∉ readSegments before := by
    intro member
    obtain ⟨earlier, earlierMember, earlierRead⟩ := mem_readSegments member
    have sameText : Text.trim earlier = Text.trim key := by
      rw [← Segment.text_of_read earlierRead, Segment.text_of_read success]
    have distinct := legal.distinct
    rw [List.map_append, List.map_cons, List.nodup_append'] at distinct
    exact distinct.2.2 (List.mem_map_of_mem earlierMember) (sameText ▸ List.mem_cons_self)
  have oneElement :
      ¬(segment.isElement = true ∧ hasElement ⟨readSegments before⟩ = true) := by
    intro both
    obtain ⟨other, otherMember, otherElement⟩ := List.any_eq_true.mp both.2
    obtain ⟨earlier, earlierMember, earlierRead⟩ := mem_readSegments otherMember
    have earlierElement := Segment.isElementText_of_read earlierRead otherElement
    have keyElement := Segment.isElementText_of_read success both.1
    have earlierCounts :
        0 < (before.filter fun key => Segment.isElementText (Text.trim key)).length :=
      List.length_pos_of_mem (List.mem_filter.mpr ⟨earlierMember, earlierElement⟩)
    have count := legal.elements
    simp only [List.filter_append, List.filter_cons, keyElement, if_true, List.length_append,
      List.length_cons] at count
    omega
  have shallow : depth ⟨readSegments before⟩ < depthLimit := by
    have fewer : (readSegments before).length ≤ before.length := List.length_filterMap_le _ _
    have bound := legal.depth
    rw [List.length_append, List.length_cons] at bound
    change (readSegments before).length < depthLimit
    omega
  exact (enter_eq_ok_iff ⟨readSegments before⟩ key _).mpr
    ⟨segment, success, fresh, oneElement, shallow, rfl⟩

/-- Legal keys are entered one after the other, whatever was entered before. -/
theorem enterAll_of_nestsLegally
    {before keys : List String}
    (legal : NestsLegally (before ++ keys)) :
    enterAll ⟨readSegments before⟩ keys = .ok ⟨readSegments (before ++ keys)⟩ := by
  induction keys generalizing before with
  | nil =>
      rw [List.append_nil]
      rfl
  | cons key rest inductionHypothesis =>
      obtain ⟨segment, success⟩ := legal.segments key (by simp)
      have entered := enter_of_nestsLegally legal success
      have extended : readSegments before ++ [segment] = readSegments (before ++ [key]) := by
        simp [readSegments, success, Except.toOption]
      have shifted : before ++ key :: rest = (before ++ [key]) ++ rest := by simp
      rw [shifted] at legal ⊢
      rw [enterAll, List.foldlM_cons, entered, extended]
      exact inductionHypothesis legal

end Context

/-! ## Spellings -/

/-- A key that names a property where a style map holds styles. -/
structure IsPropertyKey (key : String) : Prop where
  notPseudo : KeyKind.ofKey key ≠ .pseudo
  notAtRule : KeyKind.ofKey key ≠ .atRule
  notBlank : Text.trim key ≠ ""

/-- A way to write a context: keys of nested style maps around a property, then keys of the
conditions of that property. -/
structure ContextSpelling where
  outer : List String
  inner : List String

namespace ContextSpelling

def keys (spelling : ContextSpelling) : List String :=
  spelling.outer ++ spelling.inner

def conditional (keys : List String) (value : Value) : Value :=
  keys.foldr (fun key inside => .object [(key, inside)]) value

def nested (keys : List String) (styles : StyleMap) : StyleMap :=
  keys.foldr (fun key inside => [(key, .object inside)]) styles

/-- The style map that gives a property a value in a context written this way. -/
def styles (spelling : ContextSpelling) (property : String) (value : Value) : StyleMap :=
  nested spelling.outer [(property, conditional spelling.inner value)]

/-- The leaf of that style map, listed under a key that spells the nested maps out. -/
def leaf (spelling : ContextSpelling) (property : String) (value : Value) : Leaf :=
  ⟨Context.keyStart ⟨readSegments spelling.outer⟩ ++ property, property,
    ⟨readSegments spelling.keys⟩, value⟩

end ContextSpelling

namespace KeyKind

theorem ofKey_of_opensContext
    {key : String}
    (opening : OpensContext key) :
    ofKey key = .pseudo ∨ ofKey key = .atRule := by
  unfold ofKey
  by_cases colon : Text.startsWith ":" key = true
  · exact .inl (if_pos colon)
  · have sign : Text.startsWith "@" key = true := opening.resolve_left colon
    exact .inr (by rw [if_neg colon, if_pos sign])

end KeyKind

namespace Level

theorem leaves_singleton
    (scope : String)
    (level : Level)
    (key : String)
    (value : Value) :
    level.leaves scope [(key, value)] = level.visit scope key value := by
  simp only [leaves, walk]
  cases level.visit scope key value with
  | error error => rfl
  | ok here => simp [bind, Except.bind]

theorem conditionContext_of_opensContext
    (scope property : String)
    (context : Context)
    {key : String}
    (opening : OpensContext key) :
    conditionContext scope property context key = context.enter key := by
  rcases KeyKind.ofKey_of_opensContext opening with pseudo | atRule
  · simp [conditionContext, pseudo]
  · simp [conditionContext, atRule]

/-- Nested maps lead to the level inside their keys. -/
theorem leaves_nested
    (scope : String)
    {keys : List String}
    (opening : ∀ key ∈ keys, OpensContext key)
    (context : Context)
    (inside : StyleMap) :
    (styles context).leaves scope (ContextSpelling.nested keys inside) = (do
      let inner ← context.enterAll keys
      (styles inner).leaves scope inside) := by
  induction keys generalizing context with
  | nil => rfl
  | cons key rest inductionHypothesis =>
      obtain ⟨keyOpens, restOpen⟩ := List.forall_mem_cons.mp opening
      have opened (isEmpty : Bool) :
          (styles context).nested scope key isEmpty = (context.enter key).map styles := by
        rcases KeyKind.ofKey_of_opensContext keyOpens with pseudo | atRule
        · simp [nested, pseudo]
        · simp [nested, atRule]
      change (styles context).leaves scope [(key, .object (ContextSpelling.nested rest inside))] = _
      rw [leaves_singleton, visit_object, opened, Context.enterAll, List.foldlM_cons]
      cases context.enter key with
      | error error => rfl
      | ok inner => exact inductionHypothesis restOpen inner

/-- Conditions lead to one leaf, in the context inside their keys. -/
theorem leaves_conditional
    (scope outputKey property : String)
    {value : Value}
    (single : ∀ entries, value ≠ .object entries)
    {key : String}
    {rest : List String}
    (opening : ∀ written ∈ key :: rest, OpensContext written)
    (context : Context) :
    (conditions outputKey property context).leaves scope
        [(key, ContextSpelling.conditional rest value)] = (do
      let inner ← context.enterAll (key :: rest)
      .ok [⟨outputKey, property, inner, value⟩]) := by
  induction rest generalizing key context with
  | nil =>
      change (conditions outputKey property context).leaves scope [(key, value)] = _
      rw [leaves_singleton, visit_single scope _ key single, leaf,
        conditionContext_of_opensContext scope property context (opening key (by simp)),
        Context.enterAll, List.foldlM_cons]
      cases context.enter key with
      | error error => simp only [bind, Except.bind, Except.map]
      | ok inner => simp only [bind, Except.bind, Except.map, List.foldlM_nil, pure, Except.pure]
  | cons next others inductionHypothesis =>
      obtain ⟨keyOpens, restOpen⟩ := List.forall_mem_cons.mp opening
      change (conditions outputKey property context).leaves scope
        [(key, .object [(next, ContextSpelling.conditional others value)])] = _
      rw [leaves_singleton, visit_object, nested,
        conditionContext_of_opensContext scope property context keyOpens, Context.enterAll,
        List.foldlM_cons]
      cases context.enter key with
      | error error => simp only [bind, Except.bind]
      | ok inner =>
          have restLeaves := inductionHypothesis restOpen inner
          simpa only [bind, Except.bind, List.isEmpty_cons, Bool.false_eq_true, if_false,
            Context.enterAll] using restLeaves

/-- A property with its conditions, or with a plain value, has one leaf. -/
theorem leaves_property
    (scope : String)
    {property : String}
    (isProperty : IsPropertyKey property)
    {value : Value}
    (single : ∀ entries, value ≠ .object entries)
    {keys : List String}
    (opening : ∀ key ∈ keys, OpensContext key)
    (context : Context) :
    (styles context).leaves scope [(property, ContextSpelling.conditional keys value)] = (do
      let inner ← context.enterAll keys
      .ok [⟨context.keyStart ++ property, property, inner, value⟩]) := by
  have notBlank := isProperty.notBlank
  cases keys with
  | nil =>
      change (styles context).leaves scope [(property, value)] = _
      rw [leaves_singleton, visit_single scope _ property single, leaf]
      cases kind : KeyKind.ofKey property with
      | pseudo => exact absurd kind isProperty.notPseudo
      | atRule => exact absurd kind isProperty.notAtRule
      | property | default =>
          simp only [notBlank, if_false]
          rfl
  | cons key rest =>
      have opened :
          (styles context).nested scope property false =
            .ok (conditions (context.keyStart ++ property) property context) := by
        rw [nested]
        cases kind : KeyKind.ofKey property with
        | pseudo => exact absurd kind isProperty.notPseudo
        | atRule => exact absurd kind isProperty.notAtRule
        | property | default => simp [notBlank]
      change (styles context).leaves scope
        [(property, .object [(key, ContextSpelling.conditional rest value)])] = _
      rw [leaves_singleton, visit_object, List.isEmpty_cons, opened]
      exact leaves_conditional scope _ property single opening context

end Level

/-- A spelling has one leaf, wherever its keys can be entered one after the other. -/
theorem ContextSpelling.flatten_styles_eq
    (scope : String)
    (spelling : ContextSpelling)
    (opening : ∀ key ∈ spelling.keys, OpensContext key)
    {property : String}
    (isProperty : IsPropertyKey property)
    {value : Value}
    (single : ∀ entries, value ≠ .object entries) :
    flatten scope (spelling.styles property value) = (do
      let outer ← Context.empty.enterAll spelling.outer
      let inner ← outer.enterAll spelling.inner
      .ok [⟨outer.keyStart ++ property, property, inner, value⟩]) := by
  obtain ⟨outerOpen, innerOpen⟩ := List.forall_mem_append.mp opening
  rw [flatten_eq_leaves, styles, Level.leaves_nested scope outerOpen]
  cases Context.empty.enterAll spelling.outer with
  | error error => rfl
  | ok outer => exact Level.leaves_property scope isProperty single innerOpen outer

/-- Every legal spelling has one leaf, in the context of its keys. -/
theorem ContextSpelling.flatten_styles
    (scope : String)
    (spelling : ContextSpelling)
    (legal : NestsLegally spelling.keys)
    {property : String}
    (isProperty : IsPropertyKey property)
    {value : Value}
    (single : ∀ entries, value ≠ .object entries) :
    flatten scope (spelling.styles property value) = .ok [spelling.leaf property value] := by
  obtain ⟨outer, inner⟩ := spelling
  have outerLegal : NestsLegally ([] ++ outer) :=
    legal.of_sublist (List.sublist_append_left outer inner)
  have outerEntered : Context.enterAll Context.empty outer = .ok ⟨readSegments outer⟩ :=
    Context.enterAll_of_nestsLegally outerLegal
  have innerEntered :
      Context.enterAll ⟨readSegments outer⟩ inner = .ok ⟨readSegments (outer ++ inner)⟩ :=
    Context.enterAll_of_nestsLegally legal
  rw [flatten_styles_eq scope _ legal.opening isProperty single]
  simp only [outerEntered, bind, Except.bind, innerEntered]
  rfl

end AtomicCss
