import AtomicCss.Proofs.Style.Paths

/-!
Contract: the walk through a style map against the paths through it.

Owns:
- the level that the walk has reached at the end of a path;
- the walk through a map, which succeeds exactly where every path keeps the rules and then has one
  leaf for each value that is not a map.

Does not own: which of several broken rules is reported.
-/

namespace AtomicCss

/-! ## Levels -/

namespace Level

/-- The level of the map at the end of a path. -/
def ofPath (keys : List String) : Level :=
  if propertyKeys keys = [] then .styles (pathContext keys)
  else .conditions (pathOutputKey keys) (pathProperty keys) (pathContext keys)

theorem ofPath_eq_styles
    {keys : List String}
    (before : propertyKeys keys = []) :
    ofPath keys = .styles (pathContext keys) :=
  if_pos before

theorem ofPath_eq_conditions
    {keys : List String}
    (after : propertyKeys keys ≠ []) :
    ofPath keys = .conditions (pathOutputKey keys) (pathProperty keys) (pathContext keys) :=
  if_neg after

section Styles

variable (scope : String) (context : Context) {key : String}

private theorem nested_styles_of_opensContext
    (opening : OpensContext key)
    (isEmpty : Bool) :
    (styles context).nested scope key isEmpty = (context.enter key).map styles := by
  rcases KeyKind.ofKey_of_opensContext opening with pseudo | atRule
  · simp [nested, pseudo]
  · simp [nested, atRule]

private theorem leaf_styles_of_opensContext
    (opening : OpensContext key)
    (value : Value) :
    (styles context).leaf scope key value =
      .error (.invalidKey scope key (.notStyles value.kind)) := by
  rcases KeyKind.ofKey_of_opensContext opening with pseudo | atRule
  · simp [leaf, pseudo]
  · simp [leaf, atRule]

theorem nested_styles_eq_ok_iff
    (closed : ¬OpensContext key)
    (entries : StyleMap)
    (inner : Level) :
    (styles context).nested scope key entries.isEmpty = .ok inner ↔
      (Text.trim key ≠ "" ∧ Value.object entries ≠ .object []) ∧
        inner = .conditions (context.keyStart ++ key) key context := by
  have opened :
      (styles context).nested scope key entries.isEmpty =
        if Text.trim key = "" then .error (.invalidKey scope key .blank)
        else if entries.isEmpty then .error (.invalidKey scope key .noConditions)
        else .ok (.conditions (context.keyStart ++ key) key context) := by
    rcases not_opensContext_iff.mp closed with isProperty | isDefault
    · simp [nested, isProperty]
    · simp [nested, isDefault]
  rw [opened]
  by_cases blank : Text.trim key = ""
  · simp [blank]
  · cases entries with
    | nil => simp [blank]
    | cons entry rest => simp [blank, eq_comm]

theorem leaf_styles_eq_ok_iff
    (closed : ¬OpensContext key)
    (value : Value)
    (found : Leaf) :
    (styles context).leaf scope key value = .ok found ↔
      Text.trim key ≠ "" ∧ found = ⟨context.keyStart ++ key, key, context, value⟩ := by
  have single :
      (styles context).leaf scope key value =
        if Text.trim key = "" then .error (.invalidKey scope key .blank)
        else .ok ⟨context.keyStart ++ key, key, context, value⟩ := by
    rcases not_opensContext_iff.mp closed with isProperty | isDefault
    · simp [leaf, isProperty]
    · simp [leaf, isDefault]
  rw [single]
  by_cases blank : Text.trim key = ""
  · simp [blank]
  · simp [blank, eq_comm]

end Styles

/-- The leaves of those places that hold no map, as seen from the end of a path. -/
def leavesOfPlaces (outer : List String) (places : List StylePlace) : List Leaf :=
  (places.filter StylePlace.isSingle).map fun place => (place.under outer).leaf

private theorem leavesOfPlaces_append
    (outer : List String)
    (first second : List StylePlace) :
    leavesOfPlaces outer (first ++ second) =
      leavesOfPlaces outer first ++ leavesOfPlaces outer second := by
  rw [leavesOfPlaces, List.filter_append, List.map_append]
  rfl

private theorem leavesOfPlaces_single
    (outer : List String)
    (key : String)
    {value : Value}
    (single : ∀ entries, value ≠ .object entries) :
    leavesOfPlaces outer [⟨[key], value⟩] = [StylePlace.leaf ⟨outer ++ [key], value⟩] := by
  have kept : StylePlace.isSingle ⟨[key], value⟩ = true := by
    cases value with
    | object entries => exact absurd rfl (single entries)
    | null | number _ | text _ | chain _ | dynamic _ | keyframes _ => rfl
  rw [leavesOfPlaces, List.filter_cons_of_pos kept]
  rfl

private theorem leavesOfPlaces_map_under
    (outer : List String)
    (key : String)
    (entries : StyleMap)
    (places : List StylePlace) :
    leavesOfPlaces outer (⟨[key], .object entries⟩ :: places.map (StylePlace.under [key])) =
      leavesOfPlaces (outer ++ [key]) places := by
  have unchanged : StylePlace.isSingle ∘ StylePlace.under [key] = StylePlace.isSingle := rfl
  have passedOver : ¬StylePlace.isSingle ⟨[key], .object entries⟩ = true := Bool.false_ne_true
  rw [leavesOfPlaces, List.filter_cons_of_neg passedOver, List.filter_map, unchanged,
    List.map_map, leavesOfPlaces]
  apply List.map_congr_left
  intro place _
  simp [StylePlace.under]

/-- At the end of every path that keeps the rules, the leaves of a map are read off the paths
inside. -/
def ReadsOffPaths (scope : String) (entries : StyleMap) : Prop :=
  ∀ keys, KeepsRules keys (.object entries) →
    ∀ found, (ofPath keys).leaves scope entries = .ok found ↔
      (∀ place ∈ stylePlaces entries, KeepsRules (keys ++ place.keys) place.value) ∧
        found = leavesOfPlaces keys (stylePlaces entries)

variable
  {keys : List String}
  {around : StyleMap}
  (outer : KeepsRules keys (.object around))
  (scope key : String)
include outer

theorem conditionContext_eq_ok_iff
    (property : String)
    (inner : Context) :
    conditionContext scope property (pathContext keys) key = .ok inner ↔
      (KeyKind.ofKey key ≠ .property ∧ NestsLegally (contextKeys (keys ++ [key]))) ∧
        inner = pathContext (keys ++ [key]) := by
  by_cases opening : OpensContext key
  · have isCondition : KeyKind.ofKey key ≠ .property := by
      rcases KeyKind.ofKey_of_opensContext opening with pseudo | atRule
      · simp [pseudo]
      · simp [atRule]
    rw [conditionContext_of_opensContext scope property _ opening, pathContext,
      outer.nesting.enter_eq_ok_iff opening, pathContext,
      contextKeys_append_of_opensContext opening]
    simp [isCondition]
  · rw [pathContext_append_of_not_opensContext opening,
      contextKeys_append_of_not_opensContext opening]
    rcases not_opensContext_iff.mp opening with isProperty | isDefault
    · simp [conditionContext, isProperty]
    · simp [conditionContext, isDefault, outer.nesting, eq_comm]

/-- A nested map is walked exactly where its path keeps the rules, at the level of that path. -/
theorem nested_ofPath_eq_ok_iff
    (entries : StyleMap)
    (inner : Level) :
    (ofPath keys).nested scope key entries.isEmpty = .ok inner ↔
      KeepsRules (keys ++ [key]) (.object entries) ∧ inner = ofPath (keys ++ [key]) := by
  by_cases before : propertyKeys keys = []
  · rw [ofPath_eq_styles before]
    by_cases opening : OpensContext key
    · rw [nested_styles_of_opensContext scope _ opening, Success.map_eq_ok_iff,
        keepsRules_append_styles_iff before opening,
        ofPath_eq_styles (propertyKeys_append_of_opensContext before opening), pathContext,
        pathContext, contextKeys_append_of_opensContext opening]
      simp [outer.nesting.enter_eq_ok_iff opening, eq_comm, and_comm]
    · have property := propertyKeys_append_of_not_opensContext before opening
      rw [nested_styles_eq_ok_iff scope _ opening, outer.append_property_iff before opening,
        ofPath_eq_conditions (by simp [property]), pathOutputKey_append_of_property before opening,
        pathProperty_append_of_property before opening,
        pathContext_append_of_not_opensContext opening]
  · have after : propertyKeys (keys ++ [key]) ≠ [] := by
      rw [propertyKeys_append, if_neg before]
      simp
    rw [ofPath_eq_conditions before, nested, Success.bind_eq_ok_iff,
      outer.append_condition_iff before, ofPath_eq_conditions after,
      pathProperty_append_of_condition before, pathOutputKey_append_of_condition before]
    simp only [conditionContext_eq_ok_iff outer, and_assoc, exists_and_left, exists_eq_left]
    cases entries with
    | nil => simp
    | cons entry rest => simp [eq_comm]

/-- Any other value is a leaf exactly where its path keeps the rules, and it is the leaf of that
path. -/
theorem leaf_ofPath_eq_ok_iff
    {value : Value}
    (single : ∀ entries, value ≠ .object entries)
    (found : Leaf) :
    (ofPath keys).leaf scope key value = .ok found ↔
      KeepsRules (keys ++ [key]) value ∧ found = StylePlace.leaf ⟨keys ++ [key], value⟩ := by
  rw [StylePlace.leaf]
  by_cases before : propertyKeys keys = []
  · rw [ofPath_eq_styles before]
    by_cases opening : OpensContext key
    · rw [leaf_styles_of_opensContext scope _ opening, keepsRules_append_styles_iff before opening]
      simp [single]
    · rw [leaf_styles_eq_ok_iff scope _ opening, outer.append_property_iff before opening,
        pathOutputKey_append_of_property before opening,
        pathProperty_append_of_property before opening,
        pathContext_append_of_not_opensContext opening]
      simp [single]
  · rw [ofPath_eq_conditions before, leaf, Success.map_eq_ok_iff,
      outer.append_condition_iff before, pathProperty_append_of_condition before,
      pathOutputKey_append_of_condition before]
    simp only [conditionContext_eq_ok_iff outer, and_assoc, exists_and_left, exists_eq_left]
    simp [single, eq_comm]

/-- The leaves of one entry, where those of a map inside it are known. -/
theorem visit_ofPath_eq_ok_iff
    {value : Value}
    (inside : ∀ entries, value = .object entries → ReadsOffPaths scope entries)
    (found : List Leaf) :
    (ofPath keys).visit scope key value = .ok found ↔
      (∀ place ∈ entryPlaces key value, KeepsRules (keys ++ place.keys) place.value) ∧
        found = leavesOfPlaces keys (entryPlaces key value) := by
  rcases value.object_or_single with ⟨entries, rfl⟩ | single
  · have eachInside :
        (∀ place ∈ (stylePlaces entries).map (StylePlace.under [key]),
          KeepsRules (keys ++ place.keys) place.value) ↔
            ∀ place ∈ stylePlaces entries,
              KeepsRules ((keys ++ [key]) ++ place.keys) place.value := by
      simp [StylePlace.under]
    rw [visit_object, Success.bind_eq_ok_iff, entryPlaces, leavesOfPlaces_map_under,
      List.forall_mem_cons, eachInside]
    simp only [nested_ofPath_eq_ok_iff outer]
    constructor
    · rintro ⟨inner, ⟨kept, rfl⟩, walked⟩
      obtain ⟨each, same⟩ := (inside entries rfl _ kept found).mp walked
      exact ⟨⟨kept, each⟩, same⟩
    · rintro ⟨⟨kept, each⟩, same⟩
      exact ⟨_, ⟨kept, rfl⟩, (inside entries rfl _ kept found).mpr ⟨each, same⟩⟩
  · rw [visit_single scope _ key single, Success.map_eq_ok_iff,
      entryPlaces.eq_2 key value single, List.forall_mem_singleton,
      leavesOfPlaces_single keys key single]
    simp only [leaf_ofPath_eq_ok_iff outer scope key single, and_assoc, exists_and_left,
      exists_eq_left, eq_comm]

/-- The leaves of entries one after the other, where those of the maps inside them are known. -/
theorem walk_ofPath_eq_ok_iff
    {entries : StyleMap}
    (inside : ∀ key inner, (key, Value.object inner) ∈ entries → ReadsOffPaths scope inner)
    (found : List Leaf) :
    walk ((ofPath keys).visit scope) entries = .ok found ↔
      (∀ place ∈ stylePlaces entries, KeepsRules (keys ++ place.keys) place.value) ∧
        found = leavesOfPlaces keys (stylePlaces entries) := by
  induction entries generalizing found with
  | nil => simp [walk, stylePlaces, leavesOfPlaces, eq_comm]
  | cons entry rest inductionHypothesis =>
      obtain ⟨key, value⟩ := entry
      have here : ∀ inner, value = .object inner → ReadsOffPaths scope inner := by
        rintro inner rfl
        exact inside key inner List.mem_cons_self
      have others : ∀ key inner, (key, Value.object inner) ∈ rest → ReadsOffPaths scope inner :=
        fun key inner member => inside key inner (List.mem_cons_of_mem _ member)
      rw [walk_cons_eq_ok_iff, stylePlaces, List.forall_mem_append, leavesOfPlaces_append]
      simp only [visit_ofPath_eq_ok_iff outer scope key here, inductionHypothesis others]
      constructor
      · rintro ⟨hereFound, othersFound, ⟨keptHere, rfl⟩, ⟨keptOthers, rfl⟩, rfl⟩
        exact ⟨⟨keptHere, keptOthers⟩, rfl⟩
      · rintro ⟨⟨keptHere, keptOthers⟩, rfl⟩
        exact ⟨_, _, ⟨keptHere, rfl⟩, ⟨keptOthers, rfl⟩, rfl⟩

omit outer in
private theorem readsOffPaths
    (entries : StyleMap) :
    ReadsOffPaths scope entries := by
  induction entries using StyleMap.nested_induction with
  | step entries nestedHypothesis =>
      intro keys outer found
      exact walk_ofPath_eq_ok_iff outer scope nestedHypothesis found

end Level

theorem nestsLegally_nil : NestsLegally [] :=
  ⟨by simp, by simp, by simp, by simp, by simp⟩

/-- The whole of a namespace stands at the end of a path without keys. -/
theorem keepsRules_nil
    (styles : StyleMap) :
    KeepsRules [] (.object styles) :=
  { nesting := nestsLegally_nil
    styles := fun _ => ⟨styles, rfl⟩
    named := by simp [propertyKeys]
    conditions := by simp [propertyKeys]
    filled := fun after => absurd rfl after }

/-- Flattening is exact. It succeeds exactly where every path through the map keeps the rules, and
then has one leaf for each value that is not a map, in depth-first order, made of the keys that lead
to the value. -/
theorem flatten_eq_ok_iff_paths
    (scope : String)
    (styles : StyleMap)
    (leaves : List Leaf) :
    flatten scope styles = .ok leaves ↔
      (∀ place ∈ stylePlaces styles, KeepsRules place.keys place.value) ∧
        leaves = ((stylePlaces styles).filter StylePlace.isSingle).map StylePlace.leaf := by
  have start : Level.ofPath [] = .styles Context.empty := rfl
  have walked := Level.readsOffPaths scope styles [] (keepsRules_nil styles) leaves
  rw [flatten_eq_leaves, ← start]
  exact walked

end AtomicCss
