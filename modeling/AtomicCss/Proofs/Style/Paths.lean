import AtomicCss.Proofs.Context.Nesting
import Mathlib.Data.List.TakeWhile

/-!
Contract: paths of keys through nested style maps.

Owns:
- all places of a map, in depth-first order, with the keys that lead to each;
- the rules on a single path, and what one more key adds to them;
- the leaf that a path leads to, made of its keys alone.

Does not own: the walk that finds the leaves.
-/

namespace AtomicCss

/-! ## Places -/

/-- A value somewhere in a style map, with the keys that lead to it, the outermost first. -/
structure StylePlace where
  keys : List String
  value : Value

def StylePlace.under (outer : List String) (place : StylePlace) : StylePlace :=
  ⟨outer ++ place.keys, place.value⟩

mutual

/-- All places of a style map in depth-first order. -/
def stylePlaces : StyleMap → List StylePlace
  | [] => []
  | (key, value) :: rest => entryPlaces key value ++ stylePlaces rest

def entryPlaces (key : String) : Value → List StylePlace
  | .object entries =>
    ⟨[key], .object entries⟩ :: (stylePlaces entries).map (StylePlace.under [key])
  | value => [⟨[key], value⟩]

end

def StylePlace.isSingle (place : StylePlace) : Bool :=
  place.value.kind != .object

/-! ## Rules -/

def contextKeys (keys : List String) : List String :=
  keys.filter (OpensContext ·)

/-- The keys of a path before its property, those of nested style maps. -/
def outerKeys (keys : List String) : List String :=
  keys.takeWhile (OpensContext ·)

/-- The property of a path, which is its first key that opens no context, and the keys of conditions
after it. -/
def propertyKeys (keys : List String) : List String :=
  keys.dropWhile (OpensContext ·)

/-- The rules on a path and the value it leads to. The keys of contexts nest legally; a path without
a property leads to a style map; a property is not blank, and what follows it are conditions, which
lead to no empty map. -/
structure KeepsRules (keys : List String) (value : Value) : Prop where
  nesting : NestsLegally (contextKeys keys)
  styles : propertyKeys keys = [] → ∃ entries, value = .object entries
  named : ∀ property ∈ (propertyKeys keys).head?, Text.trim property ≠ ""
  conditions : ∀ key ∈ (propertyKeys keys).tail, KeyKind.ofKey key ≠ .property
  filled : propertyKeys keys ≠ [] → value ≠ .object []

/-- The level of context that a key stands for, by how it starts. -/
def Segment.ofKey (key : String) : Segment :=
  if Text.startsWith ":" key then .pseudo (Text.trim key) else .atRule (Text.trim key)

def pathContext (keys : List String) : Context :=
  ⟨(contextKeys keys).map Segment.ofKey⟩

def pathProperty (keys : List String) : String :=
  (propertyKeys keys).head?.getD ""

/-- The key that the classes of a path are listed under: the nested style maps, then the
property. -/
def pathOutputKey (keys : List String) : String :=
  Text.concat ((outerKeys keys).map fun key => Text.trim key ++ "_") ++ pathProperty keys

def StylePlace.leaf (place : StylePlace) : Leaf :=
  ⟨pathOutputKey place.keys, pathProperty place.keys, pathContext place.keys, place.value⟩

/-! ## Keys of contexts -/

theorem not_opensContext_iff
    {key : String} :
    ¬OpensContext key ↔ KeyKind.ofKey key = .property ∨ KeyKind.ofKey key = .default := by
  constructor
  · intro closed
    cases kind : KeyKind.ofKey key with
    | property => exact .inl rfl
    | default => exact .inr rfl
    | pseudo => exact absurd (.inl (KeyKind.startsWith_of_ofKey_eq_pseudo kind)) closed
    | atRule => exact absurd (.inr (KeyKind.startsWith_of_ofKey_eq_atRule kind)) closed
  · intro kind opening
    rcases KeyKind.ofKey_of_opensContext opening with pseudo | atRule
    · simp [pseudo] at kind
    · simp [atRule] at kind

theorem Segment.text_ofKey
    (key : String) :
    (ofKey key).text = Text.trim key := by
  unfold ofKey
  split
  · rfl
  · rfl

namespace OpensContext

variable {key other : String} (opening : OpensContext key)
include opening

theorem startsWith_colon_iff :
    Text.startsWith ":" key = true ↔ (Text.trim key).toList.head? = some ':' := by
  constructor
  · intro pseudo
    exact Text.head?_trim (Text.head?_of_startsWith_colon pseudo) (by decide)
  · intro colon
    rcases opening with pseudo | atRule
    · exact pseudo
    · have sign := Text.head?_trim (Text.head?_of_startsWith_at atRule) (by decide)
      simp [sign] at colon

/-- A key that opens a context is read as the level it stands for. -/
theorem eq_ofKey_of_read
    {segment : Segment}
    (success : Segment.read key = .ok segment) :
    segment = Segment.ofKey key := by
  rw [Segment.ofKey]
  rcases Segment.read_eq_ok_cases success with ⟨same, start⟩ | ⟨same, start⟩
  · have colon := Text.head?_of_startsWith_colon start
    rw [same, if_pos (opening.startsWith_colon_iff.mpr colon)]
  · have sign := Text.head?_of_startsWith_at start
    have notPseudo : ¬Text.startsWith ":" key = true := by
      intro pseudo
      have colon := opening.startsWith_colon_iff.mp pseudo
      simp [sign] at colon
    rw [same, if_neg notPseudo]

theorem ofKey_eq_iff
    (otherOpening : OpensContext other) :
    Segment.ofKey key = Segment.ofKey other ↔ Text.trim key = Text.trim other := by
  constructor
  · intro same
    rw [← Segment.text_ofKey, same, Segment.text_ofKey]
  · intro same
    have sameKind :
        Text.startsWith ":" key = true ↔ Text.startsWith ":" other = true := by
      rw [opening.startsWith_colon_iff, otherOpening.startsWith_colon_iff, same]
    simp only [Segment.ofKey, sameKind, same]

private theorem isElement_ofKey :
    (Segment.ofKey key).isElement = Segment.isElementText (Text.trim key) := by
  by_cases pseudo : Text.startsWith ":" key = true
  · rw [Segment.ofKey, if_pos pseudo, Segment.isElement]
  · rw [Segment.ofKey, if_neg pseudo, Segment.isElement, eq_comm, Bool.eq_false_iff]
    intro element
    apply pseudo
    rw [opening.startsWith_colon_iff]
    obtain ⟨rest, chars⟩ := List.isPrefixOf_iff_prefix.mp element
    rw [← chars]
    rfl

end OpensContext

/-- Legal nesting in terms of the context that keys stand for. -/
theorem nestsLegally_iff
    {keys : List String} :
    NestsLegally keys ↔
      (∀ key ∈ keys, OpensContext key ∧ ∃ segment, Segment.read key = .ok segment) ∧
        (keys.map Segment.ofKey).Nodup ∧ Context.IsWellNested ⟨keys.map Segment.ofKey⟩ := by
  have texts : (keys.map Segment.ofKey).map Segment.text = keys.map Text.trim := by
    rw [List.map_map]
    exact List.map_congr_left fun key _ => Segment.text_ofKey key
  have elements (opening : ∀ key ∈ keys, OpensContext key) :
      Context.elementCount ⟨keys.map Segment.ofKey⟩ =
        (keys.filter fun key => Segment.isElementText (Text.trim key)).length := by
    rw [Context.elementCount, List.countP_map, ← List.countP_eq_length_filter]
    apply List.countP_congr
    intro key member
    rw [Function.comp_apply, (opening key member).isElement_ofKey]
  have depth : Context.depth ⟨keys.map Segment.ofKey⟩ = keys.length := List.length_map _
  constructor
  · intro legal
    refine ⟨fun key member => ⟨legal.opening key member, legal.segments key member⟩, ?_, ?_, ?_⟩
    · exact List.Nodup.of_map Segment.text (texts ▸ legal.distinct)
    · exact elements legal.opening ▸ legal.elements
    · exact depth ▸ legal.depth
  · rintro ⟨each, nodup, wellNested⟩
    have opening : ∀ key ∈ keys, OpensContext key := fun key member => (each key member).1
    refine ⟨opening, fun key member => (each key member).2, ?_, ?_, ?_⟩
    · rw [← texts]
      apply List.Nodup.map_on _ nodup
      intro first firstMember second secondMember same
      obtain ⟨firstKey, firstKeyMember, rfl⟩ := List.mem_map.mp firstMember
      obtain ⟨secondKey, secondKeyMember, rfl⟩ := List.mem_map.mp secondMember
      rw [Segment.text_ofKey, Segment.text_ofKey] at same
      exact ((opening _ firstKeyMember).ofKey_eq_iff (opening _ secondKeyMember)).mpr same
    · exact elements opening ▸ wellNested.elements
    · exact depth ▸ wellNested.depth

/-- One more key can be entered exactly where it extends a legal nesting. -/
theorem NestsLegally.enter_eq_ok_iff
    {keys : List String}
    (legal : NestsLegally keys)
    {key : String}
    (opening : OpensContext key)
    (inner : Context) :
    Context.enter ⟨keys.map Segment.ofKey⟩ key = .ok inner ↔
      NestsLegally (keys ++ [key]) ∧ inner = ⟨(keys ++ [key]).map Segment.ofKey⟩ := by
  obtain ⟨each, nodup, wellNested⟩ := nestsLegally_iff.mp legal
  have nodup_iff :
      (keys.map Segment.ofKey ++ [Segment.ofKey key]).Nodup ↔
        Segment.ofKey key ∉ keys.map Segment.ofKey := by
    rw [List.nodup_append', List.disjoint_singleton]
    simp [nodup]
  rw [Context.enter_eq_ok_iff_extend wellNested, Context.extend_eq_ok_iff, nestsLegally_iff,
    List.map_append, List.map_singleton, nodup_iff, List.forall_mem_append,
    List.forall_mem_singleton]
  constructor
  · rintro ⟨⟨segment, success, fresh, rfl⟩, inside⟩
    obtain rfl := opening.eq_ofKey_of_read success
    exact ⟨⟨⟨each, opening, _, success⟩, fresh, inside⟩, rfl⟩
  · rintro ⟨⟨⟨-, -, segment, success⟩, fresh, inside⟩, rfl⟩
    obtain rfl := opening.eq_ofKey_of_read success
    exact ⟨⟨_, success, fresh, rfl⟩, inside⟩

/-! ## One more key -/

section Extended

variable {keys : List String}

theorem contextKeys_append_of_opensContext
    {key : String}
    (opening : OpensContext key) :
    contextKeys (keys ++ [key]) = contextKeys keys ++ [key] := by
  rw [contextKeys, List.filter_append, List.filter_cons_of_pos (by simpa using opening),
    List.filter_nil]
  rfl

theorem contextKeys_append_of_not_opensContext
    {key : String}
    (closed : ¬OpensContext key) :
    contextKeys (keys ++ [key]) = contextKeys keys := by
  rw [contextKeys, List.filter_append, List.filter_cons_of_neg (by simpa using closed),
    List.filter_nil, List.append_nil]
  rfl

/-- As long as there is no property, all keys are those of nested style maps. -/
theorem propertyKeys_eq_nil_iff :
    propertyKeys keys = [] ↔ ∀ key ∈ keys, OpensContext key := by
  rw [propertyKeys, List.dropWhile_eq_nil_iff]
  simp only [decide_eq_true_eq]

private theorem outerKeys_append
    (key : String) :
    outerKeys (keys ++ [key]) =
      if propertyKeys keys = [] then keys ++ outerKeys [key] else outerKeys keys := by
  have whole : (outerKeys keys).length = keys.length ↔ propertyKeys keys = [] := by
    rw [propertyKeys, List.dropWhile_eq_nil_iff, ← List.takeWhile_eq_self_iff]
    exact ⟨(List.takeWhile_prefix _).eq_of_length, congrArg List.length⟩
  rw [outerKeys, List.takeWhile_append, ← outerKeys]
  simp only [whole]
  rfl

theorem propertyKeys_append
    (key : String) :
    propertyKeys (keys ++ [key]) =
      if propertyKeys keys = [] then propertyKeys [key] else propertyKeys keys ++ [key] := by
  rw [propertyKeys, List.dropWhile_append, ← propertyKeys]
  simp only [List.isEmpty_iff]
  rfl

theorem propertyKeys_append_of_opensContext
    (before : propertyKeys keys = [])
    {key : String}
    (opening : OpensContext key) :
    propertyKeys (keys ++ [key]) = [] := by
  rw [propertyKeys_append, if_pos before, propertyKeys_eq_nil_iff]
  simpa using opening

theorem propertyKeys_append_of_not_opensContext
    (before : propertyKeys keys = [])
    {key : String}
    (closed : ¬OpensContext key) :
    propertyKeys (keys ++ [key]) = [key] := by
  rw [propertyKeys_append, if_pos before, propertyKeys,
    List.dropWhile_cons_of_neg (by simpa using closed)]

private theorem keyStart_pathContext
    (before : propertyKeys keys = []) :
    (pathContext keys).keyStart = Text.concat (keys.map fun key => Text.trim key ++ "_") := by
  have all : contextKeys keys = keys := by
    rw [contextKeys, List.filter_eq_self]
    simpa using propertyKeys_eq_nil_iff.mp before
  rw [pathContext, all, Context.keyStart, List.map_map]
  apply congrArg Text.concat
  apply List.map_congr_left
  intro key _
  rw [Function.comp_apply, Segment.text_ofKey]

theorem pathContext_append_of_not_opensContext
    {key : String}
    (closed : ¬OpensContext key) :
    pathContext (keys ++ [key]) = pathContext keys := by
  rw [pathContext, contextKeys_append_of_not_opensContext closed, pathContext]

theorem pathProperty_append_of_property
    (before : propertyKeys keys = [])
    {key : String}
    (closed : ¬OpensContext key) :
    pathProperty (keys ++ [key]) = key := by
  rw [pathProperty, propertyKeys_append_of_not_opensContext before closed]
  rfl

theorem pathOutputKey_append_of_property
    (before : propertyKeys keys = [])
    {key : String}
    (closed : ¬OpensContext key) :
    pathOutputKey (keys ++ [key]) = (pathContext keys).keyStart ++ key := by
  rw [pathOutputKey, pathProperty_append_of_property before closed, outerKeys_append,
    if_pos before, keyStart_pathContext before, outerKeys,
    List.takeWhile_cons_of_neg (by simpa using closed), List.append_nil]

theorem pathProperty_append_of_condition
    (after : propertyKeys keys ≠ [])
    (key : String) :
    pathProperty (keys ++ [key]) = pathProperty keys := by
  obtain ⟨property, conditions, shape⟩ := List.exists_cons_of_ne_nil after
  rw [pathProperty, propertyKeys_append, if_neg after, pathProperty, shape]
  rfl

theorem pathOutputKey_append_of_condition
    (after : propertyKeys keys ≠ [])
    (key : String) :
    pathOutputKey (keys ++ [key]) = pathOutputKey keys := by
  rw [pathOutputKey, outerKeys_append, if_neg after, pathProperty_append_of_condition after,
    pathOutputKey]

/-- What one more key adds to the rules, where it opens a nested style map. -/
theorem keepsRules_append_styles_iff
    (before : propertyKeys keys = [])
    {key : String}
    (opening : OpensContext key)
    (value : Value) :
    KeepsRules (keys ++ [key]) value ↔
      NestsLegally (contextKeys keys ++ [key]) ∧ ∃ entries, value = .object entries := by
  have still := propertyKeys_append_of_opensContext before opening
  have extended : contextKeys (keys ++ [key]) = contextKeys keys ++ [key] :=
    contextKeys_append_of_opensContext opening
  constructor
  · intro kept
    exact ⟨extended ▸ kept.nesting, kept.styles still⟩
  · rintro ⟨nesting, isObject⟩
    exact ⟨extended ▸ nesting, fun _ => isObject, by simp [still], by simp [still],
      fun after => absurd still after⟩

/-- What one more key adds to the rules, where it is a property. -/
theorem KeepsRules.append_property_iff
    {around : StyleMap}
    (outer : KeepsRules keys (.object around))
    (before : propertyKeys keys = [])
    {key : String}
    (closed : ¬OpensContext key)
    (value : Value) :
    KeepsRules (keys ++ [key]) value ↔ Text.trim key ≠ "" ∧ value ≠ .object [] := by
  have property := propertyKeys_append_of_not_opensContext before closed
  have unchanged : contextKeys (keys ++ [key]) = contextKeys keys :=
    contextKeys_append_of_not_opensContext closed
  constructor
  · intro kept
    exact ⟨kept.named key (by simp [property]), kept.filled (by simp [property])⟩
  · rintro ⟨named, filled⟩
    exact ⟨unchanged ▸ outer.nesting, by simp [property], by simpa [property] using named,
      by simp [property], fun _ => filled⟩

/-- What one more key adds to the rules, where it is a condition. -/
theorem KeepsRules.append_condition_iff
    {around : StyleMap}
    (outer : KeepsRules keys (.object around))
    (after : propertyKeys keys ≠ [])
    (key : String)
    (value : Value) :
    KeepsRules (keys ++ [key]) value ↔
      KeyKind.ofKey key ≠ .property ∧ NestsLegally (contextKeys (keys ++ [key])) ∧
        value ≠ .object [] := by
  obtain ⟨property, conditions, shape⟩ := List.exists_cons_of_ne_nil after
  have extended : propertyKeys (keys ++ [key]) = property :: (conditions ++ [key]) := by
    rw [propertyKeys_append, if_neg after, shape, List.cons_append]
  have named := outer.named
  have conditional := outer.conditions
  rw [shape] at named conditional
  constructor
  · intro kept
    exact ⟨kept.conditions key (by simp [extended]), kept.nesting,
      kept.filled (by simp [extended])⟩
  · rintro ⟨isCondition, nesting, filled⟩
    refine ⟨nesting, by simp [extended], by simpa [extended] using named, ?_, fun _ => filled⟩
    rw [extended, List.tail_cons, List.forall_mem_append, List.forall_mem_singleton]
    exact ⟨conditional, isCondition⟩

end Extended

end AtomicCss
