import AtomicCss.Proofs.Success
import AtomicCss.Style.Leaf

/-!
Contract: the walk through nested style maps, level by level.

Owns:
- induction over style maps and the maps nested in them;
- levels, at which a map holds styles or the conditions of a property, and the one walk that both
  kinds of level share;
- which level a nested map is walked at, and which leaf any other value is;
- properties of contexts that every leaf inherits.

Does not own: which leaves a style map has in the end.
-/

namespace AtomicCss

/-- Induction over a style map through the maps nested in it. -/
theorem StyleMap.nested_induction
    {motive : StyleMap → Prop}
    (step : ∀ styles : StyleMap,
      (∀ key entries, (key, Value.object entries) ∈ styles → motive entries) → motive styles)
    (styles : StyleMap) :
    motive styles := by
  apply step
  intro key entries member
  exact nested_induction step entries
termination_by sizeOf styles
decreasing_by
  have smaller := List.sizeOf_lt_of_mem member
  simp only [Prod.mk.sizeOf_spec, Value.object.sizeOf_spec] at smaller
  omega

/-- A value is a map or stands for itself. -/
theorem Value.object_or_single
    (value : Value) :
    (∃ entries, value = .object entries) ∨ ∀ entries, value ≠ .object entries := by
  cases value <;> simp

/-! ## One level -/

def walk (visit : String → Value → Except Error (List Leaf)) :
    StyleMap → Except Error (List Leaf)
  | [] => .ok []
  | (key, value) :: rest => do
    let here ← visit key value
    let others ← walk visit rest
    .ok (here ++ others)

theorem walk_cons_eq_ok_iff
    (visit : String → Value → Except Error (List Leaf))
    (key : String)
    (value : Value)
    (rest : StyleMap)
    (leaves : List Leaf) :
    walk visit ((key, value) :: rest) = .ok leaves ↔
      ∃ here others, visit key value = .ok here ∧ walk visit rest = .ok others ∧
        leaves = here ++ others := by
  simp only [walk, Success.bind_eq_ok_iff, Except.ok.injEq]
  constructor
  · rintro ⟨here, visited, others, walked, rfl⟩
    exact ⟨here, others, visited, walked, rfl⟩
  · rintro ⟨here, others, visited, walked, rfl⟩
    exact ⟨here, visited, others, walked, rfl⟩

/-- What holds of the leaves of each entry holds of all leaves. -/
theorem forall_mem_of_walk
    {holds : Leaf → Prop}
    {visit : String → Value → Except Error (List Leaf)}
    {styles : StyleMap}
    {leaves : List Leaf}
    (walked : walk visit styles = .ok leaves)
    (each : ∀ key value, (key, value) ∈ styles →
      ∀ here, visit key value = .ok here → ∀ leaf ∈ here, holds leaf) :
    ∀ leaf ∈ leaves, holds leaf := by
  induction styles generalizing leaves with
  | nil =>
      intro leaf member
      rw [walk, Except.ok.injEq] at walked
      rw [← walked] at member
      exact absurd member List.not_mem_nil
  | cons entry rest inductionHypothesis =>
      obtain ⟨key, value⟩ := entry
      obtain ⟨here, others, visited, restWalked, rfl⟩ :=
        (walk_cons_eq_ok_iff visit key value rest leaves).mp walked
      intro leaf member
      rcases List.mem_append.mp member with hereMember | restMember
      · exact each key value List.mem_cons_self here visited leaf hereMember
      · refine inductionHypothesis restWalked ?_ leaf restMember
        intro otherKey otherValue otherMember
        exact each otherKey otherValue (List.mem_cons_of_mem _ otherMember)

/-! ## Levels -/

/-- Where a map is walked: as styles, or as the conditions of a property. -/
inductive Level where
  | styles (context : Context)
  | conditions (outputKey property : String) (context : Context)

namespace Level

def context : Level → Context
  | .styles context => context
  | .conditions _ _ context => context

def conditionContext (scope property : String) (context : Context) (key : String) :
    Except Error Context :=
  match KeyKind.ofKey key with
  | .default => .ok context
  | .pseudo => context.enter key
  | .atRule => context.enter key
  | .property => .error (.invalidKey scope (property ++ "." ++ key) .notCondition)

/-- The level of the map under a key, which must not be empty where it holds conditions. -/
def nested (scope : String) (level : Level) (key : String) (isEmpty : Bool) :
    Except Error Level :=
  match level with
  | .styles context =>
    match KeyKind.ofKey key with
    | .pseudo | .atRule => (context.enter key).map .styles
    | .property | .default =>
      if Text.trim key = "" then .error (.invalidKey scope key .blank)
      else if isEmpty then .error (.invalidKey scope key .noConditions)
      else .ok (.conditions (context.keyStart ++ key) key context)
  | .conditions outputKey property context => do
    let inner ← conditionContext scope property context key
    if isEmpty then .error (.invalidKey scope property .noConditions)
    else .ok (.conditions outputKey property inner)

def leaf (scope : String) (level : Level) (key : String) (value : Value) : Except Error Leaf :=
  match level with
  | .styles context =>
    match KeyKind.ofKey key with
    | .pseudo | .atRule => .error (.invalidKey scope key (.notStyles value.kind))
    | .property | .default =>
      if Text.trim key = "" then .error (.invalidKey scope key .blank)
      else .ok ⟨context.keyStart ++ key, key, context, value⟩
  | .conditions outputKey property context =>
    (conditionContext scope property context key).map fun inner =>
      ⟨outputKey, property, inner, value⟩

mutual

def visit (scope : String) (level : Level) (key : String) : Value → Except Error (List Leaf)
  | .object entries => do
    let inner ← level.nested scope key entries.isEmpty
    visitEach scope inner entries
  | value => (level.leaf scope key value).map fun leaf => [leaf]

def visitEach (scope : String) (level : Level) : StyleMap → Except Error (List Leaf)
  | [] => .ok []
  | (key, value) :: rest => do
    let here ← visit scope level key value
    let others ← visitEach scope level rest
    .ok (here ++ others)

end

/-- The leaves of a map at a level. -/
def leaves (scope : String) (level : Level) (entries : StyleMap) : Except Error (List Leaf) :=
  walk (level.visit scope) entries

private theorem visitEach_eq_leaves
    (scope : String)
    (level : Level)
    (entries : StyleMap) :
    visitEach scope level entries = level.leaves scope entries := by
  induction entries with
  | nil => rw [visitEach, leaves, walk]
  | cons entry rest inductionHypothesis =>
      rw [visitEach, inductionHypothesis]
      rfl

/-- A nested map is walked at its own level, which depends on the map only through whether it is
empty. -/
theorem visit_object
    (scope : String)
    (level : Level)
    (key : String)
    (entries : StyleMap) :
    level.visit scope key (.object entries) = (do
      let inner ← level.nested scope key entries.isEmpty
      inner.leaves scope entries) := by
  rw [visit]
  simp only [visitEach_eq_leaves]

/-- Any other value is a leaf of its own. -/
theorem visit_single
    (scope : String)
    (level : Level)
    (key : String)
    {value : Value}
    (single : ∀ entries, value ≠ .object entries) :
    level.visit scope key value = (level.leaf scope key value).map fun leaf => [leaf] :=
  visit.eq_2 scope level key value single

/-- A condition opens its context first, and then its value is that of `default` inside. -/
theorem visit_conditions
    (scope outputKey property : String)
    (context : Context)
    (key : String)
    (value : Value) :
    (conditions outputKey property context).visit scope key value = (do
      let inner ← conditionContext scope property context key
      (conditions outputKey property inner).visit scope "default" value) := by
  have stays (inner : Context) : conditionContext scope property inner "default" = .ok inner := rfl
  rcases value.object_or_single with ⟨entries, rfl⟩ | single
  · simp only [visit_object, nested, stays]
    cases conditionContext scope property context key with
    | error error => rfl
    | ok inner => rfl
  · simp only [visit_single scope _ _ single, leaf, stays]
    cases conditionContext scope property context key with
    | error error => rfl
    | ok inner => rfl

end Level

/-! ## Properties of contexts -/

/-- What entering a context keeps. -/
def Context.KeptByEntering (kept : Context → Prop) : Prop :=
  ∀ context key inner, kept context → Context.enter context key = .ok inner → kept inner

namespace Level

variable {kept : Context → Prop} (entering : Context.KeptByEntering kept)
include entering

theorem kept_of_conditionContext
    {scope property : String}
    {context inner : Context}
    (outer : kept context)
    {key : String}
    (entered : conditionContext scope property context key = .ok inner) :
    kept inner := by
  unfold conditionContext at entered
  cases kind : KeyKind.ofKey key with
  | default =>
      rw [kind] at entered
      exact Except.ok.inj entered ▸ outer
  | pseudo | atRule =>
      rw [kind] at entered
      exact entering context key inner outer entered
  | property => simp [kind] at entered

private theorem kept_of_nested
    {scope : String}
    {level inner : Level}
    (outer : kept level.context)
    {key : String}
    {isEmpty : Bool}
    (opened : level.nested scope key isEmpty = .ok inner) :
    kept inner.context := by
  cases level with
  | styles context =>
      rw [nested] at opened
      split at opened
      · obtain ⟨entered, success, rfl⟩ := Success.map_eq_ok_iff.mp opened
        exact entering context key entered outer success
      · obtain ⟨entered, success, rfl⟩ := Success.map_eq_ok_iff.mp opened
        exact entering context key entered outer success
      all_goals
        split at opened
        · cases opened
        · split at opened
          · cases opened
          · rw [← Except.ok.inj opened]
            exact outer
  | conditions outputKey property context =>
      rw [nested, Success.bind_eq_ok_iff] at opened
      obtain ⟨entered, success, conditioned⟩ := opened
      split at conditioned
      · cases conditioned
      · rw [← Except.ok.inj conditioned]
        exact kept_of_conditionContext entering outer success

private theorem kept_of_leaf
    {scope : String}
    {level : Level}
    (outer : kept level.context)
    {key : String}
    {value : Value}
    {found : Leaf}
    (success : level.leaf scope key value = .ok found) :
    kept found.context := by
  cases level with
  | styles context =>
      rw [leaf] at success
      split at success
      · cases success
      · cases success
      all_goals
        split at success
        · cases success
        · rw [← Except.ok.inj success]
          exact outer
  | conditions outputKey property context =>
      rw [leaf] at success
      obtain ⟨entered, conditioned, rfl⟩ := Success.map_eq_ok_iff.mp success
      exact kept_of_conditionContext entering outer conditioned

/-- What holds of the context of a level and is kept by entering holds of the contexts of all
leaves. -/
theorem kept_of_mem_leaves
    {scope : String}
    (entries : StyleMap) :
    ∀ level : Level, kept level.context →
      ∀ {found : List Leaf}, level.leaves scope entries = .ok found →
        ∀ leaf ∈ found, kept leaf.context := by
  induction entries using StyleMap.nested_induction with
  | step entries nestedHypothesis =>
      intro level outer found walked
      refine forall_mem_of_walk walked ?_
      intro key value entryMember here visited leaf member
      rcases value.object_or_single with ⟨inside, rfl⟩ | single
      · rw [visit_object, Success.bind_eq_ok_iff] at visited
        obtain ⟨inner, opened, walkedInside⟩ := visited
        have innerKept := kept_of_nested entering outer opened
        exact nestedHypothesis key inside entryMember inner innerKept walkedInside leaf member
      · rw [visit_single scope level key single] at visited
        obtain ⟨only, success, rfl⟩ := Success.map_eq_ok_iff.mp visited
        rw [List.mem_singleton.mp member]
        exact kept_of_leaf entering outer success

end Level

end AtomicCss
