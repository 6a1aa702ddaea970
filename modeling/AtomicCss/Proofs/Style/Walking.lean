import AtomicCss.Proofs.Style.Flattening

/-!
Contract: the walk that keeps a stack of contexts, against the walk that is handed its context.

Owns:
- parts of a walk that find leaves and come back to the context they started in;
- how such parts are put together, the one inside a context included;
- the leaves of a style map, level by level.

Does not own: the stack of a walk that failed, which nothing reads.
-/

namespace AtomicCss

/-- Entering a context and leaving it again comes back to where it started. -/
theorem Context.pop_of_enter
    {context inner : Context}
    {key : String}
    (entered : context.enter key = .ok inner) :
    inner.pop.2 = context := by
  unfold enter at entered
  obtain ⟨segment, -, pushed⟩ := Success.bind_eq_ok_iff.mp entered
  split at pushed
  · cases pushed
  · split at pushed
    · cases pushed
    · split at pushed
      · cases pushed
      · rw [← Except.ok.inj pushed, pop, push, List.dropLast_concat]

namespace Walker

/-! ## Parts of a walk -/

/-- A part of a walk that finds leaves in a context and comes back to it, or fails. -/
structure Finds (walker : Walker Unit) (context : Context) (found : Except Error (List Leaf)) :
    Prop where
  comesBack : ∀ leaves, found = .ok leaves →
    ∀ before, walker.run ⟨context, before⟩ = .ok () ⟨context, before ++ leaves⟩
  fails : ∀ error, found = .error error →
    ∀ before, ∃ left, walker.run ⟨context, before⟩ = .error error left

namespace Finds

variable {context : Context}

theorem nothing :
    Finds (pure ()) context (.ok []) := by
  refine ⟨?_, nofun⟩
  rintro _ ⟨⟩ before
  rw [List.append_nil]
  rfl

theorem failure
    (error : Error) :
    Finds (throw error) context (.error error) := by
  refine ⟨nofun, ?_⟩
  rintro _ ⟨⟩ before
  exact ⟨_, rfl⟩

theorem single
    (outputKey property : String)
    (value : Value) :
    Finds (find outputKey property value) context
      (.ok [⟨outputKey, property, context, value⟩]) := by
  refine ⟨?_, nofun⟩
  rintro _ ⟨⟩ before
  rfl

/-- A part that asks where the walk is. -/
theorem asking
    (part : Context → Walker Unit)
    {found : Except Error (List Leaf)}
    (finds : Finds (part context) context found) :
    Finds (do let walk ← get; part walk.context) context found :=
  ⟨finds.comesBack, finds.fails⟩

/-- One part after another. -/
theorem andThen
    {first second : Walker Unit}
    {found others : Except Error (List Leaf)}
    (firstFinds : Finds first context found)
    (secondFinds : Finds second context others) :
    Finds (do first; second) context (do
      let here ← found
      let there ← others
      .ok (here ++ there)) := by
  cases found with
  | error error =>
      refine ⟨nofun, ?_⟩
      rintro _ ⟨⟩ before
      obtain ⟨left, failed⟩ := firstFinds.fails error rfl before
      exact ⟨left, by rw [EStateM.run_bind, failed]⟩
  | ok here =>
      have ran (before : List Leaf) :
          (do first; second : Walker Unit).run ⟨context, before⟩ =
            second.run ⟨context, before ++ here⟩ := by
        rw [EStateM.run_bind, firstFinds.comesBack here rfl before]
      cases others with
      | error error =>
          refine ⟨nofun, ?_⟩
          rintro _ ⟨⟩ before
          rw [ran]
          exact secondFinds.fails error rfl _
      | ok there =>
          refine ⟨?_, nofun⟩
          rintro _ ⟨⟩ before
          rw [ran, secondFinds.comesBack there rfl, List.append_assoc]

/-- A part inside a context, which is entered before it and left after it. -/
theorem inside
    (context : Context)
    (key : String)
    {part : Walker Unit}
    {found : Context → Except Error (List Leaf)}
    (finds : ∀ inner, context.enter key = .ok inner → Finds part inner (found inner)) :
    Finds (within key part) context (do
      let inner ← context.enter key
      found inner) := by
  cases entered : context.enter key with
  | error error =>
      refine ⟨nofun, ?_⟩
      rintro _ ⟨⟩ before
      refine ⟨⟨context, before⟩, ?_⟩
      simp only [within, enter, EStateM.run_bind, EStateM.run_get, entered]
      rfl
  | ok inner =>
      have partFinds := finds inner entered
      have ran (before : List Leaf) :
          (within key part).run ⟨context, before⟩ =
            (do part; leave : Walker Unit).run ⟨inner, before⟩ := by
        rw [within, EStateM.run_bind]
        simp only [enter, EStateM.run_bind, EStateM.run_get, entered]
        rfl
      constructor
      · intro leaves succeeds before
        rw [ran, EStateM.run_bind, partFinds.comesBack leaves succeeds]
        simp only [leave, EStateM.run_bind, EStateM.run_get, Context.pop_of_enter entered]
        rfl
      · intro error failed before
        obtain ⟨left, stops⟩ := partFinds.fails error failed before
        exact ⟨left, by rw [ran, EStateM.run_bind, stops]⟩

end Finds

/-! ## Levels -/

/-- The walk through a map finds, as styles and as conditions, the leaves of the level. -/
def FindsLeaves (scope : String) (entries : StyleMap) : Prop :=
  (∀ context,
      Finds (walkStyles scope entries) context ((Level.styles context).leaves scope entries)) ∧
    ∀ outputKey property context,
      Finds (walkConditions scope outputKey property entries) context
        ((Level.conditions outputKey property context).leaves scope entries)

section Entries

variable {scope : String} {value : Value}
variable (nested : ∀ entries, value = .object entries → FindsLeaves scope entries)
include nested

private theorem finds_walkEntry
    (key : String)
    (context : Context) :
    Finds (walkEntry scope key value) context ((Level.styles context).visit scope key value) := by
  rcases value.object_or_single with ⟨entries, rfl⟩ | single
  · obtain ⟨asStyles, asConditions⟩ := nested entries rfl
    rw [walkEntry, Level.visit_object, Level.nested]
    cases KeyKind.ofKey key with
    | pseudo | atRule =>
        have entering := Finds.inside context key fun inner _ => asStyles inner
        cases entered : context.enter key with
        | error _ | ok _ =>
            rw [entered] at entering
            exact entering
    | property | default =>
        by_cases blank : Text.trim key = ""
        · simp only [if_pos blank]
          exact .failure _
        · simp only [if_neg blank]
          cases noConditions : entries.isEmpty with
          | true => exact .failure _
          | false =>
              exact .asking (fun here => walkConditions scope (here.keyStart ++ key) key entries)
                (asConditions (context.keyStart ++ key) key context)
  · rw [walkEntry.eq_2 scope key value single, Level.visit_single scope _ key single, Level.leaf]
    cases KeyKind.ofKey key with
    | pseudo | atRule => exact .failure _
    | property | default =>
        by_cases blank : Text.trim key = ""
        · simp only [if_pos blank]
          exact .failure _
        · simp only [if_neg blank]
          exact .asking (fun here => find (here.keyStart ++ key) key value)
            (.single (context.keyStart ++ key) key value)

/-- The value of a condition, once the walk is in the context of the condition, is walked like one
under `default`. -/
theorem finds_walkBranch
    (outputKey property : String)
    (context : Context) :
    Finds (walkBranch scope outputKey property value) context
      ((Level.conditions outputKey property context).visit scope "default" value) := by
  have stays : Level.conditionContext scope property context "default" = .ok context := rfl
  rcases value.object_or_single with ⟨entries, rfl⟩ | single
  · rw [walkBranch, Level.visit_object, Level.nested, stays]
    cases noConditions : entries.isEmpty with
    | true => exact .failure _
    | false => exact (nested entries rfl).2 outputKey property context
  · rw [walkBranch.eq_2 scope outputKey property value single,
      Level.visit_single scope _ _ single, Level.leaf, stays]
    exact .single outputKey property value

private theorem finds_underCondition
    (outputKey property key : String)
    (context : Context) :
    Finds (underCondition scope property key (walkBranch scope outputKey property value)) context
      ((Level.conditions outputKey property context).visit scope key value) := by
  have branch := finds_walkBranch nested outputKey property
  rw [underCondition, Level.visit_conditions, Level.conditionContext]
  cases KeyKind.ofKey key with
  | default => exact branch context
  | pseudo | atRule => exact .inside context key fun inner _ => branch inner
  | property => exact .failure _

end Entries

private theorem findsLeaves_of_nested
    {scope : String}
    {entries : StyleMap}
    (nested : ∀ key inside, (key, Value.object inside) ∈ entries → FindsLeaves scope inside) :
    FindsLeaves scope entries := by
  induction entries with
  | nil =>
      constructor
      · intro context
        rw [walkStyles]
        exact .nothing
      · intro outputKey property context
        rw [walkConditions]
        exact .nothing
  | cons entry rest inductionHypothesis =>
      obtain ⟨key, value⟩ := entry
      have valueNested (inside : StyleMap) (isObject : value = .object inside) :
          FindsLeaves scope inside :=
        nested key inside (isObject ▸ List.mem_cons_self)
      obtain ⟨restStyles, restConditions⟩ := inductionHypothesis fun other inside member =>
        nested other inside (List.mem_cons_of_mem _ member)
      constructor
      · intro context
        rw [walkStyles]
        exact (finds_walkEntry valueNested key context).andThen (restStyles context)
      · intro outputKey property context
        rw [walkConditions]
        exact (finds_underCondition valueNested outputKey property key context).andThen
          (restConditions outputKey property context)

/-- Whatever is nested in a map, a walk through it that succeeds has left every context that it
entered, and has found the leaves of the map where it stands. -/
theorem findsLeaves
    (scope : String)
    (entries : StyleMap) :
    FindsLeaves scope entries := by
  induction entries using StyleMap.nested_induction with
  | step entries nested => exact findsLeaves_of_nested nested

end Walker

/-- The leaves of a style map are those of the outermost level. -/
theorem flatten_eq_leaves
    (scope : String)
    (styles : StyleMap) :
    flatten scope styles = (Level.styles Context.empty).leaves scope styles := by
  have finds := (Walker.findsLeaves scope styles).1 Context.empty
  unfold flatten
  cases found : (Level.styles Context.empty).leaves scope styles with
  | error error =>
      obtain ⟨left, failed⟩ := finds.fails error found []
      rw [failed]
  | ok leaves =>
      rw [finds.comesBack leaves found []]
      rfl

end AtomicCss
