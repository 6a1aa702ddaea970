import AtomicCss.Compile.History
import AtomicCss.Proofs.Registry.Growth

/-!
Contract: what every history of operations keeps true of a registry.

Owns:
- the agreement of programs that change a registry in place with changes that are made as a whole;
- the one statement of what a step of a history can do;
- the invariants of histories that follow from it.

Does not own: what compilations put into a registry.
-/

namespace AtomicCss

/-! ## Programs as whole changes -/

namespace Program

/-- A change made as a whole: either all of it happens, or the registry stays as it is. -/
def whole {α : Type} (registry : Registry) (change : Except Error (Registry × α)) :
    EStateM.Result Error Registry α :=
  match change with
  | .ok (changed, value) => .ok value changed
  | .error error => .error error registry

theorem whole_eq_ok_iff
    {α : Type}
    {registry changed : Registry}
    {change : Except Error (Registry × α)}
    {value : α} :
    whole registry change = .ok value changed ↔ change = .ok (changed, value) := by
  cases change with
  | error error => simp [whole]
  | ok done =>
      simp only [whole, EStateM.Result.ok.injEq, Except.ok.injEq, Prod.ext_iff]
      exact and_comm

private theorem run_lift
    {α : Type}
    (result : Except Error α)
    (registry : Registry) :
    (lift result).run registry = whole registry (result.map fun value => (registry, value)) := by
  cases result with
  | error error => rfl
  | ok value => rfl

private theorem run_attempt
    {α : Type}
    (program : Program α)
    (registry : Registry) :
    (attempt program).run registry =
      match program.run registry with
      | .ok value changed => .ok (.ok value) changed
      | .error error changed => .ok (.error error) changed :=
  rfl

theorem run_check
    (artifact : Artifact)
    (registry : Registry) :
    (check artifact).run registry =
      whole registry ((registry.check artifact).map fun passed => (registry, passed)) := by
  rw [check, EStateM.run_bind, EStateM.run_get]
  exact run_lift _ registry

theorem run_store
    (artifact : Artifact)
    (registry : Registry) :
    (store artifact).run registry =
      .ok (!registry.contains artifact.id) (registry.add artifact) := by
  rw [store, EStateM.run_bind, EStateM.run_get]
  simp only
  cases taken : registry.contains artifact.id with
  | true =>
      rw [Registry.add_of_contains taken]
      rfl
  | false =>
      rw [Registry.add_of_not_contains taken]
      rfl

theorem run_insert
    (artifact : Artifact)
    (registry : Registry) :
    (insert artifact).run registry = whole registry (registry.insert artifact) := by
  rw [insert, EStateM.run_bind, run_check, Registry.insert]
  cases registry.check artifact with
  | error error => rfl
  | ok passed => exact run_store artifact registry

private theorem run_checkEach
    (batch : List Artifact)
    (registry : Registry) :
    (checkEach batch).run registry =
      whole registry ((registry.checkAll batch).map fun passed => (registry, passed)) := by
  induction batch with
  | nil => rfl
  | cons artifact rest inductionHypothesis =>
      rw [checkEach, EStateM.run_bind, run_check, Registry.checkAll]
      cases registry.check artifact with
      | error error => rfl
      | ok passed => exact inductionHypothesis

/-- Storing one artifact after the other adds them all, and counts by how much the registry
grows. -/
theorem run_storeEach
    (batch : List Artifact)
    (registry : Registry) :
    (storeEach batch).run registry =
      .ok ((batch.foldl Registry.add registry).artifacts.length - registry.artifacts.length)
        (batch.foldl Registry.add registry) := by
  induction batch generalizing registry with
  | nil => simp [storeEach]
  | cons artifact rest inductionHypothesis =>
      -- The count is a difference of lengths, exact because the registry only grows.
      have grown :=
        (Registry.prefix_foldl_add rest (registry.add artifact)).length_le
      rw [storeEach, EStateM.run_bind, run_store]
      simp only [EStateM.run_bind, inductionHypothesis, EStateM.run_pure, List.foldl_cons,
        EStateM.Result.ok.injEq, and_true]
      cases taken : registry.contains artifact.id with
      | true =>
          rw [Registry.add_of_contains taken]
          simp
      | false =>
          rw [Registry.add_of_not_contains taken] at grown ⊢
          simp only [List.length_append, List.length_singleton] at grown
          simp only [List.length_append, List.length_singleton, Bool.not_false, ↓reduceIte]
          omega

theorem run_merge
    (batch : List Artifact)
    (registry : Registry) :
    (merge batch).run registry = whole registry (registry.merge batch) := by
  rw [merge, EStateM.run_bind, run_checkEach, Registry.merge]
  cases registry.checkAll batch with
  | error error => rfl
  | ok passed => exact run_storeEach batch registry

theorem run_mergeFinished
    (finished : Except Error Output)
    (registry : Registry) :
    (mergeFinished finished).run registry =
      whole registry (finished.bind (Compiler.mergeOutput registry)) := by
  rw [mergeFinished, EStateM.run_bind, run_lift]
  cases finished with
  | error error => rfl
  | ok output =>
      simp only [whole, Except.map, EStateM.run_bind, run_merge, Except.bind,
        Compiler.mergeOutput]
      cases registry.merge output.artifacts with
      | error error => rfl
      | ok merged => rfl

/-- Merging one compilation after the other never fails as a whole. -/
theorem run_mergeEach
    (finished : List (Except Error Output))
    (registry : Registry) :
    (mergeEach finished).run registry =
      .ok (Compiler.mergeEach registry finished).2 (Compiler.mergeEach registry finished).1 := by
  induction finished generalizing registry with
  | nil => rfl
  | cons first rest inductionHypothesis =>
      rw [mergeEach, EStateM.run_bind, run_attempt, run_mergeFinished, Compiler.mergeEach]
      cases first.bind (Compiler.mergeOutput registry) with
      | error error =>
          simp only [whole, EStateM.run_bind, inductionHypothesis, EStateM.run_pure]
      | ok merged =>
          simp only [whole, EStateM.run_bind, inductionHypothesis, EStateM.run_pure]

private theorem run_insertFinished
    (finished : Except Error CompiledKeyframes)
    (registry : Registry) :
    (insertFinished finished).run registry =
      whole registry (finished.bind fun compiled =>
        (registry.insert (.keyframes compiled.block)).map fun done => (done.1, compiled)) := by
  rw [insertFinished, EStateM.run_bind, run_lift]
  cases finished with
  | error error => rfl
  | ok compiled =>
      simp only [whole, Except.map, EStateM.run_bind, run_insert, Except.bind]
      cases registry.insert (.keyframes compiled.block) with
      | error error => rfl
      | ok done => rfl

private theorem run_map
    {α β : Type}
    {program : Program α}
    {registry : Registry}
    {change : Except Error (Registry × α)}
    (ran : program.run registry = whole registry change)
    (wrap : α → β) :
    (do return wrap (← program) : Program β).run registry =
      whole registry (change.map fun done => (done.1, wrap done.2)) := by
  rw [EStateM.run_bind, ran]
  cases change with
  | error error => rfl
  | ok done => rfl

end Program

/-! ## What one operation can do -/

namespace Compiler

theorem mergeOutput_eq_ok
    {registry merged : Registry}
    {output result : Output}
    (success : mergeOutput registry output = .ok (merged, result)) :
    result = output ∧ (∀ artifact ∈ output.artifacts, registry.Accepts artifact) ∧
      merged = output.artifacts.foldl Registry.add registry := by
  obtain ⟨done, mergedBatch, equal⟩ := Success.bind_eq_ok_iff.mp success
  obtain ⟨accepted, rfl⟩ := (Registry.merge_eq_ok_iff registry output.artifacts done).mp mergedBatch
  obtain ⟨rfl, rfl⟩ := Prod.mk.inj (Except.ok.inj equal)
  exact ⟨rfl, accepted, rfl⟩

/-- A finished compilation that is merged adds its artifacts. -/
theorem exists_batch_of_bind_mergeOutput
    {registry merged : Registry}
    {finished : Except Error Output}
    {output : Output}
    (success : finished.bind (mergeOutput registry) = .ok (merged, output)) :
    ∃ batch : List Artifact, merged = batch.foldl Registry.add registry := by
  cases finished with
  | error error => contradiction
  | ok compiled => exact ⟨compiled.artifacts, (mergeOutput_eq_ok success).2.2⟩

private theorem exists_batch_of_mergeEach
    (finished : List (Except Error Output))
    (registry : Registry) :
    ∃ batch : List Artifact,
      (mergeEach registry finished).1 = batch.foldl Registry.add registry := by
  induction finished generalizing registry with
  | nil => exact ⟨[], rfl⟩
  | cons first rest inductionHypothesis =>
      simp only [mergeEach]
      cases merged : first.bind (mergeOutput registry) with
      | error error => exact inductionHypothesis registry
      | ok done =>
          obtain ⟨firstBatch, firstAdded⟩ := exists_batch_of_bind_mergeOutput merged
          obtain ⟨restBatch, restAdded⟩ := inductionHypothesis done.1
          refine ⟨firstBatch ++ restBatch, ?_⟩
          rw [List.foldl_append, ← firstAdded]
          exact restAdded

/-- Merging only the compilations that have a result gives the same registry and these results:
the others contribute nothing. -/
theorem mergeEach_kept
    {α : Type}
    (compiled : α → Except Error Output)
    (sources : List α)
    (registry : Registry) :
    mergeEach registry
        (((sources.zip (mergeEach registry (sources.map compiled)).2).filter
          fun entry => entry.2.isOk).map fun entry => compiled entry.1) =
      ((mergeEach registry (sources.map compiled)).1,
        (mergeEach registry (sources.map compiled)).2.filter Except.isOk) := by
  induction sources generalizing registry with
  | nil => rfl
  | cons source rest inductionHypothesis =>
      rw [List.map_cons, mergeEach]
      cases merged : (compiled source).bind (mergeOutput registry) with
      | error error =>
          simpa [Except.isOk, Except.toBool] using inductionHypothesis registry
      | ok done =>
          have kept : (Except.ok done.2 : Except Error Output).isOk = true := rfl
          simp only [List.zip_cons_cons, List.filter_cons, kept, if_true, List.map_cons, mergeEach,
            merged, inductionHypothesis done.1]

private theorem length_mergeEach
    (finished : List (Except Error Output))
    (registry : Registry) :
    (mergeEach registry finished).2.length = finished.length := by
  induction finished generalizing registry with
  | nil => rfl
  | cons first rest inductionHypothesis =>
      simp only [mergeEach]
      cases first.bind (mergeOutput registry) with
      | error error => simp [inductionHypothesis]
      | ok done => simp [inductionHypothesis]

end Compiler

namespace Operation

def change (operation : Operation) (registry : Registry) : Except Error (Registry × Outcome) :=
  match operation with
  | .insert artifact => (registry.insert artifact).map fun done => (done.1, .inserted done.2)
  | .merge batch => (registry.merge batch).map fun done => (done.1, .merged done.2)
  | .compile compiler definition =>
    (compiler.compile definition registry).map fun done => (done.1, .compiled done.2)
  | .compileShared compiler definition =>
    (compiler.compile definition registry).map fun done => (done.1, .compiled done.2)
  | .compileSource compiler source =>
    (compiler.compileInto source registry).map fun done => (done.1, .compiled done.2)
  | .compileAnimation compiler frames =>
    (compiler.compileAnimation frames registry).map fun done => (done.1, .animated done.2)
  | .compileParallel compiler definitions =>
    let done := compiler.compileParallel definitions registry
    .ok (done.1, .parallel done.2)

/-- Every operation changes the registry as a whole, although its program works step by step. -/
theorem perform_eq_whole
    (operation : Operation)
    (registry : Registry) :
    operation.perform registry = Program.whole registry (operation.change registry) := by
  cases operation with
  | insert artifact => exact Program.run_map (Program.run_insert artifact registry) _
  | merge batch => exact Program.run_map (Program.run_merge batch registry) _
  | compile _ _ | compileShared _ _ | compileSource _ _ =>
      exact Program.run_map (Program.run_mergeFinished _ registry) _
  | compileAnimation compiler frames =>
      have same :
          ((compileKeyframes compiler.options frames).bind fun compiled =>
              (registry.insert (.keyframes compiled.block)).map fun done => (done.1, compiled)) =
            compiler.compileAnimation frames registry := by
        unfold Compiler.compileAnimation
        cases compileKeyframes compiler.options frames with
        | error error => rfl
        | ok compiled =>
            simp only [Except.bind, bind]
            cases registry.insert (.keyframes compiled.block) with
            | error error => rfl
            | ok done => rfl
      have ran := Program.run_insertFinished (compileKeyframes compiler.options frames) registry
      rw [same] at ran
      exact Program.run_map ran _
  | compileParallel compiler definitions =>
      unfold perform program change
      rw [EStateM.run_bind, Program.run_mergeEach]
      rfl

/-- An operation that succeeds adds artifacts to the registry, and does nothing else to it. -/
theorem exists_batch_of_change
    {operation : Operation}
    {registry changed : Registry}
    {outcome : Outcome}
    (success : operation.change registry = .ok (changed, outcome)) :
    ∃ batch : List Artifact, changed = batch.foldl Registry.add registry := by
  cases operation with
  | insert artifact =>
      obtain ⟨done, inserted, equal⟩ := Success.map_eq_ok_iff.mp success
      obtain ⟨-, rfl⟩ := (Registry.insert_eq_ok_iff registry artifact done).mp inserted
      obtain ⟨rfl, rfl⟩ := Prod.mk.inj equal
      exact ⟨[artifact], rfl⟩
  | merge batch =>
      obtain ⟨done, merged, equal⟩ := Success.map_eq_ok_iff.mp success
      obtain ⟨-, rfl⟩ := (Registry.merge_eq_ok_iff registry batch done).mp merged
      obtain ⟨rfl, rfl⟩ := Prod.mk.inj equal
      exact ⟨batch, rfl⟩
  | compile _ _ | compileShared _ _ | compileSource _ _ =>
      obtain ⟨done, merged, equal⟩ := Success.map_eq_ok_iff.mp success
      obtain ⟨rfl, rfl⟩ := Prod.mk.inj equal
      exact Compiler.exists_batch_of_bind_mergeOutput merged
  | compileAnimation compiler frames =>
      obtain ⟨done, animated, equal⟩ := Success.map_eq_ok_iff.mp success
      obtain ⟨compiled, -, inserting⟩ := Success.bind_eq_ok_iff.mp animated
      obtain ⟨extended, inserted, finished⟩ := Success.bind_eq_ok_iff.mp inserting
      obtain ⟨-, rfl⟩ := (Registry.insert_eq_ok_iff registry _ extended).mp inserted
      obtain rfl := Except.ok.inj finished
      obtain ⟨rfl, rfl⟩ := Prod.mk.inj equal
      exact ⟨[.keyframes compiled.block], rfl⟩
  | compileParallel compiler definitions =>
      obtain ⟨rfl, rfl⟩ := Prod.mk.inj (Except.ok.inj success)
      exact Compiler.exists_batch_of_mergeEach _ registry

/-- A step of a history adds artifacts, or fails and leaves the registry as it was. -/
theorem perform_cases
    (operation : Operation)
    (registry : Registry) :
    (∃ (outcome : Outcome) (batch : List Artifact),
        operation.perform registry = .ok outcome (batch.foldl Registry.add registry)) ∨
      ∃ error, operation.perform registry = .error error registry := by
  rw [perform_eq_whole]
  cases changing : operation.change registry with
  | error error => exact .inr ⟨error, rfl⟩
  | ok done =>
      obtain ⟨batch, added⟩ := exists_batch_of_change changing
      exact .inl ⟨done.2, batch, by rw [← added]; rfl⟩

theorem exists_batch_after
    (operation : Operation)
    (registry : Registry) :
    ∃ batch : List Artifact, after registry operation = batch.foldl Registry.add registry := by
  unfold after
  rcases perform_cases operation registry with ⟨outcome, batch, performed⟩ | ⟨error, performed⟩
  · exact ⟨batch, by rw [performed]⟩
  · exact ⟨[], by rw [performed]; rfl⟩

/-! ## Histories -/

/-- Whatever happens to a registry amounts to adding artifacts to it. -/
theorem exists_batch_afterAll
    (operations : List Operation)
    (registry : Registry) :
    ∃ batch : List Artifact,
      afterAll registry operations = batch.foldl Registry.add registry := by
  induction operations generalizing registry with
  | nil => exact ⟨[], rfl⟩
  | cons operation rest inductionHypothesis =>
      obtain ⟨firstBatch, firstAdded⟩ := exists_batch_after operation registry
      obtain ⟨restBatch, restAdded⟩ := inductionHypothesis (after registry operation)
      refine ⟨firstBatch ++ restBatch, ?_⟩
      rw [List.foldl_append, ← firstAdded]
      exact restAdded

private theorem prefix_after
    (operation : Operation)
    (registry : Registry) :
    registry.artifacts <+: (after registry operation).artifacts := by
  obtain ⟨batch, added⟩ := exists_batch_after operation registry
  rw [added]
  exact Registry.prefix_foldl_add batch registry

theorem prefix_afterAll
    (operations : List Operation)
    (registry : Registry) :
    registry.artifacts <+: (afterAll registry operations).artifacts := by
  obtain ⟨batch, added⟩ := exists_batch_afterAll operations registry
  rw [added]
  exact Registry.prefix_foldl_add batch registry

theorem isKeyed_afterAll
    (operations : List Operation) :
    (afterAll Registry.empty operations).IsKeyed := by
  obtain ⟨batch, added⟩ := exists_batch_afterAll operations Registry.empty
  rw [added]
  exact Registry.isKeyed_empty.foldl_add batch

private theorem unchanged_of_perform_error
    {operation : Operation}
    {registry left : Registry}
    {error : Error}
    (failed : operation.perform registry = .error error left) :
    left = registry := by
  rcases perform_cases operation registry with ⟨outcome, batch, performed⟩ | ⟨cause, performed⟩
  · rw [performed] at failed
    contradiction
  · rw [performed] at failed
    exact (EStateM.Result.error.inj failed).2.symm

/-- The definitions of a parallel compilation whose results are errors can be left out: the
others have the same results without them, and leave the same registry. -/
theorem perform_compileParallel_kept
    (compiler : Compiler)
    (definitions : List Definition)
    (registry : Registry) :
    ∃ (results : List (Except Error Output)) (final : Registry),
      (compileParallel compiler definitions).perform registry = .ok (.parallel results) final ∧
        results.length = definitions.length ∧
        (compileParallel compiler
            (((definitions.zip results).filter fun entry => entry.2.isOk).map Prod.fst)).perform
              registry =
          .ok (.parallel (results.filter Except.isOk)) final := by
  refine ⟨_, _, perform_eq_whole _ registry, ?_, ?_⟩
  · simp [Compiler.compileParallel, Compiler.length_mergeEach]
  · rw [perform_eq_whole]
    simp only [change, Compiler.compileParallel, List.map_map]
    have kept :=
      Compiler.mergeEach_kept (compileDefinition compiler.options) definitions registry
    simp only [Function.comp_def]
    rw [kept]
    rfl

/-- The invariant of every history that starts with nothing. No name occurs twice and every
artifact is found under its own; a step only appends; a step that fails changes nothing, and in a
parallel compilation the definitions that fail contribute nothing. -/
theorem history_keyed_and_append_only
    (operations : List Operation) :
    let registry := afterAll Registry.empty operations
    ((registry.artifacts.map Artifact.id).Nodup ∧
        ∀ artifact ∈ registry.artifacts, registry.get? artifact.id = some artifact) ∧
      (∀ operation, registry.artifacts <+: (after registry operation).artifacts) ∧
      (∀ operation error left,
        perform operation registry = .error error left → left = registry) ∧
      ∀ compiler definitions, ∃ results final,
        (compileParallel compiler definitions).perform registry = .ok (.parallel results) final ∧
          results.length = definitions.length ∧
          (compileParallel compiler
              (((definitions.zip results).filter fun entry => entry.2.isOk).map Prod.fst)).perform
                registry =
            .ok (.parallel (results.filter Except.isOk)) final := by
  intro registry
  have keyed : registry.IsKeyed := isKeyed_afterAll operations
  refine ⟨⟨keyed, ?_⟩, ?_, ?_, ?_⟩
  · intro artifact member
    exact Keyed.Distinct.lookup_eq_some_iff keyed |>.mpr ⟨member, rfl⟩
  · intro operation
    exact prefix_after operation registry
  · intro operation error left failed
    exact unchanged_of_perform_error failed
  · intro compiler definitions
    exact perform_compileParallel_kept compiler definitions registry

/-- Inserting another body under a name that is taken fails, and leaves the one artifact there. -/
theorem history_after_collision :
    let red : Artifact := .rule ⟨"x1", ⟨".x1\x7bcolor:red\x7d", none⟩, 3000⟩
    let blue : Artifact := .rule ⟨"x1", ⟨".x1\x7bcolor:blue\x7d", none⟩, 3000⟩
    ∃ error left,
      (insert blue).perform (afterAll Registry.empty [insert red]) = .error error left ∧
        left = afterAll Registry.empty [insert red] ∧ left.artifacts = [red] := by
  intro red blue
  have failing : ∃ error left,
      (insert blue).perform (afterAll Registry.empty [insert red]) = .error error left :=
    ⟨_, _, rfl⟩
  obtain ⟨error, left, failed⟩ := failing
  have unchanged :=
    (history_keyed_and_append_only [insert red]).2.2.1 (insert blue) error left failed
  refine ⟨error, left, failed, unchanged, ?_⟩
  rw [unchanged]
  rfl

end Operation

end AtomicCss
