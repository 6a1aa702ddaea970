import AtomicCss.Proofs.Registry.History
import Mathlib.Data.List.Basic

/-!
Contract: batches that are merged into a registry, and the same artifacts inserted one by one.

Owns:
- the newcomers of a batch, and that adding the batch appends just these;
- insertion one by one, which accepts a coherent batch just where merging does;
- the exact outcome of merging a batch.

Does not own: what compilations put into a batch.
-/

namespace AtomicCss

/-! ## Newcomers -/

namespace Keyed

variable {α κ : Type} [DecidableEq κ] {key : α → κ}

variable (key) in
/-- The first item of a batch for each key that is free in a list, in the order of the batch. -/
def newcomers (items batch : List α) : List α :=
  (batch.filter fun item => !(lookup key items (key item)).isSome).eraseDupsBy
    fun later earlier => key earlier = key later

/-- A key is free after an item was added if it was free before and is not the item's. -/
theorem isSome_lookup_add
    (items : List α)
    (item : α)
    (wanted : κ) :
    (lookup key (add key items item) wanted).isSome =
      ((lookup key items wanted).isSome || key item = wanted) := by
  rw [lookup_add, Option.isSome_or]
  by_cases sameKey : key item = wanted
  · simp [sameKey]
  · simp [sameKey]

/-- Adding a batch appends its newcomers. -/
theorem foldl_add_eq_append_newcomers
    (batch items : List α) :
    batch.foldl (add key) items = items ++ newcomers key items batch := by
  induction batch generalizing items with
  | nil => exact (List.append_nil items).symm
  | cons item rest inductionHypothesis =>
      rw [List.foldl_cons, inductionHypothesis]
      cases taken : (lookup key items (key item)).isSome with
      | true =>
          rw [add_of_taken taken, newcomers, newcomers, List.filter_cons_of_neg (by simp [taken])]
      | false =>
          -- What the item takes from the rest is what the list extended by it refuses.
          have restFree :
              (rest.filter fun other => !(lookup key (add key items item) (key other)).isSome) =
                (rest.filter fun other => !(lookup key items (key other)).isSome).filter
                  fun other => decide (key item = key other) = false := by
            rw [List.filter_filter]
            apply List.filter_congr
            intro other _
            rw [isSome_lookup_add, Bool.not_or, Bool.and_comm]
            simp
          rw [newcomers, restFree, add_of_free taken, newcomers,
            List.filter_cons_of_pos (by simp [taken]), List.eraseDupsBy_cons, List.append_assoc]
          rfl

/-- Adding an item changes nothing for others that agree with it. -/
theorem accepts_add_iff
    {items : List α}
    {item other : α}
    (agree : key item = key other → item = other) :
    Accepts key (add key items item) other ↔ Accepts key items other := by
  constructor
  · intro accepted existing found
    apply accepted
    exact lookup_of_prefix (prefix_add items item) found
  · intro accepted existing found
    rw [lookup_add, Option.or_eq_some_iff] at found
    rcases found with before | ⟨-, added⟩
    · exact accepted existing before
    · split at added
      · rename_i sameKey
        obtain rfl := Option.some.inj added
        exact agree sameKey
      · cases added

end Keyed

/-! ## Insertion one by one -/

namespace Program

def insertEach (batch : List Artifact) : Program (List Bool) :=
  batch.mapM insert

/-- The first artifact is inserted, and then the rest. -/
theorem run_insertEach_cons_eq_ok_iff
    (artifact : Artifact)
    (rest : List Artifact)
    (registry final : Registry)
    (news : List Bool) :
    (insertEach (artifact :: rest)).run registry = .ok news final ↔
      registry.Accepts artifact ∧
        ∃ others, (insertEach rest).run (registry.add artifact) = .ok others final ∧
          news = (!registry.contains artifact.id) :: others := by
  have inserted := Registry.insert_eq_ok_iff registry artifact
  rw [insertEach, List.mapM_cons, EStateM.run_bind, run_insert]
  cases inserting : registry.insert artifact with
  | error error =>
      have refused : ¬registry.Accepts artifact := by
        intro accepted
        rw [(inserted _).mpr ⟨accepted, rfl⟩] at inserting
        cases inserting
      simp [whole, refused]
  | ok done =>
      obtain ⟨accepted, rfl⟩ := (inserted done).mp inserting
      simp only [whole, EStateM.run_bind, EStateM.run_pure, accepted, true_and]
      cases restRan : (insertEach rest).run (registry.add artifact) with
      | error error left =>
          rw [insertEach] at restRan
          simp [restRan]
      | ok others last =>
          rw [insertEach] at restRan
          simp [restRan, and_comm, eq_comm]

/-- Insertion one by one adds the batch, and tells as many artifacts new as the registry grows
by. -/
theorem grown_of_run_insertEach
    {batch : List Artifact}
    {registry final : Registry}
    {news : List Bool}
    (ran : (insertEach batch).run registry = .ok news final) :
    final = batch.foldl Registry.add registry ∧
      final.artifacts.length = registry.artifacts.length + news.count true := by
  induction batch generalizing registry news with
  | nil =>
      obtain ⟨rfl, rfl⟩ := EStateM.Result.ok.inj ran
      exact ⟨rfl, rfl⟩
  | cons artifact rest inductionHypothesis =>
      obtain ⟨-, others, restRan, rfl⟩ :=
        (run_insertEach_cons_eq_ok_iff artifact rest registry final news).mp ran
      obtain ⟨added, grown⟩ := inductionHypothesis restRan
      refine ⟨added, ?_⟩
      rw [grown]
      cases taken : registry.contains artifact.id with
      | true => simp [Registry.add_of_contains taken]
      | false =>
          rw [Registry.add_of_not_contains taken, List.length_append, List.length_singleton,
            Bool.not_false, List.count_cons_self, Nat.add_assoc, Nat.add_comm 1]

/-- A batch that agrees with itself is inserted one by one just where all of it is accepted
beforehand. -/
theorem exists_run_insertEach_iff
    {batch : List Artifact}
    (coherent : Keyed.Coherent Artifact.id batch)
    (registry : Registry) :
    (∃ news final, (insertEach batch).run registry = .ok news final) ↔
      ∀ artifact ∈ batch, registry.Accepts artifact := by
  induction batch generalizing registry with
  | nil => exact ⟨fun _ => List.forall_mem_nil _, fun _ => ⟨[], registry, rfl⟩⟩
  | cons artifact rest inductionHypothesis =>
      have restCoherent : Keyed.Coherent Artifact.id rest :=
        coherent.of_subset (List.subset_cons_self artifact rest)
      -- The growing registry refuses nothing that the registry accepted.
      have stillAccepted (other : Artifact) (member : other ∈ rest) :
          (registry.add artifact).Accepts other ↔ registry.Accepts other := by
        unfold Registry.Accepts
        rw [Registry.artifacts_add]
        exact Keyed.accepts_add_iff
          (coherent artifact List.mem_cons_self other (List.mem_cons_of_mem _ member))
      rw [List.forall_mem_cons, ← forall₂_congr stillAccepted,
        ← inductionHypothesis restCoherent (registry.add artifact)]
      simp only [run_insertEach_cons_eq_ok_iff]
      constructor
      · rintro ⟨news, final, accepted, others, restRan, -⟩
        exact ⟨accepted, others, final, restRan⟩
      · rintro ⟨accepted, others, final, restRan⟩
        exact ⟨_, final, accepted, others, restRan, rfl⟩

/-! ## Merging -/

theorem run_merge_eq_ok_iff
    (batch : List Artifact)
    (registry merged : Registry)
    (count : Nat) :
    (merge batch).run registry = .ok count merged ↔
      (∀ artifact ∈ batch, registry.Accepts artifact) ∧
        merged = batch.foldl Registry.add registry ∧
        merged.artifacts.length = registry.artifacts.length + count := by
  have grown := (Registry.prefix_foldl_add batch registry).length_le
  rw [run_merge, whole_eq_ok_iff, Registry.merge_eq_ok_iff, Prod.mk.injEq]
  apply and_congr_right
  intro _
  apply and_congr_right
  rintro rfl
  omega

/-- A merge that fails leaves the registry as it was. -/
theorem unchanged_of_run_merge_error
    {batch : List Artifact}
    {registry left : Registry}
    {error : Error}
    (failed : (merge batch).run registry = .error error left) :
    left = registry := by
  rw [run_merge] at failed
  cases merging : registry.merge batch with
  | error cause =>
      rw [merging] at failed
      exact (EStateM.Result.error.inj failed).2.symm
  | ok done =>
      rw [merging] at failed
      cases failed

/-- A merge fails just where the name of some artifact stands for another one. -/
theorem exists_run_merge_error_iff
    (batch : List Artifact)
    (registry : Registry) :
    (∃ error left, (merge batch).run registry = .error error left) ↔
      ∃ artifact ∈ batch, ∃ existing,
        registry.get? artifact.id = some existing ∧ existing ≠ artifact := by
  have refused :
      (∃ artifact ∈ batch, ∃ existing,
          registry.get? artifact.id = some existing ∧ existing ≠ artifact) ↔
        ¬∀ artifact ∈ batch, registry.Accepts artifact := by
    simp only [Registry.Accepts, Keyed.Accepts, not_forall, exists_prop]
    rfl
  have succeeds := run_merge_eq_ok_iff batch registry
  rw [refused]
  cases ran : (merge batch).run registry with
  | ok count merged =>
      have accepted := ((succeeds merged count).mp ran).1
      simpa using accepted
  | error error left =>
      refine ⟨fun _ accepted => ?_, fun _ => ⟨error, left, rfl⟩⟩
      have grown := (Registry.prefix_foldl_add batch registry).length_le
      have success := (succeeds _ _).mpr ⟨accepted, rfl, (Nat.add_sub_of_le grown).symm⟩
      rw [success] at ran
      cases ran

/-- Merging is inserting a batch all at once. It fails just where the name of some artifact stands
for another one, and then nothing is changed. Otherwise it appends the first artifact for each name
that was free, and counts these. For a batch in which one name stands for one artifact, it does what
inserting them one by one does, which tells as many of them new. -/
theorem batch_merged_whole_and_as_inserted
    (registry : Registry)
    (batch : List Artifact) :
    let conflict := ∃ artifact ∈ batch, ∃ existing,
      registry.get? artifact.id = some existing ∧ existing ≠ artifact
    ((∃ error left, (merge batch).run registry = .error error left) ↔ conflict) ∧
      (∀ error left, (merge batch).run registry = .error error left → left = registry) ∧
      (¬conflict → ∃ count merged, (merge batch).run registry = .ok count merged ∧
        merged.artifacts =
          registry.artifacts ++ Keyed.newcomers Artifact.id registry.artifacts batch ∧
        merged.artifacts.length = registry.artifacts.length + count) ∧
      (Keyed.Coherent Artifact.id batch → ∀ count merged,
        (merge batch).run registry = .ok count merged ↔
          ∃ news, (insertEach batch).run registry = .ok news merged ∧ count = news.count true) := by
  intro conflict
  have fails := exists_run_merge_error_iff batch registry
  have succeeds := run_merge_eq_ok_iff batch registry
  refine ⟨fails, fun _ _ => unchanged_of_run_merge_error, ?_, ?_⟩
  · intro agreed
    cases ran : (merge batch).run registry with
    | error error left => exact absurd (fails.mp ⟨error, left, ran⟩) agreed
    | ok count merged =>
        obtain ⟨-, rfl, grown⟩ := (succeeds merged count).mp ran
        refine ⟨count, _, rfl, ?_, grown⟩
        rw [Registry.artifacts_foldl_add, Keyed.foldl_add_eq_append_newcomers]
  · intro coherent count merged
    rw [succeeds, ← exists_run_insertEach_iff coherent registry]
    constructor
    · rintro ⟨⟨news, final, ran⟩, rfl, grown⟩
      obtain ⟨rfl, counted⟩ := grown_of_run_insertEach ran
      exact ⟨news, ran, by omega⟩
    · rintro ⟨news, ran, rfl⟩
      obtain ⟨rfl, counted⟩ := grown_of_run_insertEach ran
      exact ⟨⟨news, _, ran⟩, rfl, counted⟩

/-- A green rule that a batch brings twice is merged once, beside the red one that is there; a blue
one under the name of the red one is refused together with what comes before it. -/
theorem green_merged_once_and_blue_refused :
    let red : Artifact := .rule ⟨"x1", ⟨".x1\x7bcolor:red\x7d", none⟩, 3000⟩
    let blue : Artifact := .rule ⟨"x1", ⟨".x1\x7bcolor:blue\x7d", none⟩, 3000⟩
    let green : Artifact := .rule ⟨"x2", ⟨".x2\x7bcolor:green\x7d", none⟩, 3000⟩
    (merge [green, red, green]).run ⟨[red]⟩ = .ok 1 ⟨[red, green]⟩ ∧
      (insertEach [green, red, green]).run ⟨[red]⟩ = .ok [true, false, false] ⟨[red, green]⟩ ∧
      ∃ error, (merge [green, blue]).run ⟨[red]⟩ = .error error ⟨[red]⟩ := by
  intro red blue green
  have inserted :
      (insertEach [green, red, green]).run ⟨[red]⟩ = .ok [true, false, false] ⟨[red, green]⟩ :=
    rfl
  have coherent : Keyed.Coherent Artifact.id [green, red, green] := by
    unfold Keyed.Coherent
    decide
  obtain ⟨-, -, -, asInserted⟩ := batch_merged_whole_and_as_inserted ⟨[red]⟩ [green, red, green]
  obtain ⟨fails, unchanged, -, -⟩ := batch_merged_whole_and_as_inserted ⟨[red]⟩ [green, blue]
  obtain ⟨error, left, failed⟩ := fails.mpr ⟨blue, by simp, red, rfl, by decide⟩
  refine ⟨(asInserted coherent 1 _).mpr ⟨_, inserted, rfl⟩, inserted, error, ?_⟩
  rw [failed, unchanged error left failed]

end Program

end AtomicCss
