import AtomicCss.Proofs.Keyed
import AtomicCss.Proofs.Success
import AtomicCss.Sheet.Registry

/-!
Contract: how a registry grows.

Owns:
- a registry as a list keyed by names, and additions to it;
- what a registry accepts, and the exact result of inserting single artifacts and batches.

Does not own: compilations, and programs that change a registry in place.
-/

namespace AtomicCss.Registry

/-! ## Additions -/

def IsKeyed (registry : Registry) : Prop :=
  Keyed.Distinct Artifact.id registry.artifacts

/-- The name of the artifact is free, or stands for the artifact already. -/
def Accepts (registry : Registry) (artifact : Artifact) : Prop :=
  Keyed.Accepts Artifact.id registry.artifacts artifact

theorem artifacts_add
    (registry : Registry)
    (artifact : Artifact) :
    (registry.add artifact).artifacts = Keyed.add Artifact.id registry.artifacts artifact := by
  unfold add Keyed.add
  exact apply_ite artifacts _ registry ⟨registry.artifacts ++ [artifact]⟩

theorem artifacts_foldl_add
    (batch : List Artifact)
    (registry : Registry) :
    (batch.foldl add registry).artifacts =
      batch.foldl (Keyed.add Artifact.id) registry.artifacts := by
  induction batch generalizing registry with
  | nil => rfl
  | cons artifact rest inductionHypothesis =>
      rw [List.foldl_cons, List.foldl_cons, inductionHypothesis, artifacts_add]

theorem add_of_contains
    {registry : Registry}
    {artifact : Artifact}
    (taken : registry.contains artifact.id = true) :
    registry.add artifact = registry := by
  simp [add, taken]

theorem add_of_not_contains
    {registry : Registry}
    {artifact : Artifact}
    (free : registry.contains artifact.id = false) :
    registry.add artifact = ⟨registry.artifacts ++ [artifact]⟩ := by
  simp [add, free]

/-- A registry that artifacts are added to continues what it was. -/
theorem prefix_foldl_add
    (batch : List Artifact)
    (registry : Registry) :
    registry.artifacts <+: (batch.foldl add registry).artifacts := by
  rw [artifacts_foldl_add]
  exact Keyed.prefix_foldl_add batch registry.artifacts

theorem isKeyed_empty : Registry.empty.IsKeyed :=
  List.nodup_nil

theorem IsKeyed.foldl_add
    {registry : Registry}
    (keyed : registry.IsKeyed)
    (batch : List Artifact) :
    (batch.foldl Registry.add registry).IsKeyed := by
  unfold IsKeyed
  rw [artifacts_foldl_add]
  exact Keyed.Distinct.foldl_add keyed batch

/-! ## Acceptance -/

theorem check_eq_ok_iff
    (registry : Registry)
    (artifact : Artifact) :
    registry.check artifact = .ok () ↔ registry.Accepts artifact := by
  unfold check Accepts Keyed.Accepts
  change _ ↔ ∀ existing, registry.get? artifact.id = some existing → existing = artifact
  cases registry.get? artifact.id with
  | none => simp
  | some existing =>
      by_cases sameArtifact : existing = artifact
      · simp [sameArtifact]
      · simp [sameArtifact]

/-- Inserting an artifact succeeds exactly where it is accepted, and adds it. -/
theorem insert_eq_ok_iff
    (registry : Registry)
    (artifact : Artifact)
    (done : Registry × Bool) :
    registry.insert artifact = .ok done ↔
      registry.Accepts artifact ∧
        done = (registry.add artifact, !registry.contains artifact.id) := by
  rw [← check_eq_ok_iff, insert, Success.check_bind_eq_ok_iff, Except.ok.injEq, eq_comm (a := done)]

theorem checkAll_eq_ok_iff
    (registry : Registry)
    (batch : List Artifact) :
    registry.checkAll batch = .ok () ↔ ∀ artifact ∈ batch, registry.Accepts artifact := by
  induction batch with
  | nil => simp [checkAll]
  | cons artifact rest inductionHypothesis =>
      rw [List.forall_mem_cons, ← check_eq_ok_iff, ← inductionHypothesis, checkAll,
        Success.check_bind_eq_ok_iff]

/-- Merging a batch succeeds exactly where all of it is accepted beforehand. -/
theorem merge_eq_ok_iff
    (registry : Registry)
    (batch : List Artifact)
    (done : Registry × Nat) :
    registry.merge batch = .ok done ↔
      (∀ artifact ∈ batch, registry.Accepts artifact) ∧
        done = (batch.foldl add registry,
          (batch.foldl add registry).artifacts.length - registry.artifacts.length) := by
  rw [← checkAll_eq_ok_iff, merge, Success.check_bind_eq_ok_iff, Except.ok.injEq,
    eq_comm (a := done)]

/-- Inserting artifacts one after the other succeeds exactly where they agree with the registry
and among themselves. Which of them comes first does not matter for this. -/
theorem insertAll_eq_ok_iff
    {registry : Registry}
    (keyed : registry.IsKeyed)
    (batch : List Artifact)
    (result : Registry) :
    registry.insertAll batch = .ok result ↔
      Keyed.Coherent Artifact.id (registry.artifacts ++ batch) ∧
        result = batch.foldl add registry := by
  induction batch generalizing registry with
  | nil =>
      have coherent := Keyed.Distinct.coherent keyed
      simp only [insertAll, Except.ok.injEq, List.append_nil, List.foldl_nil, coherent, true_and]
      exact eq_comm
  | cons artifact rest inductionHypothesis =>
      have extendedKeyed : (registry.add artifact).IsKeyed := keyed.foldl_add [artifact]
      rw [Keyed.Distinct.coherent_append_cons_iff keyed, List.foldl_cons, and_assoc,
        ← artifacts_add, ← inductionHypothesis extendedKeyed, insertAll, Success.bind_eq_ok_iff]
      simp only [insert_eq_ok_iff]
      constructor
      · rintro ⟨done, ⟨accepted, rfl⟩, success⟩
        exact ⟨accepted, success⟩
      · rintro ⟨accepted, success⟩
        exact ⟨_, ⟨accepted, rfl⟩, success⟩

/-- Different artifacts make up a registry of their own exactly where their names differ. -/
theorem insertAll_empty_eq_ok_iff
    {batch : List Artifact}
    (nodup : batch.Nodup)
    (result : Registry) :
    Registry.empty.insertAll batch = .ok result ↔
      Keyed.Distinct Artifact.id batch ∧ result = ⟨batch⟩ := by
  rw [insertAll_eq_ok_iff isKeyed_empty, empty, List.nil_append, Keyed.coherent_iff_distinct nodup]
  apply and_congr_right
  intro distinct
  have whole : batch.foldl add ⟨[]⟩ = ⟨batch⟩ := by
    have artifacts := artifacts_foldl_add batch ⟨[]⟩
    rw [Keyed.Distinct.foldl_add_eq_append distinct] at artifacts
    exact congrArg Registry.mk artifacts
  rw [whole]

/-- Insertion fails for no other reason than a name with two bodies. -/
theorem exists_collision_of_insertAll
    {registry : Registry}
    {batch : List Artifact}
    {error : Error}
    (failed : registry.insertAll batch = .error error) :
    ∃ id existing incoming, error = .nameCollision id existing incoming := by
  induction batch generalizing registry with
  | nil => cases failed
  | cons artifact rest inductionHypothesis =>
      unfold insertAll insert check at failed
      split at failed
      · exact inductionHypothesis failed
      · split at failed
        · exact inductionHypothesis failed
        · exact ⟨_, _, _, (Except.error.inj failed).symm⟩

end AtomicCss.Registry
