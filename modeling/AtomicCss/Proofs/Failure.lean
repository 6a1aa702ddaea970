/-!
Contract: why computations that may fail do.

Owns:
- failure of one computation after another, and of a computation whose value is mapped;
- the first of several items that fails.

Does not own: any particular computation.
-/

namespace AtomicCss.Failure

variable {ε α β : Type}

theorem bind_eq_error_iff
    {first : Except ε α}
    {next : α → Except ε β}
    {error : ε} :
    (first >>= next) = .error error ↔
      first = .error error ∨ ∃ value, first = .ok value ∧ next value = .error error := by
  cases first with
  | error other => simp [bind, Except.bind]
  | ok value => simp [bind, Except.bind]

theorem map_eq_error_iff
    {first : Except ε α}
    {wrap : α → β}
    {error : ε} :
    first.map wrap = .error error ↔ first = .error error := by
  cases first with
  | error other => simp [Except.map]
  | ok value => simp [Except.map]

/-- The first of the items that fails does so with this error. -/
def FailsFirst (run : α → Except ε β) (items : List α) (error : ε) : Prop :=
  ∃ before item after, items = before ++ item :: after ∧
    (∀ earlier ∈ before, ∃ result, run earlier = .ok result) ∧ run item = .error error

section FailsFirst

variable {run : α → Except ε β} {error : ε}

theorem not_failsFirst_nil :
    ¬FailsFirst run [] error := by
  rintro ⟨before, item, after, equal, -⟩
  simp at equal

/-- An item fails first, or succeeds and leaves it to the others. -/
theorem failsFirst_cons_iff
    {first : α}
    {rest : List α} :
    FailsFirst run (first :: rest) error ↔
      run first = .error error ∨
        (∃ result, run first = .ok result) ∧ FailsFirst run rest error := by
  constructor
  · rintro ⟨before, item, after, equal, earlier, failed⟩
    cases before with
    | nil =>
        obtain ⟨rfl, rfl⟩ := List.cons.inj equal
        exact .inl failed
    | cons head others =>
        obtain ⟨rfl, rfl⟩ := List.cons.inj equal
        obtain ⟨succeeded, othersSucceeded⟩ := List.forall_mem_cons.mp earlier
        exact .inr ⟨succeeded, others, item, after, rfl, othersSucceeded, failed⟩
  · rintro (failed | ⟨succeeded, before, item, after, rfl, earlier, failed⟩)
    · exact ⟨[], first, rest, rfl, List.forall_mem_nil _, failed⟩
    · exact ⟨first :: before, item, after, rfl, List.forall_mem_cons.mpr ⟨succeeded, earlier⟩,
        failed⟩

theorem exists_failsFirst_iff
    {items : List α} :
    (∃ error, FailsFirst run items error) ↔ ∃ item ∈ items, ∃ error, run item = .error error := by
  induction items with
  | nil => simp [not_failsFirst_nil]
  | cons first rest inductionHypothesis =>
      have split :
          (∃ item ∈ first :: rest, ∃ error, run item = .error error) ↔
            (∃ error, run first = .error error) ∨ ∃ error, FailsFirst run rest error := by
        rw [inductionHypothesis]
        simp
      rw [split]
      simp only [failsFirst_cons_iff]
      cases run first with
      | error error => simp
      | ok result => simp

end FailsFirst

end AtomicCss.Failure
