/-!
Contract: when computations that may fail succeed.

Owns: success of one computation after another, and of a computation whose value is mapped.

Does not own: any particular computation.
-/

namespace AtomicCss.Success

variable {ε α β : Type}

theorem bind_eq_ok_iff
    {first : Except ε α}
    {next : α → Except ε β}
    {result : β} :
    (first >>= next) = .ok result ↔ ∃ value, first = .ok value ∧ next value = .ok result := by
  cases first with
  | error error => simp [bind, Except.bind]
  | ok value => simp [bind, Except.bind]

theorem check_bind_eq_ok_iff
    {check : Except ε Unit}
    {next : Except ε β}
    {result : β} :
    (do check; next) = .ok result ↔ check = .ok () ∧ next = .ok result := by
  rw [bind_eq_ok_iff]
  constructor
  · rintro ⟨passed, checked, success⟩
    exact ⟨checked, success⟩
  · rintro ⟨checked, success⟩
    exact ⟨(), checked, success⟩

theorem map_eq_ok_iff
    {first : Except ε α}
    {wrap : α → β}
    {result : β} :
    first.map wrap = .ok result ↔ ∃ value, first = .ok value ∧ wrap value = result := by
  cases first with
  | error error => simp [Except.map]
  | ok value => simp [Except.map]

end AtomicCss.Success
