import AtomicCss.Declaration.Normal
import AtomicCss.Proofs.Success

/-!
Contract: the shape of declarations in normal form.

Owns: each declaration of a key is directed, and has a value.

Does not own: the spelling of the values.
-/

namespace AtomicCss

namespace Chain

/-- Folding references leaves a value where there was one. -/
theorem compose_ne_nil
    {property : String}
    {entries values : List String}
    (nonempty : entries ≠ [])
    (composed : compose property entries = .ok values) :
    values ≠ [] := by
  unfold compose at composed
  split at composed
  · cases composed
  · rename_i parts _
    by_cases plain : parts.bodies.isEmpty
    · rw [if_pos plain, Except.ok.injEq] at composed
      rw [← composed]
      exact nonempty
    · rw [if_neg plain, Except.ok.injEq] at composed
      rw [← composed]
      by_cases alone : parts.before.isEmpty
      · simp [alone]
      · have before : parts.before ≠ [] := by simpa using alone
        simp [alone, before]

end Chain

namespace Options

theorem values_directed_ne_nil
    (options : Options)
    (property : String)
    {values : List String}
    (nonempty : values ≠ []) :
    (options.directed property values).values ≠ [] := by
  unfold directed
  split
  · exact nonempty
  · simpa using nonempty

private theorem length_chainLiterals
    {name : String}
    {items : List Value}
    {literals : List Literal}
    (read : chainLiterals name items = .ok literals) :
    literals.length = items.length := by
  induction items generalizing literals with
  | nil =>
      rw [chainLiterals, Except.ok.injEq] at read
      rw [← read]
      rfl
  | cons item rest inductionHypothesis =>
      rw [chainLiterals] at read
      cases found : item.literal? with
      | none => simp [found] at read
      | some literal =>
          rw [found] at read
          obtain ⟨others, readOthers, rfl⟩ := Success.map_eq_ok_iff.mp read
          rw [List.length_cons, List.length_cons, inductionHypothesis readOthers]

private theorem normalizeChain_eq_ok
    {options : Options}
    {name : String}
    {items : List Value}
    {normalized : Normalized}
    (success : options.normalizeChain name items = .ok normalized) :
    ∃ values, values ≠ [] ∧ normalized.declarations = [options.directed name values] := by
  unfold normalizeChain at success
  by_cases empty : items.isEmpty
  · simp [empty, bind, Except.bind] at success
  · simp only [empty, Bool.false_eq_true, if_false, Success.bind_eq_ok_iff] at success
    obtain ⟨literals, readLiterals, values, composed, equal⟩ := success
    have literalsNonempty : literals ≠ [] := by
      have itemsPositive : 0 < items.length := by
        apply List.length_pos_iff.mpr
        simpa using empty
      rw [← length_chainLiterals readLiterals] at itemsPositive
      exact List.length_pos_iff.mp itemsPositive
    refine ⟨values, Chain.compose_ne_nil (by simpa using literalsNonempty) composed, ?_⟩
    rw [← Except.ok.inj equal]

/-- The declarations of a key are those of a literal, or the one of a chain. -/
theorem declarations_cases
    {options : Options}
    {key : String}
    {value : Value}
    {normalized : Normalized}
    (success : options.normalize key value = .ok normalized) :
    (∃ literal, value.literal? = some literal ∧
        normalized.declarations =
          (options.normalizeLiteral (Property.canonicalName key) literal).declarations) ∨
      ∃ values, values ≠ [] ∧
        normalized.declarations = [options.directed (Property.canonicalName key) values] := by
  unfold normalize at success
  cases value with
  | number _ | text _ =>
      rw [← Except.ok.inj success]
      exact .inl ⟨_, rfl, rfl⟩
  | chain items =>
      obtain ⟨chained, normalizedChain, rfl⟩ := Success.map_eq_ok_iff.mp success
      obtain ⟨values, nonempty, equal⟩ := normalizeChain_eq_ok normalizedChain
      exact .inr ⟨values, nonempty, equal⟩
  | null | dynamic _ | keyframes _ | object _ => cases success

/-- The declarations of a key are directed, each from a list with a value in it. -/
theorem exists_directed_of_mem_normalize
    {options : Options}
    {key : String}
    {value : Value}
    {normalized : Normalized}
    (success : options.normalize key value = .ok normalized)
    {declaration : Declaration}
    (member : declaration ∈ normalized.declarations) :
    ∃ property values, values ≠ [] ∧ declaration = options.directed property values := by
  rcases declarations_cases success with ⟨literal, -, equal⟩ | ⟨values, nonempty, equal⟩
  · rw [equal] at member
    obtain ⟨pair, -, rfl⟩ := List.mem_map.mp member
    exact ⟨pair.1, _, List.cons_ne_nil _ _, rfl⟩
  · rw [equal, List.mem_singleton] at member
    exact ⟨_, values, nonempty, member⟩

theorem values_ne_nil_of_mem_normalize
    {options : Options}
    {key : String}
    {value : Value}
    {normalized : Normalized}
    (success : options.normalize key value = .ok normalized)
    {declaration : Declaration}
    (member : declaration ∈ normalized.declarations) :
    declaration.values ≠ [] := by
  obtain ⟨property, values, nonempty, rfl⟩ := exists_directed_of_mem_normalize success member
  exact options.values_directed_ne_nil property nonempty

end Options

end AtomicCss
