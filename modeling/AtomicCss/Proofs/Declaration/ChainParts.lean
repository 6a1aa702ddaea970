import AtomicCss.Declaration.Chain
import Mathlib.Data.List.TakeWhile

/-!
Contract: the parts of a fallback chain, and what it is folded to.

Owns:
- which chains are refused: those with another entry between two references;
- the parts of every other chain;
- the entries that the parts are folded to.

Does not own: what the folded entries mean.
-/

namespace AtomicCss.Chain

/-- An entry that is no reference stands between two references. -/
def Scattered (entries : List String) : Prop :=
  ∃ first between last, [first, between, last].Sublist entries ∧
    isVariable first = true ∧ isVariable between = false ∧ isVariable last = true

/-- The references of a chain stand next to each other, between entries that are none. -/
structure HasParts (entries before references after : List String) : Prop where
  joined : entries = before ++ (references ++ after)
  plainBefore : ∀ entry ∈ before, isVariable entry = false
  areReferences : ∀ entry ∈ references, isVariable entry = true
  plainAfter : ∀ entry ∈ after, isVariable entry = false

/-- What references are folded to together with the entries before them. -/
def folded (before references : List String) : List String :=
  let bodies := (references.map variableBody).reverse
  if before.isEmpty then [nest bodies none] else before.map fun value => nest bodies (some value)

theorem length_folded
    (before references : List String) :
    (folded before references).length = max 1 before.length := by
  unfold folded
  cases before with
  | nil => rfl
  | cons first rest =>
      simp only [List.isEmpty_cons, Bool.false_eq_true, if_false, List.length_map, List.length_cons]
      omega

/-! ## Parts -/

section Parts

variable {entries before references after : List String}

private theorem HasParts.not_scattered
    (parts : HasParts entries before references after) :
    ¬Scattered entries := by
  rintro ⟨first, between, last, within, isFirst, isBetween, isLast⟩
  have lastAfter : last ∉ after := fun member => by
    rw [parts.plainAfter last member] at isLast
    cases isLast
  have firstBefore : first ∉ before := fun member => by
    rw [parts.plainBefore first member] at isFirst
    cases isFirst
  have betweenReferences : between ∉ references := fun member => by
    rw [parts.areReferences between member] at isBetween
    cases isBetween
  rw [parts.joined, List.sublist_append_iff] at within
  obtain ⟨early, later, split, withinBefore, withinLater⟩ := within
  -- The first of the three is a reference, so none of them stands before the references.
  cases early with
  | cons head tail =>
      obtain ⟨rfl, -⟩ := List.cons.inj split
      exact firstBefore (withinBefore.subset List.mem_cons_self)
  | nil =>
      rw [List.nil_append] at split
      rw [← split, List.sublist_append_iff] at withinLater
      obtain ⟨among, following, cut, withinReferences, withinAfter⟩ := withinLater
      have lastFollows : last ∉ following := fun member => lastAfter (withinAfter.subset member)
      have betweenAmong : between ∉ among := fun member =>
        betweenReferences (withinReferences.subset member)
      -- The last of the three does not follow the references, so the second is among them.
      match among with
      | [] =>
          rw [List.nil_append] at cut
          simp [← cut] at lastFollows
      | [_] =>
          obtain ⟨-, followingIs⟩ := List.cons.inj cut
          rw [← show _ = following from followingIs] at lastFollows
          simp at lastFollows
      | _ :: second :: _ =>
          obtain ⟨rfl, -⟩ := List.cons.inj (List.cons.inj cut).2
          simp at betweenAmong

/-- What a chain is split into are its parts. -/
theorem HasParts.of_split?
    {parts : Parts}
    (split : split? entries = some parts) :
    ∃ references, HasParts entries parts.before references parts.after ∧
      parts.bodies = references.map variableBody := by
  rw [split?, Option.ite_none_left_eq_some, Option.some.injEq] at split
  obtain ⟨noneAfter, rfl⟩ := split
  refine ⟨_, ⟨?_, ?_, fun _ => List.mem_takeWhile_imp, ?_⟩, rfl⟩
  · rw [List.takeWhile_append_dropWhile, List.takeWhile_append_dropWhile]
  · intro entry member
    simpa using List.mem_takeWhile_imp member
  · intro entry member
    rw [List.any_eq_true, not_exists] at noneAfter
    simpa [member] using noneAfter entry

theorem eq_false_of_dropWhile_eq_cons
    {test : String → Bool}
    {first : String}
    {rest : List String}
    (dropped : entries.dropWhile test = first :: rest) :
    test first = false := by
  have head := List.head?_dropWhile_not test entries
  rw [dropped] at head
  exact head

/-- A chain that is not split has an entry between two references. -/
theorem scattered_of_split?
    (notSplit : split? entries = none) :
    Scattered entries := by
  let isPlain : String → Bool := fun entry => !isVariable entry
  let fromFirst := entries.dropWhile isPlain
  let references := fromFirst.takeWhile isVariable
  let after := fromFirst.dropWhile isVariable
  have cut : fromFirst = references ++ after := List.takeWhile_append_dropWhile.symm
  have someAfter : after.any isVariable = true := by
    by_contra noneAfter
    rw [split?, if_neg noneAfter] at notSplit
    cases notSplit
  obtain ⟨last, member, isLast⟩ := List.any_eq_true.mp someAfter
  -- What follows the references starts with another entry, and there is a first reference.
  obtain ⟨between, rest, afterIs⟩ := List.exists_cons_of_ne_nil (List.ne_nil_of_mem member)
  have isBetween : isVariable between = false := eq_false_of_dropWhile_eq_cons afterIs
  have later : last ∈ rest := by
    rw [afterIs, List.mem_cons] at member
    apply member.resolve_left
    rintro rfl
    rw [isBetween] at isLast
    cases isLast
  cases referencesAre : references with
  | nil =>
      rw [referencesAre, afterIs, List.nil_append] at cut
      have head : isPlain between = false := eq_false_of_dropWhile_eq_cons cut
      simp [isPlain, isBetween] at head
  | cons first others =>
      have isFirst : isVariable first = true :=
        List.mem_takeWhile_imp (show first ∈ references from referencesAre ▸ List.mem_cons_self)
      refine ⟨first, between, last, ?_, isFirst, isBetween, isLast⟩
      have three : [first, between, last].Sublist (first :: others ++ between :: rest) := by
        apply List.Sublist.cons_cons
        apply List.Sublist.trans _ (List.sublist_append_right _ _)
        apply List.Sublist.cons_cons
        exact List.singleton_sublist.mpr later
      rw [← referencesAre, ← afterIs, ← cut] at three
      exact three.trans (List.dropWhile_sublist _)

private theorem HasParts.split?_eq
    (parts : HasParts entries before references after)
    (someReference : references ≠ []) :
    split? entries = some ⟨before, references.map variableBody, after⟩ := by
  obtain ⟨first, others, rfl⟩ := List.exists_cons_of_ne_nil someReference
  have isFirst := parts.areReferences first List.mem_cons_self
  have plainBefore : ∀ entry ∈ before, (!isVariable entry) = true := by
    intro entry member
    rw [parts.plainBefore entry member]
    rfl
  have ends : after.takeWhile isVariable = [] ∧ after.dropWhile isVariable = after := by
    cases after with
    | nil => exact ⟨rfl, rfl⟩
    | cons next rest =>
        have isPlain := parts.plainAfter next List.mem_cons_self
        simp [isPlain]
  have noneAfter : after.any isVariable = false := by
    rw [List.any_eq_false]
    intro entry member
    simp [parts.plainAfter entry member]
  have fromFirst : entries.dropWhile (fun entry => !isVariable entry) =
      first :: others ++ after := by
    rw [parts.joined, List.dropWhile_append_of_pos plainBefore]
    simp [isFirst]
  have upToFirst : entries.takeWhile (fun entry => !isVariable entry) = before := by
    rw [parts.joined, List.takeWhile_append_of_pos plainBefore]
    simp [isFirst]
  unfold split?
  simp only [fromFirst, upToFirst, List.takeWhile_append_of_pos parts.areReferences,
    List.dropWhile_append_of_pos parts.areReferences, ends, List.append_nil, noneAfter]
  rfl

/-- A chain with references is folded part by part. -/
theorem HasParts.compose_eq
    (parts : HasParts entries before references after)
    (someReference : references ≠ [])
    (property : String) :
    compose property entries = .ok (folded before references ++ after) := by
  unfold compose
  rw [parts.split?_eq someReference]
  simp [someReference, folded]

end Parts

/-- A chain without references stays as it is. -/
theorem compose_of_no_variables
    {property : String}
    {entries : List String}
    (plain : ∀ entry ∈ entries, isVariable entry = false) :
    compose property entries = .ok entries := by
  have before : entries.dropWhile (fun entry => !isVariable entry) = [] := by
    apply List.dropWhile_eq_nil_iff.mpr
    intro entry member
    rw [plain entry member]
    rfl
  simp [compose, split?, before]

/-- Chains are refused just for an entry between two references. -/
theorem compose_eq_error_iff
    (property : String)
    (entries : List String)
    (error : Error) :
    compose property entries = .error error ↔
      Scattered entries ∧ error = .scatteredVariables property := by
  cases split : split? entries with
  | none =>
      have scattered := scattered_of_split? split
      have refused : compose property entries = .error (.scatteredVariables property) := by
        rw [compose, split]
      rw [refused, Except.error.injEq, and_iff_right scattered]
      exact eq_comm
  | some parts =>
      obtain ⟨references, hasParts, -⟩ := HasParts.of_split? split
      have accepted : ∃ result, compose property entries = .ok result := by
        rw [compose, split]
        dsimp only
        split
        · exact ⟨_, rfl⟩
        · exact ⟨_, rfl⟩
      obtain ⟨result, composed⟩ := accepted
      simp [composed, hasParts.not_scattered]

/-- An accepted chain has its parts. -/
theorem exists_hasParts_of_compose
    {property : String}
    {entries result : List String}
    (composed : compose property entries = .ok result) :
    ∃ before references after, HasParts entries before references after := by
  cases split : split? entries with
  | none =>
      rw [compose, split] at composed
      cases composed
  | some parts =>
      obtain ⟨references, hasParts, -⟩ := HasParts.of_split? split
      exact ⟨_, references, _, hasParts⟩

end AtomicCss.Chain
