import AtomicCss.Proofs.Declaration.PlainWords
import AtomicCss.Proofs.Hash.Base36
import AtomicCss.Proofs.Success
import AtomicCss.Sheet.Keyframes

/-!
Contract: the names that are generated from content.

Owns:
- the characters of a hash as it stands in names;
- names of animations are identifiers;
- the spelling of the custom property of a dynamic value, and when it is the property itself.

Does not own: which contents share a name.
-/

namespace AtomicCss

/-! ## Hashes in names -/

namespace Hash

private theorem isAlphanum_of_mem_text36
    (text : String) :
    ∀ character ∈ (text36 text).toList, character.isAlphanum = true :=
  (spells_base36 (ofText text)).isAlphanum

private theorem text36_ne_empty
    (text : String) :
    (text36 text).toList ≠ [] :=
  (spells_base36 (ofText text)).ne_nil

end Hash

/-! ## Names of animations -/

theorem isClassPrefix_append
    {start : String}
    (identifier : isClassPrefix start = true)
    {rest : String}
    (named : ∀ character ∈ rest.toList, isNameChar character = true) :
    isClassPrefix (start ++ rest) = true := by
  obtain ⟨first, others, spelled, starts, othersNamed⟩ := (isClassPrefix_iff start).mp identifier
  rw [isClassPrefix_iff]
  refine ⟨first, others ++ rest.toList, ?_, starts, ?_⟩
  · rw [String.toList_append, spelled, List.cons_append]
  · rw [List.all_append, othersNamed, Bool.true_and, List.all_eq_true]
    exact named

private theorem isNameChar_of_mem_text36
    (text : String) :
    ∀ character ∈ (Hash.text36 text).toList, isNameChar character = true := by
  intro character member
  simp [isNameChar, Hash.isAlphanum_of_mem_text36 text character member]

/-- The name of an animation is an identifier. -/
theorem isClassPrefix_keyframesName
    {start : String}
    (identifier : isClassPrefix start = true)
    (body : String) :
    isClassPrefix (keyframesName start body) = true := by
  unfold keyframesName
  apply isClassPrefix_append
  · exact isClassPrefix_append identifier (isNameChar_of_mem_text36 _)
  · have marked : "-B".toList.all isNameChar = true := by decide
    exact List.all_eq_true.mp marked

theorem isClassPrefix_of_compileKeyframes
    {options : Options}
    (identifier : isClassPrefix options.classPrefix = true)
    {frames : Keyframes}
    {compiled : CompiledKeyframes}
    (success : compileKeyframes options frames = .ok compiled) :
    isClassPrefix compiled.block.name = true := by
  unfold compileKeyframes at success
  split at success
  · cases success
  · obtain ⟨⟨normal, warnings⟩, -, equal⟩ := Success.bind_eq_ok_iff.mp success
    rw [← Except.ok.inj equal]
    exact isClassPrefix_keyframesName identifier _

/-! ## Custom properties of dynamic values -/

theorem toList_dynamicVariable
    (property : String)
    (context : Context) :
    (dynamicVariable property context).toList =
      '-' :: '-' :: (property.toList.dropWhile (· = '-') ++
        if context.segments.isEmpty then []
        else '-' :: (Hash.text36 context.modifiers).toList) := by
  unfold dynamicVariable
  by_cases outermost : context.segments.isEmpty
  · simp [outermost]
  · simp [outermost]

def Property.leadingDashes (name : String) : Nat :=
  (name.toList.takeWhile (· = '-')).length

private theorem Property.toList_eq_dashes_append
    (name : String) :
    name.toList =
      List.replicate (leadingDashes name) '-' ++ name.toList.dropWhile (· = '-') := by
  have dashes :
      name.toList.takeWhile (· = '-') = List.replicate (leadingDashes name) '-' := by
    rw [List.eq_replicate_iff]
    refine ⟨rfl, ?_⟩
    intro character member
    have tested := List.all_takeWhile (p := (· = '-')) (l := name.toList)
    simpa using List.all_eq_true.mp tested character member
  rw [← dashes, List.takeWhile_append_dropWhile]

/-- No stem without dashes in front absorbs a hash at its end. -/
theorem stem_append_hash_ne
    {stem hash : List Char}
    (bare : stem.head? ≠ some '-')
    (hashed : ∀ character ∈ hash, character.isAlphanum = true)
    (nonempty : hash ≠ [])
    (dashes : Nat) :
    '-' :: '-' :: (stem ++ '-' :: hash) ≠ List.replicate dashes '-' ++ stem := by
  intro equal
  -- The lengths leave more than two dashes on the right, so that the stem on the left would have to
  -- start with a dash, or the hash would.
  have enough : dashes = hash.length + 3 := by
    have lengths := congrArg List.length equal
    simp only [List.length_cons, List.length_append, List.length_replicate] at lengths
    omega
  rw [enough, List.replicate_succ, List.replicate_succ, List.cons_append, List.cons_append,
    List.cons.injEq, List.cons.injEq, List.replicate_succ, List.cons_append] at equal
  obtain ⟨-, -, equal⟩ := equal
  cases stem with
  | cons character rest =>
      rw [List.cons_append, List.cons.injEq] at equal
      exact bare (congrArg some equal.1)
  | nil =>
      rw [List.nil_append, List.append_nil, List.cons.injEq] at equal
      obtain ⟨character, member⟩ := List.exists_mem_of_ne_nil hash nonempty
      have isDash : character = '-' := by
        rw [equal.2] at member
        exact List.eq_of_mem_replicate member
      have alphanumeric := hashed character member
      rw [isDash] at alphanumeric
      exact absurd alphanumeric (by decide)

/-- The custom property of a dynamic value is the property itself exactly for a custom property with
just two dashes in front, outside of every context. -/
theorem dynamicVariable_eq_self_iff
    (property : String)
    (context : Context) :
    dynamicVariable property context = property ↔
      context.segments = [] ∧ Property.leadingDashes property = 2 := by
  have bare : (property.toList.dropWhile (· = '-')).head? ≠ some '-' := by
    intro starts
    have tested := List.head?_dropWhile_not (· = '-') property.toList
    simp [starts] at tested
  have spelled := Property.toList_eq_dashes_append property
  rw [← String.toList_inj, toList_dynamicVariable]
  by_cases outermost : context.segments = []
  · simp only [outermost, List.isEmpty_nil, if_true, List.append_nil, true_and]
    constructor
    · intro equal
      have lengths := congrArg List.length (equal.trans spelled)
      simp only [List.length_cons, List.length_append, List.length_replicate] at lengths
      omega
    · intro two
      rw [two] at spelled
      exact spelled.symm
  · have nested : context.segments.isEmpty = false := by simpa using outermost
    simp only [outermost, nested, false_and, iff_false]
    intro equal
    exact stem_append_hash_ne bare (Hash.isAlphanum_of_mem_text36 _) (Hash.text36_ne_empty _) _
      (equal.trans spelled)

end AtomicCss
