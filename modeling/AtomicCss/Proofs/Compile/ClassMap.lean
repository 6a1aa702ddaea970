import AtomicCss.Compile.Compiler
import AtomicCss.Proofs.OrderedMap

/-!
Contract: the classes that a compiled namespace lists under its keys.

Owns:
- names gathered one by one as keyed lists;
- the keys after leaves were gathered, and the classes under each of them;
- the classes of a namespace as a whole, under its keys and in its class list.

Does not own: the rules of the classes.
-/

namespace AtomicCss

/-! ## Names, each once -/

private theorem addName_eq_add : addName = Keyed.add id := by
  funext names name
  have taken : (Keyed.lookup id names (id name)).isSome = names.contains name := by
    rw [Bool.eq_iff_iff, Keyed.isSome_lookup_iff, List.contains_iff_mem]
    simp
  rw [addName, Keyed.add, taken]

private theorem coherent_names
    (names : List String) :
    Keyed.Coherent id names := by
  intro first _ second _ sameName
  exact sameName

/-- Names gathered in another order are the same names. -/
theorem perm_foldl_addName
    {first second : List String}
    (reordered : first.Perm second) :
    (first.foldl addName []).Perm (second.foldl addName []) := by
  rw [addName_eq_add]
  exact Keyed.perm_foldl_add (coherent_names first) reordered

theorem nodup_foldl_addName
    (names : List String) :
    (names.foldl addName []).Nodup := by
  have distinct : Keyed.Distinct id (names.foldl (Keyed.add id) []) :=
    Keyed.distinct_foldl_add names
  rw [← addName_eq_add, Keyed.Distinct, List.map_id] at distinct
  exact distinct

private theorem mem_foldl_addName
    (names : List String)
    (name : String) :
    name ∈ names.foldl addName [] ↔ name ∈ names := by
  rw [addName_eq_add, (coherent_names names).mem_foldl_add_iff]

/-! ## Classes by key -/

namespace CompiledNamespace

private theorem keys_addClasses
    (key : String)
    (names : List String)
    (classes : List (String × List String)) :
    (addClasses key names classes).map (·.1) = addName (classes.map (·.1)) key := by
  induction classes with
  | nil => rfl
  | cons entry rest inductionHypothesis =>
      by_cases sameKey : entry.1 = key
      · simp [addClasses, sameKey, addName]
      · have otherKey : ¬key = entry.1 := fun equal => sameKey equal.symm
        by_cases taken : key ∈ rest.map (·.1)
        · simp [addClasses, sameKey, otherKey, addName, inductionHypothesis, taken]
        · simp [addClasses, sameKey, otherKey, addName, inductionHypothesis, taken]

private theorem get?_addClasses
    (wanted key : String)
    (names : List String)
    (classes : List (String × List String)) :
    OrderedMap.get? wanted (addClasses key names classes) =
      if key = wanted then
        some (names.foldl addName ((OrderedMap.get? wanted classes).getD []))
      else OrderedMap.get? wanted classes := by
  induction classes with
  | nil =>
      by_cases sameKey : key = wanted
      · simp [addClasses, OrderedMap.get?, sameKey]
      · simp [addClasses, OrderedMap.get?, sameKey]
  | cons entry rest inductionHypothesis =>
      by_cases entryKey : entry.1 = key
      · by_cases sameKey : key = wanted
        · simp [addClasses, OrderedMap.get?, entryKey, sameKey]
        · simp [addClasses, OrderedMap.get?, entryKey, sameKey]
      · by_cases entryWanted : entry.1 = wanted
        · subst entryWanted
          simp [addClasses, OrderedMap.get?, entryKey, Ne.symm entryKey]
        · simp [addClasses, OrderedMap.get?, entryKey, entryWanted, inductionHypothesis]

/-- The leaves that list their classes under a key. -/
def outputsOf (key : String) (outputs : List LeafOutput) : List LeafOutput :=
  outputs.filter fun output => output.key = key

def gatherClasses (classes : List (String × List String)) (outputs : List LeafOutput) :
    List (String × List String) :=
  outputs.foldl (fun sofar output => addClasses output.key output.classNames sofar) classes

theorem keys_gatherClasses
    (classes : List (String × List String))
    (outputs : List LeafOutput) :
    (gatherClasses classes outputs).map (·.1) =
      (outputs.map (·.key)).foldl addName (classes.map (·.1)) := by
  induction outputs generalizing classes with
  | nil => rfl
  | cons output rest inductionHypothesis =>
      have restKeys := inductionHypothesis (addClasses output.key output.classNames classes)
      rw [keys_addClasses] at restKeys
      exact restKeys

/-- Under a key that leaves list classes under stand the classes of these leaves, each once, after
those that stood there before. -/
theorem get?_gatherClasses
    (wanted : String)
    (classes : List (String × List String))
    (outputs : List LeafOutput) :
    OrderedMap.get? wanted (gatherClasses classes outputs) =
      if (outputsOf wanted outputs).isEmpty then OrderedMap.get? wanted classes
      else some (((outputsOf wanted outputs).flatMap (·.classNames)).foldl addName
        ((OrderedMap.get? wanted classes).getD [])) := by
  induction outputs generalizing classes with
  | nil => simp [gatherClasses, outputsOf]
  | cons output rest inductionHypothesis =>
      have restClasses := inductionHypothesis (addClasses output.key output.classNames classes)
      rw [get?_addClasses] at restClasses
      change OrderedMap.get? wanted
        (gatherClasses (addClasses output.key output.classNames classes) rest) = _
      rw [restClasses]
      by_cases sameKey : output.key = wanted
      · have chosen : outputsOf wanted (output :: rest) = output :: outputsOf wanted rest := by
          simp [outputsOf, sameKey]
        rw [chosen]
        -- The hypothesis starts from a key that is listed, even where no later leaf adds to it.
        by_cases last : (outputsOf wanted rest).isEmpty
        · have none : outputsOf wanted rest = [] := List.isEmpty_iff.mp last
          simp [sameKey, none]
        · simp [sameKey, last, List.foldl_append]
      · have skipped : outputsOf wanted (output :: rest) = outputsOf wanted rest := by
          simp [outputsOf, sameKey]
        rw [skipped, if_neg sameKey]

theorem distinct_gatherClasses
    (outputs : List LeafOutput) :
    Keyed.Distinct Prod.fst (gatherClasses [] outputs) := by
  unfold Keyed.Distinct
  rw [keys_gatherClasses]
  exact nodup_foldl_addName _

/-- What stands under the keys, read off the leaves. -/
theorem mem_gatherClasses_iff
    (outputs : List LeafOutput)
    (listing : String × List String) :
    listing ∈ gatherClasses [] outputs ↔
      outputsOf listing.1 outputs ≠ [] ∧
        listing.2 = ((outputsOf listing.1 outputs).flatMap (·.classNames)).foldl addName [] := by
  rw [← OrderedMap.get?_eq_some_iff (distinct_gatherClasses outputs), get?_gatherClasses]
  by_cases unlisted : (outputsOf listing.1 outputs).isEmpty
  · simp [OrderedMap.get?, List.isEmpty_iff.mp unlisted]
  · have listed : outputsOf listing.1 outputs ≠ [] := by simpa using unlisted
    rw [if_neg unlisted, Option.some.injEq]
    exact ⟨fun equal => ⟨listed, equal.symm⟩, fun given => given.2.symm⟩

theorem nodup_listing
    (outputs : List LeafOutput) :
    ∀ listing ∈ gatherClasses [] outputs, listing.2.Nodup := by
  intro listing member
  rw [((mem_gatherClasses_iff outputs listing).mp member).2]
  exact nodup_foldl_addName _

/-- The classes under all keys are those of the leaves. -/
theorem exists_listing_iff
    (outputs : List LeafOutput)
    (name : String) :
    (∃ listing ∈ gatherClasses [] outputs, name ∈ listing.2) ↔
      ∃ output ∈ outputs, name ∈ output.classNames := by
  simp only [mem_gatherClasses_iff]
  constructor
  · rintro ⟨listing, ⟨-, gathered⟩, member⟩
    rw [gathered, mem_foldl_addName, List.mem_flatMap] at member
    obtain ⟨output, chosen, named⟩ := member
    exact ⟨output, (List.mem_filter.mp chosen).1, named⟩
  · rintro ⟨output, member, named⟩
    have chosen : output ∈ outputsOf output.key outputs := by
      simp [outputsOf, member]
    let names := ((outputsOf output.key outputs).flatMap (·.classNames)).foldl addName []
    refine ⟨(output.key, names), ⟨List.ne_nil_of_mem chosen, rfl⟩, ?_⟩
    rw [mem_foldl_addName, List.mem_flatMap]
    exact ⟨output, chosen, named⟩

theorem mem_classList_iff
    (compiled : CompiledNamespace)
    (name : String) :
    name ∈ compiled.classList ↔ ∃ listing ∈ compiled.classes, name ∈ listing.2 := by
  rw [classList, mem_foldl_addName, List.mem_flatMap]

/-- Leaves gathered in another order list the same classes under the same keys. -/
theorem perm_keys_gatherClasses
    {first second : List LeafOutput}
    (reordered : first.Perm second) :
    ((gatherClasses [] first).map (·.1)).Perm ((gatherClasses [] second).map (·.1)) := by
  rw [keys_gatherClasses, keys_gatherClasses]
  exact perm_foldl_addName (reordered.map _)

theorem rel_get?_gatherClasses
    {first second : List LeafOutput}
    (reordered : first.Perm second)
    (key : String) :
    Option.Rel List.Perm (OrderedMap.get? key (gatherClasses [] first))
      (OrderedMap.get? key (gatherClasses [] second)) := by
  have chosen : (outputsOf key first).Perm (outputsOf key second) := reordered.filter _
  have sameEmptiness : (outputsOf key first).isEmpty = (outputsOf key second).isEmpty := by
    rw [Bool.eq_iff_iff, List.isEmpty_iff, List.isEmpty_iff, ← List.length_eq_zero_iff,
      ← List.length_eq_zero_iff, chosen.length_eq]
  rw [get?_gatherClasses, get?_gatherClasses, sameEmptiness]
  by_cases unlisted : (outputsOf key second).isEmpty
  · rw [if_pos unlisted, if_pos unlisted]
    exact .none
  · rw [if_neg unlisted, if_neg unlisted]
    exact .some (perm_foldl_addName (chosen.flatMap_right _))

end CompiledNamespace

end AtomicCss
