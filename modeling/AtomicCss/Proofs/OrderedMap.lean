import AtomicCss.Json.Basic
import AtomicCss.Proofs.Keyed

/-!
Contract: ordered maps in which no key occurs twice.

Owns: look-ups as membership, and maps made of entries whose keys are all different.

Does not own: what happens to the place of a key that is set again.
-/

namespace AtomicCss.OrderedMap

variable {α : Type}

private theorem get?_eq_lookup
    (key : String)
    (map : List (String × α)) :
    get? key map = (Keyed.lookup Prod.fst map key).map Prod.snd := by
  induction map with
  | nil => rfl
  | cons entry rest inductionHypothesis =>
      by_cases sameKey : entry.1 = key
      · simp [get?, Keyed.lookup, sameKey]
      · rw [get?, if_neg sameKey, inductionHypothesis]
        simp [Keyed.lookup, sameKey]

theorem get?_eq_some_iff
    {map : List (String × α)}
    (distinct : Keyed.Distinct Prod.fst map)
    {key : String}
    {value : α} :
    get? key map = some value ↔ (key, value) ∈ map := by
  rw [get?_eq_lookup, Option.map_eq_some_iff]
  constructor
  · rintro ⟨entry, found, rfl⟩
    obtain ⟨member, rfl⟩ := distinct.lookup_eq_some_iff.mp found
    exact member
  · intro member
    exact ⟨(key, value), distinct.lookup_eq_some_iff.mpr ⟨member, rfl⟩, rfl⟩

private theorem set_of_absent
    {key : String}
    {map : List (String × α)}
    (absent : key ∉ map.map Prod.fst)
    (value : α) :
    set key value map = map ++ [(key, value)] := by
  induction map with
  | nil => rfl
  | cons entry rest inductionHypothesis =>
      rw [List.map_cons, List.mem_cons, not_or] at absent
      rw [set, if_neg (Ne.symm absent.1), inductionHypothesis absent.2]
      rfl

/-- Nothing is overwritten where no key occurs twice. -/
theorem foldl_set_of_distinct
    (entries map : List (String × α))
    (distinct : Keyed.Distinct Prod.fst (map ++ entries)) :
    entries.foldl (fun sofar entry => set entry.1 entry.2 sofar) map = map ++ entries := by
  induction entries generalizing map with
  | nil => simp
  | cons entry rest inductionHypothesis =>
      have absent : entry.1 ∉ map.map Prod.fst := by
        unfold Keyed.Distinct at distinct
        rw [List.map_append, List.map_cons, List.nodup_append] at distinct
        intro present
        exact distinct.2.2 _ present _ List.mem_cons_self rfl
      rw [List.foldl_cons, set_of_absent absent, inductionHypothesis]
      · simp
      · simpa using distinct

theorem ofEntries_of_distinct
    {entries : List (String × α)}
    (distinct : Keyed.Distinct Prod.fst entries) :
    ofEntries entries = entries :=
  foldl_set_of_distinct entries [] distinct

end AtomicCss.OrderedMap
