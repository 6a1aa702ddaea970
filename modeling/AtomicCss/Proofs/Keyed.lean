import Mathlib.Data.List.Nodup
import Mathlib.Tactic.Tauto

/-!
Contract: lists whose items bear keys, and that grow at their end.

Owns:
- look-ups by key, and adding an item whose key is not taken;
- coherence, where one key stands for one item, and lists in which no key occurs twice;
- which items a list has after coherent ones were added.

Does not own: what the items are, and how a refused item is reported.
-/

namespace AtomicCss.Keyed

variable {α κ : Type} (key : α → κ)

/-- One key stands for one item. -/
def Coherent (items : List α) : Prop :=
  ∀ first ∈ items, ∀ second ∈ items, key first = key second → first = second

def Distinct (items : List α) : Prop :=
  (items.map key).Nodup

variable {key}

/-- Coherence looks only at which items there are. -/
theorem Coherent.of_subset
    {items others : List α}
    (coherent : Coherent key items)
    (subset : others ⊆ items) :
    Coherent key others := by
  intro first firstMember second secondMember sameKey
  exact coherent first (subset firstMember) second (subset secondMember) sameKey

theorem coherent_iff_of_perm
    {first second : List α}
    (reordered : first.Perm second) :
    Coherent key first ↔ Coherent key second :=
  ⟨fun coherent => coherent.of_subset reordered.symm.subset,
    fun coherent => coherent.of_subset reordered.subset⟩

theorem Distinct.coherent
    {items : List α}
    (distinct : Distinct key items) :
    Coherent key items := by
  intro first firstMember second secondMember sameKey
  exact List.inj_on_of_nodup_map distinct firstMember secondMember sameKey

/-- Where no item occurs twice, one key stands for one item exactly if no key occurs twice. -/
theorem coherent_iff_distinct
    {items : List α}
    (nodup : items.Nodup) :
    Coherent key items ↔ Distinct key items :=
  ⟨fun coherent => List.Nodup.map_on coherent nodup, Distinct.coherent⟩

variable [DecidableEq κ] (key)

def lookup (items : List α) (wanted : κ) : Option α :=
  items.find? fun item => key item = wanted

/-- The list with an item at its end, if the key is not taken. -/
def add (items : List α) (item : α) : List α :=
  if (lookup key items (key item)).isSome then items else items ++ [item]

/-- The key of an item is free, or stands for the item already. -/
def Accepts (items : List α) (item : α) : Prop :=
  ∀ existing, lookup key items (key item) = some existing → existing = item

variable {key}

/-! ## Look-ups -/

theorem mem_of_lookup
    {items : List α}
    {wanted : κ}
    {item : α}
    (found : lookup key items wanted = some item) :
    item ∈ items :=
  List.mem_of_find?_eq_some found

theorem key_of_lookup
    {items : List α}
    {wanted : κ}
    {item : α}
    (found : lookup key items wanted = some item) :
    key item = wanted := by
  simpa using List.find?_some found

theorem isSome_lookup_iff
    {items : List α}
    {wanted : κ} :
    (lookup key items wanted).isSome = true ↔ ∃ item ∈ items, key item = wanted := by
  simp [lookup]

/-- What is found stays found in every list that continues this one. -/
theorem lookup_of_prefix
    {earlier later : List α}
    (continued : earlier <+: later)
    {wanted : κ}
    {item : α}
    (found : lookup key earlier wanted = some item) :
    lookup key later wanted = some item := by
  obtain ⟨added, rfl⟩ := continued
  simp only [lookup] at found ⊢
  rw [List.find?_append, found]
  rfl

/-! ## Adding items -/

theorem add_of_taken
    {items : List α}
    {item : α}
    (taken : (lookup key items (key item)).isSome = true) :
    add key items item = items := by
  simp [add, taken]

theorem add_of_free
    {items : List α}
    {item : α}
    (free : (lookup key items (key item)).isSome = false) :
    add key items item = items ++ [item] := by
  simp [add, free]

theorem prefix_add
    (items : List α)
    (item : α) :
    items <+: add key items item := by
  cases taken : (lookup key items (key item)).isSome with
  | true => exact ⟨[], by rw [add_of_taken taken, List.append_nil]⟩
  | false => exact ⟨[item], by rw [add_of_free taken]⟩

theorem prefix_foldl_add
    (batch items : List α) :
    items <+: batch.foldl (add key) items := by
  induction batch generalizing items with
  | nil => exact List.prefix_refl _
  | cons item rest inductionHypothesis =>
      exact (prefix_add items item).trans (inductionHypothesis (add key items item))

theorem lookup_add
    (items : List α)
    (item : α)
    (wanted : κ) :
    lookup key (add key items item) wanted =
      (lookup key items wanted).or (if key item = wanted then some item else none) := by
  cases taken : (lookup key items (key item)).isSome with
  | true =>
      rw [add_of_taken taken]
      by_cases sameKey : key item = wanted
      · subst sameKey
        obtain ⟨existing, found⟩ := Option.isSome_iff_exists.mp taken
        simp [found]
      · simp [sameKey]
  | false =>
      rw [add_of_free taken]
      simp only [lookup, List.find?_append, List.find?_singleton, decide_eq_true_eq]

/-- What a key stands for after a batch was added: what it stood for before, and failing that the
first item of that key in the batch. -/
theorem lookup_foldl_add
    (batch items : List α)
    (wanted : κ) :
    lookup key (batch.foldl (add key) items) wanted =
      (lookup key items wanted).or (lookup key batch wanted) := by
  induction batch generalizing items with
  | nil => simp [lookup]
  | cons item rest inductionHypothesis =>
      rw [List.foldl_cons, inductionHypothesis, lookup_add, Option.or_assoc]
      by_cases sameKey : key item = wanted
      · simp [lookup, sameKey]
      · simp [lookup, sameKey]

/-- Items whose keys are taken add nothing. -/
theorem foldl_add_eq_self
    {items batch : List α}
    (taken : ∀ item ∈ batch, (lookup key items (key item)).isSome = true) :
    batch.foldl (add key) items = items := by
  induction batch with
  | nil => rfl
  | cons item rest inductionHypothesis =>
      rw [List.foldl_cons, add_of_taken (taken item (by simp))]
      apply inductionHypothesis
      intro other member
      exact taken other (by simp [member])

/-! ## Distinct keys -/

/-- Where no key occurs twice, the items are exactly what their keys stand for. -/
theorem Distinct.lookup_eq_some_iff
    {items : List α}
    (distinct : Distinct key items)
    {wanted : κ}
    {item : α} :
    lookup key items wanted = some item ↔ item ∈ items ∧ key item = wanted := by
  constructor
  · intro found
    exact ⟨mem_of_lookup found, key_of_lookup found⟩
  · rintro ⟨member, rfl⟩
    obtain ⟨existing, found⟩ : ∃ existing, lookup key items (key item) = some existing :=
      Option.isSome_iff_exists.mp (isSome_lookup_iff.mpr ⟨item, member, rfl⟩)
    have sameItem : existing = item :=
      List.inj_on_of_nodup_map distinct (mem_of_lookup found) member (key_of_lookup found)
    rw [found, sameItem]

theorem Distinct.add
    {items : List α}
    (distinct : Distinct key items)
    (item : α) :
    Distinct key (Keyed.add key items item) := by
  cases taken : (lookup key items (key item)).isSome with
  | true =>
      rw [add_of_taken taken]
      exact distinct
  | false =>
      rw [add_of_free taken]
      have absent : key item ∉ items.map key := by
        intro member
        obtain ⟨existing, existingMember, sameKey⟩ := List.mem_map.mp member
        have found := isSome_lookup_iff.mpr ⟨existing, existingMember, sameKey⟩
        rw [taken] at found
        contradiction
      unfold Distinct
      rw [List.map_append, List.map_singleton, ← List.concat_eq_append]
      exact List.Nodup.concat absent distinct

theorem Distinct.foldl_add
    {items : List α}
    (distinct : Distinct key items)
    (batch : List α) :
    Distinct key (batch.foldl (Keyed.add key) items) := by
  induction batch generalizing items with
  | nil => exact distinct
  | cons item rest inductionHypothesis =>
      exact inductionHypothesis (distinct.add item)

theorem distinct_foldl_add
    (batch : List α) :
    Distinct key (batch.foldl (Keyed.add key) []) := by
  have empty : Distinct key ([] : List α) := List.nodup_nil
  exact empty.foldl_add batch

/-- Items under new keys are all added, in order. -/
theorem Distinct.foldl_add_eq_append
    {items batch : List α}
    (distinct : Distinct key (items ++ batch)) :
    batch.foldl (Keyed.add key) items = items ++ batch := by
  induction batch generalizing items with
  | nil => exact (List.append_nil items).symm
  | cons item rest inductionHypothesis =>
      have free : (lookup key items (key item)).isSome = false := by
        rw [Bool.eq_false_iff, Ne, isSome_lookup_iff]
        rintro ⟨existing, member, sameKey⟩
        have apart := distinct
        rw [Distinct, List.map_append, List.map_cons, List.nodup_append'] at apart
        exact apart.2.2 (List.mem_map_of_mem member) (sameKey ▸ List.mem_cons_self)
      have shifted : items ++ item :: rest = (items ++ [item]) ++ rest := by simp
      rw [shifted] at distinct ⊢
      rw [List.foldl_cons, add_of_free free, inductionHypothesis distinct]

/-! ## Coherence -/

theorem Distinct.accepts_iff
    {items : List α}
    (distinct : Distinct key items)
    {item : α} :
    Accepts key items item ↔ ∀ existing ∈ items, key existing = key item → existing = item := by
  simp only [Accepts, distinct.lookup_eq_some_iff, and_imp]

/-- After an accepted item was added, it is there together with what was there before. -/
theorem mem_add_iff
    {items : List α}
    {item : α}
    (accepted : Accepts key items item)
    (other : α) :
    other ∈ add key items item ↔ other ∈ items ∨ other = item := by
  cases taken : (lookup key items (key item)).isSome with
  | true =>
      rw [add_of_taken taken]
      obtain ⟨existing, found⟩ := Option.isSome_iff_exists.mp taken
      have present : item ∈ items := by
        rw [← accepted existing found]
        exact mem_of_lookup found
      constructor
      · exact .inl
      · rintro (member | rfl)
        · exact member
        · exact present
  | false =>
      rw [add_of_free taken]
      simp

/-- Coherence of a batch with a list, one item at a time. -/
theorem Distinct.coherent_append_cons_iff
    {items : List α}
    (distinct : Distinct key items)
    (item : α)
    (rest : List α) :
    Coherent key (items ++ item :: rest) ↔
      Accepts key items item ∧ Coherent key (Keyed.add key items item ++ rest) := by
  have sameMembers (accepted : Accepts key items item) (other : α) :
      other ∈ Keyed.add key items item ++ rest ↔ other ∈ items ++ item :: rest := by
    simp only [List.mem_append, List.mem_cons, mem_add_iff accepted, or_assoc]
  constructor
  · intro coherent
    have accepted : Accepts key items item := by
      rw [distinct.accepts_iff]
      intro existing member sameKey
      exact coherent existing (by simp [member]) item (by simp) sameKey
    exact ⟨accepted, coherent.of_subset fun other => (sameMembers accepted other).mp⟩
  · rintro ⟨accepted, coherent⟩
    exact coherent.of_subset fun other => (sameMembers accepted other).mpr

/-- A coherent batch is there after it was added. -/
theorem Distinct.mem_foldl_add_iff
    {items batch : List α}
    (distinct : Distinct key items)
    (coherent : Coherent key (items ++ batch))
    (item : α) :
    item ∈ batch.foldl (Keyed.add key) items ↔ item ∈ items ∨ item ∈ batch := by
  induction batch generalizing items with
  | nil => simp
  | cons head rest inductionHypothesis =>
      obtain ⟨accepted, restCoherent⟩ := (distinct.coherent_append_cons_iff head rest).mp coherent
      rw [List.foldl_cons, inductionHypothesis (distinct.add head) restCoherent,
        mem_add_iff accepted, List.mem_cons, or_assoc]

theorem Coherent.mem_foldl_add_iff
    {batch : List α}
    (coherent : Coherent key batch)
    (item : α) :
    item ∈ batch.foldl (Keyed.add key) [] ↔ item ∈ batch := by
  have empty : Distinct key ([] : List α) := List.nodup_nil
  have gathered : item ∈ batch.foldl (Keyed.add key) [] ↔ item ∈ [] ∨ item ∈ batch :=
    empty.mem_foldl_add_iff coherent item
  simpa using gathered

/-- Coherence of two batches with a list, one batch after the other. -/
theorem Distinct.coherent_append_append_iff
    {items : List α}
    (distinct : Distinct key items)
    (batch rest : List α) :
    Coherent key (items ++ (batch ++ rest)) ↔
      Coherent key (items ++ batch) ∧ Coherent key (batch.foldl (Keyed.add key) items ++ rest) := by
  have sameMembers (coherent : Coherent key (items ++ batch)) (other : α) :
      other ∈ batch.foldl (Keyed.add key) items ++ rest ↔ other ∈ items ++ (batch ++ rest) := by
    simp only [List.mem_append, distinct.mem_foldl_add_iff coherent, or_assoc]
  constructor
  · intro coherent
    have batchCoherent : Coherent key (items ++ batch) := by
      apply coherent.of_subset
      intro other member
      simp only [List.mem_append] at member ⊢
      tauto
    exact ⟨batchCoherent, coherent.of_subset fun other => (sameMembers batchCoherent other).mp⟩
  · rintro ⟨batchCoherent, coherent⟩
    exact coherent.of_subset fun other => (sameMembers batchCoherent other).mpr

/-! ## Other orders -/

/-- A coherent batch added in another order gives the same items in another order. -/
theorem perm_foldl_add
    {first second : List α}
    (coherent : Coherent key first)
    (reordered : first.Perm second) :
    (first.foldl (add key) []).Perm (second.foldl (add key) []) := by
  have otherCoherent : Coherent key second := (coherent_iff_of_perm reordered).mp coherent
  have firstNodup := List.Nodup.of_map key (distinct_foldl_add first)
  have secondNodup := List.Nodup.of_map key (distinct_foldl_add second)
  rw [List.perm_ext_iff_of_nodup firstNodup secondNodup]
  intro item
  rw [coherent.mem_foldl_add_iff, otherCoherent.mem_foldl_add_iff, reordered.mem_iff]

end AtomicCss.Keyed
