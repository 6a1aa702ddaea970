import Mathlib.Data.List.Basic

/-!
Contract: lists whose items have a rank each.

Owns:
- the items of one rank, in the order of the list;
- lists in which ranks ascend, and which such lists are contained in each other.

Does not own: how a list gets into ascending order.
-/

namespace AtomicCss.Ranked

variable {α : Type} (rank : α → Nat)

/-- No item comes before one of a lower rank. -/
def Ascends (items : List α) : Prop :=
  (items.map rank).Pairwise (· ≤ ·)

def block (items : List α) (wanted : Nat) : List α :=
  items.filter fun item => rank item = wanted

def below (items : List α) (bound : Nat) : List α :=
  items.filter fun item => rank item < bound

variable {rank}

theorem ascends_cons_iff
    {head : α}
    {tail : List α} :
    Ascends rank (head :: tail) ↔ (∀ item ∈ tail, rank head ≤ rank item) ∧ Ascends rank tail := by
  unfold Ascends
  rw [List.map_cons, List.pairwise_cons, List.forall_mem_map]

theorem Ascends.head_le
    {head : α}
    {tail : List α}
    (ascends : Ascends rank (head :: tail))
    {item : α}
    (member : item ∈ head :: tail) :
    rank head ≤ rank item := by
  rcases List.mem_cons.mp member with rfl | later
  · exact Nat.le_refl _
  · exact (ascends_cons_iff.mp ascends).1 item later

theorem mem_block_iff
    {items : List α}
    {wanted : Nat}
    {item : α} :
    item ∈ block rank items wanted ↔ item ∈ items ∧ rank item = wanted := by
  simp [block]

private theorem block_cons_of_eq
    {head : α}
    {wanted : Nat}
    (same : rank head = wanted)
    (tail : List α) :
    block rank (head :: tail) wanted = head :: block rank tail wanted := by
  simp [block, same]

private theorem block_cons_of_ne
    {head : α}
    {wanted : Nat}
    (different : rank head ≠ wanted)
    (tail : List α) :
    block rank (head :: tail) wanted = block rank tail wanted := by
  simp [block, different]

theorem ascends_block
    (rank : α → Nat)
    (items : List α)
    (wanted : Nat) :
    Ascends rank (block rank items wanted) := by
  unfold Ascends
  rw [List.pairwise_map]
  apply List.pairwise_of_forall_mem_list
  intro left leftMember right rightMember
  exact Nat.le_of_eq ((mem_block_iff.mp leftMember).2.trans (mem_block_iff.mp rightMember).2.symm)

/-- The head of an ascending list is in the block of its lowest rank. -/
theorem head_of_block_eq_cons
    {head first : α}
    {tail rest : List α}
    (ascends : Ascends rank (head :: tail))
    (lowest : rank first ≤ rank head)
    (found : block rank (head :: tail) (rank first) = first :: rest) :
    head = first ∧ block rank tail (rank first) = rest := by
  have inBlock : first ∈ block rank (head :: tail) (rank first) := by
    rw [found]
    exact List.mem_cons_self
  have headLowest := ascends.head_le (mem_block_iff.mp inBlock).1
  rw [block_cons_of_eq (Nat.le_antisymm headLowest lowest)] at found
  exact List.cons.inj found

/-- An ascending list whose blocks are contained in those of another is contained in it. -/
theorem sublist_of_blocks
    {first second : List α}
    (firstAscends : Ascends rank first)
    (secondAscends : Ascends rank second)
    (blocks : ∀ wanted, (block rank first wanted).Sublist (block rank second wanted)) :
    first.Sublist second := by
  induction second generalizing first with
  | nil =>
      cases first with
      | nil => exact List.nil_sublist _
      | cons item rest =>
          have stray : item ∈ block rank [] (rank item) :=
            (blocks (rank item)).subset (mem_block_iff.mpr ⟨List.mem_cons_self, rfl⟩)
          exact absurd stray List.not_mem_nil
  | cons head tail inductionHypothesis =>
      have tailAscends := (ascends_cons_iff.mp secondAscends).2
      have others (wanted : Nat) (different : rank head ≠ wanted) :
          (block rank first wanted).Sublist (block rank tail wanted) := by
        rw [← block_cons_of_ne different tail]
        exact blocks wanted
      have atHead := blocks (rank head)
      rw [block_cons_of_eq rfl, List.sublist_cons_iff] at atHead
      -- Either the block of the head is matched without it, or it starts with the head.
      rcases atHead with skipped | ⟨rest, started, restSublist⟩
      · apply List.Sublist.cons
        apply inductionHypothesis firstAscends tailAscends
        intro wanted
        by_cases same : rank head = wanted
        · rw [← same]
          exact skipped
        · exact others wanted same
      · cases first with
        | nil => cases started
        | cons item items =>
            have itemFound : item ∈ block rank (head :: tail) (rank item) :=
              (blocks (rank item)).subset (mem_block_iff.mpr ⟨List.mem_cons_self, rfl⟩)
            have headLowest := secondAscends.head_le (mem_block_iff.mp itemFound).1
            obtain ⟨rfl, sameRest⟩ := head_of_block_eq_cons firstAscends headLowest started
            apply List.Sublist.cons_cons
            apply inductionHypothesis (ascends_cons_iff.mp firstAscends).2 tailAscends
            intro wanted
            by_cases same : rank item = wanted
            · rw [← same, sameRest]
              exact restSublist
            · rw [← block_cons_of_ne same items]
              exact others wanted same

/-- Of two items of an ascending list the lower one comes first. -/
theorem pair_sublist
    {items : List α}
    (ascends : Ascends rank items)
    {low high : α}
    (lowMember : low ∈ items)
    (highMember : high ∈ items)
    (lower : rank low < rank high) :
    [low, high].Sublist items := by
  obtain ⟨before, after, rfl⟩ := List.append_of_mem lowMember
  have highAfter : high ∈ after := by
    rcases List.mem_append.mp highMember with earlier | later
    · unfold Ascends at ascends
      rw [List.map_append, List.pairwise_append] at ascends
      have highLe : rank high ≤ rank low :=
        ascends.2.2 _ (List.mem_map_of_mem earlier) _ (List.mem_map_of_mem List.mem_cons_self)
      omega
    · rcases List.mem_cons.mp later with rfl | found
      · omega
      · exact found
  apply List.Sublist.trans _ (List.sublist_append_right before _)
  exact (List.singleton_sublist.mpr highAfter).cons_cons low

private theorem below_cons_of_lt
    {head : α}
    {bound : Nat}
    (under : rank head < bound)
    (tail : List α) :
    below rank (head :: tail) bound = head :: below rank tail bound :=
  List.filter_cons_of_pos (decide_eq_true under)

private theorem below_cons_of_le
    {head : α}
    {bound : Nat}
    (above : bound ≤ rank head)
    (tail : List α) :
    below rank (head :: tail) bound = below rank tail bound :=
  List.filter_cons_of_neg (by simpa using above)

private theorem below_eq_nil
    {head : α}
    {tail : List α}
    (ascends : Ascends rank (head :: tail))
    {bound : Nat}
    (above : bound ≤ rank head) :
    below rank (head :: tail) bound = [] := by
  unfold below
  rw [List.filter_eq_nil_iff]
  intro item member
  have headLe := ascends.head_le member
  simp only [decide_eq_true_eq]
  omega

theorem below_prefix
    {items : List α}
    (ascends : Ascends rank items)
    (bound : Nat) :
    below rank items bound <+: items := by
  induction items with
  | nil => exact List.nil_prefix
  | cons head tail inductionHypothesis =>
      by_cases under : rank head < bound
      · rw [below_cons_of_lt under, List.prefix_cons_inj]
        exact inductionHypothesis (ascends_cons_iff.mp ascends).2
      · rw [below_eq_nil ascends (Nat.le_of_not_lt under)]
        exact List.nil_prefix

/-- The items up to a rank are those below it and then its block. -/
theorem below_succ
    {items : List α}
    (ascends : Ascends rank items)
    (bound : Nat) :
    below rank items (bound + 1) = below rank items bound ++ block rank items bound := by
  induction items with
  | nil => rfl
  | cons head tail inductionHypothesis =>
      have rest := inductionHypothesis (ascends_cons_iff.mp ascends).2
      rcases Nat.lt_trichotomy (rank head) bound with under | same | above
      · rw [below_cons_of_lt (Nat.lt_succ_of_lt under), below_cons_of_lt under,
          block_cons_of_ne (Nat.ne_of_lt under), rest, List.cons_append]
      · -- Nothing after the head is below its rank.
        have noneUnder := below_eq_nil ascends (Nat.le_of_eq same.symm)
        rw [below_cons_of_le (Nat.le_of_eq same.symm)] at noneUnder
        rw [below_cons_of_lt (Nat.lt_succ_of_le (Nat.le_of_eq same)),
          below_cons_of_le (Nat.le_of_eq same.symm), block_cons_of_eq same, rest, noneUnder,
          List.nil_append, List.nil_append]
      · rw [below_cons_of_le above, below_cons_of_le (Nat.le_of_lt above),
          block_cons_of_ne (Nat.ne_of_gt above), rest]

/-- Some bound is above all ranks. -/
theorem exists_below_eq_self
    (rank : α → Nat)
    (first second : List α) :
    ∃ bound, below rank first bound = first ∧ below rank second bound = second := by
  obtain ⟨bound, above⟩ : ∃ bound, ∀ item ∈ first ++ second, rank item < bound := by
    induction first ++ second with
    | nil => exact ⟨0, by simp⟩
    | cons head tail inductionHypothesis =>
        obtain ⟨bound, above⟩ := inductionHypothesis
        refine ⟨bound + rank head + 1, ?_⟩
        intro item member
        rcases List.mem_cons.mp member with rfl | later
        · omega
        · have := above item later
          omega
  refine ⟨bound, ?_, ?_⟩
  · apply List.filter_eq_self.mpr
    intro item member
    exact decide_eq_true (above item (List.mem_append_left _ member))
  · apply List.filter_eq_self.mpr
    intro item member
    exact decide_eq_true (above item (List.mem_append_right _ member))

end AtomicCss.Ranked
