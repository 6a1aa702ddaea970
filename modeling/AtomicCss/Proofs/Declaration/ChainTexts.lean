import AtomicCss.Proofs.Declaration.ChainParts
import AtomicCss.Proofs.Declaration.Normalization
import AtomicCss.Proofs.Failure

/-!
Contract: the normal form of a fallback chain, told from the texts of its entries.

Owns:
- chains all of whose entries are literals, and the texts of these;
- the normal form of such a chain, which is the chain of its texts with the references folded;
- why any other chain is refused.

Does not own: how references are folded.
-/

namespace AtomicCss

def Value.isLiteral (value : Value) : Bool :=
  value.literal?.isSome

def Value.texts (name : String) (values : List Value) : List String :=
  (values.filterMap Value.literal?).map (·.canonical name)

theorem Value.texts_ne_nil
    (name : String)
    {values : List Value}
    (nonempty : values ≠ [])
    (literals : ∀ value ∈ values, value.isLiteral = true) :
    texts name values ≠ [] := by
  obtain ⟨first, rest, rfl⟩ := List.exists_cons_of_ne_nil nonempty
  obtain ⟨literal, found⟩ := Option.isSome_iff_exists.mp (literals first List.mem_cons_self)
  simp [texts, found]

/-- Some values are all literals, unless there are none or one is no literal. -/
theorem Value.literals_of_valid
    {values : List Value}
    (valid : ¬(values = [] ∨ ∃ value ∈ values, value.isLiteral = false)) :
    values ≠ [] ∧ ∀ value ∈ values, value.isLiteral = true := by
  simpa [not_or] using valid

namespace Options

/-! ## Literals -/

private theorem chainLiterals_of_literals
    (name : String)
    {items : List Value}
    (literals : ∀ item ∈ items, item.isLiteral = true) :
    chainLiterals name items = .ok (items.filterMap Value.literal?) := by
  induction items with
  | nil => rfl
  | cons first rest inductionHypothesis =>
      obtain ⟨firstLiteral, restLiterals⟩ := List.forall_mem_cons.mp literals
      obtain ⟨literal, found⟩ := Option.isSome_iff_exists.mp firstLiteral
      rw [chainLiterals, found, List.filterMap_cons, found, inductionHypothesis restLiterals]
      rfl

def chainLiteral (name : String) (item : Value) : Except Error Literal :=
  match item.literal? with
  | none => .error (.invalidValue name (.notInChain item.kind))
  | some literal => .ok literal

theorem chainLiteral_eq_error_iff
    (name : String)
    (item : Value)
    (error : Error) :
    chainLiteral name item = .error error ↔
      item.isLiteral = false ∧ error = .invalidValue name (.notInChain item.kind) := by
  unfold chainLiteral Value.isLiteral
  cases item.literal? with
  | none => simp [eq_comm]
  | some literal => simp

/-- The first entry of a chain that is no literal is the one that is reported. -/
theorem chainLiterals_eq_error_iff
    (name : String)
    (items : List Value)
    (error : Error) :
    chainLiterals name items = .error error ↔
      Failure.FailsFirst (chainLiteral name) items error := by
  induction items with
  | nil => simp [chainLiterals, Failure.not_failsFirst_nil]
  | cons first rest inductionHypothesis =>
      rw [Failure.failsFirst_cons_iff, ← inductionHypothesis, chainLiterals, chainLiteral]
      cases first.literal? with
      | none => simp
      | some literal => simp [Failure.map_eq_error_iff]

theorem exists_chainLiterals_eq_error_iff
    (name : String)
    (items : List Value) :
    (∃ error, chainLiterals name items = .error error) ↔
      ∃ item ∈ items, item.isLiteral = false := by
  simp only [chainLiterals_eq_error_iff, Failure.exists_failsFirst_iff, chainLiteral_eq_error_iff,
    exists_and_left, exists_eq, and_true]

/-! ## Chains -/

section Chains

variable (options : Options) (name : String) {items : List Value}

/-- A chain of literals has the normal form of its texts. -/
theorem normalizeChain_of_literals
    (nonempty : items ≠ [])
    (literals : ∀ item ∈ items, item.isLiteral = true) :
    options.normalizeChain name items =
      (Chain.compose name (Value.texts name items)).map fun values =>
        ⟨[options.directed name values],
          (items.filterMap Value.literal?).flatMap (·.warnings name)⟩ := by
  unfold normalizeChain
  rw [chainLiterals_of_literals name literals]
  simp only [List.isEmpty_iff, nonempty, if_false, Value.texts, bind, Except.bind]
  cases Chain.compose name ((items.filterMap Value.literal?).map (·.canonical name)) with
  | error error => rfl
  | ok values => rfl

/-- A chain with an entry that is no literal is refused for the first such entry. -/
theorem normalizeChain_of_not_literal
    {item : Value}
    (member : item ∈ items)
    (other : item.isLiteral = false) :
    ∃ found, Failure.FailsFirst (chainLiteral name) items (.invalidValue name (.notInChain found)) ∧
      options.normalizeChain name items = .error (.invalidValue name (.notInChain found)) := by
  obtain ⟨error, failed⟩ := (exists_chainLiterals_eq_error_iff name items).mpr ⟨item, member, other⟩
  have first := (chainLiterals_eq_error_iff name items error).mp failed
  obtain ⟨-, refused, -, -, -, refusal⟩ := id first
  obtain ⟨-, rfl⟩ := (chainLiteral_eq_error_iff name refused error).mp refusal
  refine ⟨refused.kind, first, ?_⟩
  unfold normalizeChain
  rw [failed]
  simp [List.ne_nil_of_mem member, bind, Except.bind]

/-- Chains are refused as invalid if they are empty or have an entry that is no literal. -/
theorem exists_normalizeChain_invalid_iff :
    (∃ fault, options.normalizeChain name items = .error (.invalidValue name fault)) ↔
      items = [] ∨ ∃ item ∈ items, item.isLiteral = false := by
  constructor
  · rintro ⟨fault, failed⟩
    by_contra valid
    obtain ⟨nonempty, literals⟩ := Value.literals_of_valid valid
    rw [options.normalizeChain_of_literals name nonempty literals, Failure.map_eq_error_iff,
      Chain.compose_eq_error_iff] at failed
    cases failed.2
  · rintro (rfl | ⟨item, member, other⟩)
    · exact ⟨.emptyChain, rfl⟩
    · obtain ⟨found, -, refused⟩ := options.normalizeChain_of_not_literal name member other
      exact ⟨.notInChain found, refused⟩

/-- A chain that is accepted has one declaration, made of its texts with the references folded. -/
theorem exists_compose_of_normalizeChain
    {normalized : Normalized}
    (success : options.normalizeChain name items = .ok normalized) :
    ∃ values, Chain.compose name (Value.texts name items) = .ok values ∧
      normalized.declarations = [options.directed name values] := by
  have valid : ¬(items = [] ∨ ∃ item ∈ items, item.isLiteral = false) := by
    rw [← options.exists_normalizeChain_invalid_iff name]
    rintro ⟨fault, failed⟩
    cases success.symm.trans failed
  obtain ⟨nonempty, literals⟩ := Value.literals_of_valid valid
  rw [options.normalizeChain_of_literals name nonempty literals] at success
  obtain ⟨values, composed, rfl⟩ := Success.map_eq_ok_iff.mp success
  exact ⟨values, composed, rfl⟩

end Chains

end Options

end AtomicCss
