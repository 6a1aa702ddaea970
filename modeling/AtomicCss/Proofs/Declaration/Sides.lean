import AtomicCss.Proofs.Declaration.ChainParts
import AtomicCss.Proofs.Declaration.Mirroring
import AtomicCss.Proofs.Declaration.Normalization
import AtomicCss.Proofs.Property.Sides
import Mathlib.Control.Monad.Basic
import Mathlib.Data.List.Forall2

/-!
Contract: the sides that an author meant, on pages of both writing directions.

Owns:
- the properties and values that an author wrote, shorthands already split;
- the exact condition for a declaration to be read, in each writing direction, as it was written.

Does not own: the spelling of values, which are compared in their one spelling. A declaration is
mirrored with all its values, so that the condition is not met by a fallback chain that names a side
and an end of the line.
-/

namespace AtomicCss

/-! ## What an author wrote -/

/-- A property with the values it falls back through, as the author wrote them. -/
structure Authored where
  property : String
  values : List String
deriving DecidableEq, Repr

namespace Authored

/-- The value is an end of the line, and another one is a side. -/
def Freezes (authored : Authored) (value : String) : Prop :=
  (∃ other ∈ authored.values, ∃ side,
      keywordPlace? authored.property other = some (.fixed side)) ∧
    ∃ place, keywordPlace? authored.property value = some place ∧ place.followsLine = true

/-- How a value is read on right-to-left pages: as it was written, unless it is frozen, and then as
on left-to-right pages. -/
structure TurnsInto (authored : Authored) (value property shown : String) : Prop where
  kept : physicalReading .rtl property shown = physicalReading .rtl authored.property value ↔
    ¬ authored.Freezes value
  frozen : authored.Freezes value →
    physicalReading .rtl property shown = physicalReading .ltr authored.property value

structure IsReadFrom (authored : Authored) (declaration : Declaration) : Prop where
  ltr : List.Forall₂
    (fun value shown =>
      physicalReading .ltr declaration.property shown =
        physicalReading .ltr authored.property value)
    authored.values declaration.values
  rtl : List.Forall₂
    (fun value shown => authored.TurnsInto value (declaration.toward .rtl).property shown)
    authored.values (declaration.toward .rtl).values

private theorem Freezes.readings_differ
    {authored : Authored}
    {value : String}
    (frozen : authored.Freezes value) :
    physicalReading .ltr authored.property value ≠
      physicalReading .rtl authored.property value := by
  obtain ⟨-, place, found, follows⟩ := frozen
  intro same
  have sameWord := (Prod.mk.inj same).2
  rw [physicalKeyword_of_place found, physicalKeyword_of_place found] at sameWord
  cases place with
  | fixed side => cases follows
  | lineStart => exact absurd sameWord (by decide)
  | lineEnd => exact absurd sameWord (by decide)

theorem turnsInto_of_not_freezes
    {authored : Authored}
    {value property shown : String}
    (unfrozen : ¬ authored.Freezes value)
    (same : physicalReading .rtl property shown =
      physicalReading .rtl authored.property value) :
    authored.TurnsInto value property shown :=
  ⟨iff_of_true same unfrozen, fun frozen => absurd frozen unfrozen⟩

private theorem turnsInto_of_freezes
    {authored : Authored}
    {value property shown : String}
    (frozen : authored.Freezes value)
    (same : physicalReading .rtl property shown =
      physicalReading .ltr authored.property value) :
    authored.TurnsInto value property shown := by
  refine ⟨iff_of_false ?_ (not_not_intro frozen), fun _ => same⟩
  intro kept
  exact frozen.readings_differ (same.symm.trans kept)

theorem not_freezes_of_no_lineEnds
    {authored : Authored}
    (untaken : lineEnds? authored.property = none)
    (value : String) :
    ¬ authored.Freezes value := by
  rintro ⟨-, place, found, -⟩
  simp only [keywordPlace?, untaken] at found
  cases found

/-! ## Declarations along the writing direction -/

/-- A property that was mapped keeps its side with all values. -/
theorem isReadFrom_of_logical?
    {property counterpart : String}
    (found : Property.logical? property = some counterpart)
    (values : List String) :
    IsReadFrom ⟨property, values⟩ ⟨counterpart, values, true⟩ := by
  obtain ⟨physical, physicalMember, logical, logicalMember, mirrored, mirroredMember, rfl, rfl,
    turned, sameLtr, sameRtl⟩ := exists_readings_of_logical? found
  have untaken := lineEnds?_of_mem_readings physical physicalMember
  have logicalUntaken := lineEnds?_of_mem_readings logical logicalMember
  refine ⟨?_, ?_⟩
  · apply List.forall₂_same.mpr
    intro value _
    rw [physicalReading_of_mem logicalMember, physicalReading_of_mem physicalMember, sameLtr]
  · simp only [Declaration.toward, Declaration.mirrored?, if_true, Option.getD_some,
      List.forall₂_map_right_iff]
    apply List.forall₂_same.mpr
    intro value _
    apply turnsInto_of_not_freezes
    · exact not_freezes_of_no_lineEnds untaken value
    · rw [mirrorKeyword_of_no_lineEnds logicalUntaken, ← turned,
        physicalReading_of_mem mirroredMember, physicalReading_of_mem physicalMember, sameRtl]

theorem isSome_logicalKeyword?_iff
    (property value : String) :
    (Property.logicalKeyword? property value).isSome = true ↔
      ∃ side, keywordPlace? property value = some (.fixed side) := by
  cases taken : lineEnds? property with
  | none =>
      have noPlace : keywordPlace? property value = none := by simp only [keywordPlace?, taken]
      simp [logicalKeyword?_of_no_lineEnds taken, noPlace]
  | some ends =>
      rcases keyword_cases taken value with ⟨place, mapped⟩ | ⟨place, mapped⟩ |
        ⟨place, -, mapped⟩ | ⟨place, -, mapped⟩ | ⟨place, mapped, -⟩
      · simp [place, mapped]
      · simp [place, mapped]
      · simp [place, mapped]
      · simp [place, mapped]
      · simp [place, mapped]

/-- A declaration none of whose values was mapped is not mirrored. -/
theorem isReadFrom_of_no_keyword
    {property : String}
    {values : List String}
    (unmapped : ∀ value ∈ values, Property.logicalKeyword? property value = none) :
    IsReadFrom ⟨property, values⟩ ⟨property, values, false⟩ := by
  refine ⟨?_, ?_⟩
  · apply List.forall₂_same.mpr
    intro value _
    rfl
  · apply List.forall₂_same.mpr
    intro value _
    apply turnsInto_of_not_freezes
    · rintro ⟨⟨other, member, fixed⟩, -⟩
      have mapped := (isSome_logicalKeyword?_iff property other).mpr fixed
      rw [unmapped other member] at mapped
      cases mapped
    · rfl

/-- A declaration with a value that was mapped is mirrored with all values: those that name a side
keep it, and those that name an end of the line are frozen. -/
theorem isReadFrom_of_keyword
    {property : String}
    {values : List String}
    (mapped : ∃ value ∈ values, (Property.logicalKeyword? property value).isSome = true) :
    IsReadFrom ⟨property, values⟩
      ⟨property, values.map fun value => (Property.logicalKeyword? property value).getD value,
        true⟩ := by
  obtain ⟨witness, witnessMember, witnessMapped⟩ := mapped
  obtain ⟨side, fixed⟩ := (isSome_logicalKeyword?_iff property witness).mp witnessMapped
  obtain ⟨ends, taken⟩ : ∃ ends, lineEnds? property = some ends := by
    apply Option.isSome_iff_exists.mp
    apply Option.isSome_iff_ne_none.mpr
    intro untaken
    simp only [keywordPlace?, untaken] at fixed
    cases fixed
  have unturned : Property.mirror property = property := mirror_of_lineEnds? taken
  have sameName : physicalName .rtl property = physicalName .ltr property := by
    rw [physicalName_of_lineEnds? taken, physicalName_of_lineEnds? taken]
  refine ⟨?_, ?_⟩
  · apply List.forall₂_map_right_iff.mpr
    apply List.forall₂_same.mpr
    intro value _
    exact congrArg (Prod.mk _) (physicalKeyword_ltr_logicalKeyword? property value)
  · simp only [Declaration.toward, Declaration.mirrored?, if_true, Option.getD_some, unturned,
      List.map_map, List.forall₂_map_right_iff]
    apply List.forall₂_same.mpr
    intro value _
    have turned := physicalKeyword_rtl_mirrorKeyword property value
    -- The flag of the declaration turns every value, also one that follows the line by itself.
    by_cases follows : (keywordPlace? property value).any Place.followsLine = true
    · rw [if_pos follows] at turned
      apply turnsInto_of_freezes
      · exact ⟨⟨witness, witnessMember, side, fixed⟩, (Option.any_eq_true _ _).mp follows⟩
      · exact congrArg₂ Prod.mk sameName turned
    · rw [if_neg follows] at turned
      apply turnsInto_of_not_freezes
      · rintro ⟨-, along⟩
        exact follows ((Option.any_eq_true _ _).mpr along)
      · exact congrArg (Prod.mk _) turned

theorem isReadFrom_directed
    {options : Options}
    (logical : options.logicalProperties = true)
    (property : String)
    (values : List String) :
    IsReadFrom ⟨property, values⟩ (options.directed property values) := by
  have sameNames : options.logical? property = Property.logical? property := by
    simp only [Options.logical?, logical, if_true]
  have sameKeywords (value : String) :
      options.logicalKeyword? property value = Property.logicalKeyword? property value := by
    simp only [Options.logicalKeyword?, logical, if_true]
  unfold Options.directed
  rw [sameNames]
  cases found : Property.logical? property with
  | some counterpart => exact isReadFrom_of_logical? found values
  | none =>
      simp only [sameKeywords]
      by_cases mapped :
          ∃ value ∈ values, (Property.logicalKeyword? property value).isSome = true
      · rw [List.any_eq_true.mpr mapped]
        exact isReadFrom_of_keyword mapped
      · have unmapped :
            ∀ value ∈ values, Property.logicalKeyword? property value = none := by
          intro value member
          apply Option.not_isSome_iff_eq_none.mp
          intro isMapped
          exact mapped ⟨value, member, isMapped⟩
        have same :
            (values.map fun value => (Property.logicalKeyword? property value).getD value) =
              values := by
          conv_rhs => rw [← List.map_id values]
          apply List.map_congr_left
          intro value member
          rw [unmapped value member]
          rfl
        have undirectional :
            (values.any fun value => (Property.logicalKeyword? property value).isSome) = false :=
          List.any_eq_false.mpr fun value member isMapped => mapped ⟨value, member, isMapped⟩
        rw [same, undirectional]
        exact isReadFrom_of_no_keyword unmapped

/-- A declaration that is read from a property is read from an older name of that property. -/
theorem IsReadFrom.of_alias?
    {older present : String}
    (found : Property.alias? older = some present)
    {values : List String}
    {declaration : Declaration}
    (isRead : IsReadFrom ⟨present, values⟩ declaration) :
    IsReadFrom ⟨older, values⟩ declaration := by
  obtain ⟨olderReading, olderMember, presentReading, presentMember, rfl, rfl, samePhysical⟩ :=
    exists_readings_of_alias? found
  have sameReading (direction : Direction) (value : String) :
      physicalReading direction olderReading.name value =
        physicalReading direction presentReading.name value := by
    rw [physicalReading_of_mem olderMember, physicalReading_of_mem presentMember, samePhysical]
  have olderUntaken := lineEnds?_of_mem_readings olderReading olderMember
  have presentUntaken := lineEnds?_of_mem_readings presentReading presentMember
  refine ⟨?_, ?_⟩
  · simp only [sameReading]
    exact isRead.ltr
  · apply isRead.rtl.imp
    intro value shown turns
    apply turnsInto_of_not_freezes
    · exact not_freezes_of_no_lineEnds olderUntaken value
    · rw [sameReading]
      exact turns.kept.mpr (not_freezes_of_no_lineEnds presentUntaken value)

/-- A declaration that is read from the property of a key is read from the key. -/
theorem IsReadFrom.of_canonicalName
    {key : String}
    {values : List String}
    {declaration : Declaration}
    (isRead : IsReadFrom ⟨Property.canonicalName key, values⟩ declaration) :
    IsReadFrom ⟨Property.dashed key, values⟩ declaration := by
  unfold Property.canonicalName at isRead
  cases found : Property.alias? (Property.dashed key) with
  | none =>
      rw [found] at isRead
      exact isRead
  | some present =>
      rw [found] at isRead
      exact isRead.of_alias? found

end Authored

/-! ## Keys and values -/

namespace Options

private theorem filterMap_literal?_of_chainLiterals
    {name : String}
    {items : List Value}
    {literals : List Literal}
    (read : chainLiterals name items = .ok literals) :
    items.filterMap Value.literal? = literals := by
  induction items generalizing literals with
  | nil =>
      rw [chainLiterals, Except.ok.injEq] at read
      rw [← read]
      rfl
  | cons item rest inductionHypothesis =>
      rw [chainLiterals] at read
      cases found : item.literal? with
      | none => simp [found] at read
      | some literal =>
          rw [found] at read
          obtain ⟨others, readOthers, rfl⟩ := Success.map_eq_ok_iff.mp read
          rw [List.filterMap_cons_some found, inductionHypothesis readOthers]

def authoredLonghand (key : String) (pair : String × Literal) : Authored :=
  ⟨if pair.1 = Property.canonicalName key then Property.dashed key else pair.1,
    [pair.2.canonical pair.1]⟩

/-- What an author wrote under a key. A shorthand that is split counts as its longhands. -/
def authored (options : Options) (key : String) : Value → List Authored
  | .number magnitude =>
    (options.expand (Property.canonicalName key) (.number magnitude)).1.map (authoredLonghand key)
  | .text written =>
    (options.expand (Property.canonicalName key) (.text written)).1.map (authoredLonghand key)
  | .chain items =>
    [⟨Property.dashed key,
      (items.filterMap Value.literal?).map (·.canonical (Property.canonicalName key))⟩]
  | _ => []

private theorem not_freezes_of_literal
    (options : Options)
    (key : String)
    (value : Value)
    (single : ∀ items, value ≠ .chain items) :
    ∀ authored ∈ options.authored key value, ∀ entry ∈ authored.values,
      ¬ authored.Freezes entry := by
  have ofLonghand (pair : String × Literal) :
      ∀ entry ∈ (authoredLonghand key pair).values,
        ¬ (authoredLonghand key pair).Freezes entry := by
    rintro entry member ⟨⟨other, otherMember, side, fixed⟩, place, found, follows⟩
    have sameEntry : other = entry :=
      (List.mem_singleton.mp otherMember).trans (List.mem_singleton.mp member).symm
    rw [sameEntry, found] at fixed
    rw [Option.some.inj fixed] at follows
    cases follows
  intro authored member
  cases value with
  | number magnitude =>
      obtain ⟨pair, -, rfl⟩ := List.mem_map.mp member
      exact ofLonghand pair
  | text written =>
      obtain ⟨pair, -, rfl⟩ := List.mem_map.mp member
      exact ofLonghand pair
  | chain items => exact absurd rfl (single items)
  | null => cases member
  | dynamic reference => cases member
  | keyframes frames => cases member
  | object entries => cases member

private theorem forall₂_isReadFrom_normalizeLiteral
    {options : Options}
    (logical : options.logicalProperties = true)
    (key : String)
    (literal : Literal) :
    List.Forall₂ Authored.IsReadFrom
      ((options.expand (Property.canonicalName key) literal).1.map (authoredLonghand key))
      (options.normalizeLiteral (Property.canonicalName key) literal).declarations := by
  simp only [normalizeLiteral, List.forall₂_map_left_iff, List.forall₂_map_right_iff]
  apply List.forall₂_same.mpr
  intro pair _
  have isRead := Authored.isReadFrom_directed logical pair.1 [pair.2.canonical pair.1]
  unfold authoredLonghand
  split
  · rename_i same
    rw [same] at isRead ⊢
    exact isRead.of_canonicalName
  · exact isRead

/-- With logical properties, every declaration of a key is read on left-to-right pages as it was
written, value by value. On right-to-left pages a value is read as it was written exactly if it is
not an end of the line next to a side, which it can be in a chain only. -/
theorem normalize_keeps_sides
    {options : Options}
    (logical : options.logicalProperties = true)
    {key : String}
    {value : Value}
    {normalized : Normalized}
    (success : options.normalize key value = .ok normalized)
    (noReferences : ∀ items, value = .chain items →
      ∀ authored ∈ options.authored key value, ∀ entry ∈ authored.values,
        Chain.isVariable entry = false) :
    List.Forall₂ Authored.IsReadFrom (options.authored key value) normalized.declarations ∧
      ((∀ items, value ≠ .chain items) →
        ∀ authored ∈ options.authored key value, ∀ entry ∈ authored.values,
          ¬ authored.Freezes entry) := by
  refine ⟨?_, not_freezes_of_literal options key value⟩
  unfold normalize at success
  cases value with
  | number magnitude =>
      rw [← Except.ok.inj success]
      exact forall₂_isReadFrom_normalizeLiteral logical key (.number magnitude)
  | text written =>
      rw [← Except.ok.inj success]
      exact forall₂_isReadFrom_normalizeLiteral logical key (.text written)
  | chain items =>
      obtain ⟨chained, normalizedChain, rfl⟩ := Success.map_eq_ok_iff.mp success
      unfold normalizeChain at normalizedChain
      by_cases empty : items.isEmpty
      · simp [empty, bind, Except.bind] at normalizedChain
      · simp only [empty, Bool.false_eq_true, if_false,
          Success.bind_eq_ok_iff] at normalizedChain
        obtain ⟨literals, readLiterals, values, composed, equal⟩ := normalizedChain
        have written :
            options.authored key (.chain items) =
              [⟨Property.dashed key,
                literals.map (·.canonical (Property.canonicalName key))⟩] := by
          rw [authored, filterMap_literal?_of_chainLiterals readLiterals]
        -- Folding references would change the number of values; without any, they stay in place.
        have plain := noReferences items rfl _ (written ▸ List.mem_singleton_self _)
        rw [Chain.compose_of_no_variables plain, Except.ok.injEq] at composed
        rw [written, ← Except.ok.inj equal, ← composed]
        apply List.Forall₂.cons _ List.Forall₂.nil
        exact (Authored.isReadFrom_directed logical _ _).of_canonicalName
  | null => cases success
  | dynamic reference => cases success
  | keyframes frames => cases success
  | object entries => cases success

/-- In a chain with the left side and the start of the line, the start of the line is at the left on
right-to-left pages too. -/
theorem left_then_start_freezes :
    let value : Value := .chain [.text "left", .text "start"]
    let authored : Authored := ⟨"text-align", ["left", "start"]⟩
    let declaration : Declaration := ⟨"text-align", ["start", "start"], true⟩
    Options.default.logicalProperties = true ∧
      Options.default.normalize "textAlign" value = .ok ⟨[declaration], []⟩ ∧
      Options.default.authored "textAlign" value = [authored] ∧
      declaration.mirrored? = some ⟨"text-align", ["end", "end"], true⟩ ∧
      physicalReading .rtl "text-align" "end" = physicalReading .rtl "text-align" "left" ∧
      physicalReading .rtl "text-align" "end" ≠ physicalReading .rtl "text-align" "start" := by
  intro value authored declaration
  have normal :
      Options.default.normalize "textAlign" value = .ok ⟨[declaration], []⟩ := by
    decide +kernel
  have written : Options.default.authored "textAlign" value = [authored] := by
    decide +kernel
  have noReferences : ∀ items, value = .chain items →
      ∀ shown ∈ Options.default.authored "textAlign" value, ∀ entry ∈ shown.values,
        Chain.isVariable entry = false := by
    intro items _
    rw [written]
    decide +kernel
  have mirrored :
      declaration.mirrored? = some ⟨"text-align", ["end", "end"], true⟩ := by
    decide +kernel
  have isRead := (normalize_keeps_sides rfl normal noReferences).1
  rw [written] at isRead
  have turned := (List.forall₂_cons.mp isRead).1.rtl
  simp only [Declaration.toward, mirrored, Option.getD_some] at turned
  obtain ⟨leftTurns, rest⟩ := List.forall₂_cons.mp turned
  obtain ⟨startTurns, -⟩ := List.forall₂_cons.mp rest
  have startFrozen : authored.Freezes "start" :=
    ⟨⟨"left", by decide, .left, by decide⟩, .lineStart, by decide, rfl⟩
  have leftFree : ¬ authored.Freezes "left" := by
    rintro ⟨-, place, found, follows⟩
    obtain rfl : .fixed .left = place := Option.some.inj found
    cases follows
  refine ⟨rfl, normal, written, mirrored, leftTurns.kept.mpr leftFree, ?_⟩
  intro same
  exact startTurns.kept.mp same startFrozen

end Options

end AtomicCss
