import AtomicCss.Proofs.Declaration.Normalization
import AtomicCss.Proofs.Property.Sides

/-!
Contract: properties that are declared under the name they are written with.

Owns:
- properties that no table of shorthands, sides or keywords knows, and their declarations;
- custom properties, which are such properties;
- no other property turns into a custom one, on a page of either direction.

Does not own: the spelling of the values.
-/

namespace AtomicCss

namespace Property

/-- A property that is neither split nor turned along the writing direction. -/
structure StaysItself (name : String) : Prop where
  unsplit : Shorthand.ofName? name = none
  unturned : logical? name = none
  wordless : ∀ value, logicalKeyword? name value = none

def isCustom (name : String) : Bool :=
  Text.startsWith "--" name

theorem staysItself_animationName : StaysItself "animation-name" :=
  ⟨by decide +kernel, by decide +kernel, fun _ => rfl⟩

private theorem not_isCustom_of_mem_readings
    {named : NamedReading}
    (member : named ∈ readings) :
    isCustom named.name = false := by
  have tested : readings.all fun other => !isCustom other.name := by decide +kernel
  simpa using List.all_eq_true.mp tested named member

/-- What is turned along the writing direction has no dashes in front, and has none afterwards. -/
theorem not_isCustom_of_logical?
    {name logical : String}
    (found : logical? name = some logical) :
    isCustom name = false ∧ isCustom logical = false ∧ isCustom (mirror logical) = false := by
  obtain ⟨physical, physicalRead, turned, turnedRead, mirrored, mirroredRead, rfl, rfl,
    sameName, -⟩ := exists_readings_of_logical? found
  rw [← sameName]
  exact ⟨not_isCustom_of_mem_readings physicalRead, not_isCustom_of_mem_readings turnedRead,
    not_isCustom_of_mem_readings mirroredRead⟩

private theorem not_isCustom_of_ofName?
    {name : String}
    {shorthand : Shorthand}
    (found : Shorthand.ofName? name = some shorthand) :
    isCustom name = false ∧ ∀ longhand ∈ shorthand.longhands, isCustom longhand = false := by
  have tested :
      Shorthand.table.all fun entry =>
        !isCustom entry.1 && entry.2.longhands.all fun longhand => !isCustom longhand := by
    decide +kernel
  simpa using List.all_eq_true.mp tested _ (mem_of_table_lookup found)

theorem StaysItself.of_isCustom
    {name : String}
    (custom : isCustom name = true) :
    StaysItself name := by
  have unlike {plain : Prop} (excluded : isCustom name = false ∧ plain) : False := by
    rw [custom] at excluded
    cases excluded.1
  refine ⟨?_, ?_, ?_⟩
  · cases found : Shorthand.ofName? name with
    | none => rfl
    | some shorthand => exact (unlike (not_isCustom_of_ofName? found)).elim
  · cases found : logical? name with
    | none => rfl
    | some logical => exact (unlike (not_isCustom_of_logical? found)).elim
  · apply logicalKeyword?_of_no_lineEnds
    have other (listed : String) (plain : isCustom listed = false) : name ≠ listed := by
      intro equal
      exact unlike ⟨equal ▸ plain, trivial⟩
    simp [lineEnds?, other "text-align" (by decide), other "float" (by decide),
      other "clear" (by decide)]

end Property

/-- The properties that the rule of a declaration sets, on pages of either direction. -/
def Declaration.properties (declaration : Declaration) : List String :=
  declaration.property :: (declaration.mirrored?.map (·.property)).toList

namespace Options

open AtomicCss.Property

variable (options : Options)

/-! ## Properties that stay themselves -/

theorem logical?_of_unturned
    {name : String}
    (unturned : Property.logical? name = none) :
    options.logical? name = none := by
  simp [logical?, unturned]

theorem directed_of_staysItself
    {name : String}
    (stays : StaysItself name)
    (values : List String) :
    options.directed name values = ⟨name, values, false⟩ := by
  have wordless (value : String) : options.logicalKeyword? name value = none := by
    simp [logicalKeyword?, stays.wordless value]
  simp [directed, options.logical?_of_unturned stays.unturned, wordless]

theorem resolveProperty_of_staysItself
    {key : String}
    (stays : StaysItself (canonicalName key)) :
    (options.resolveProperty key).name = canonicalName key := by
  simp [resolveProperty, options.logical?_of_unturned stays.unturned]

theorem normalizeLiteral_of_staysItself
    {name : String}
    (stays : StaysItself name)
    (literal : Literal) :
    (options.normalizeLiteral name literal).declarations =
      [⟨name, [literal.canonical name], false⟩] := by
  have whole : options.expand name literal = ([(name, literal)], []) := by
    simp [expand, stays.unsplit]
  simp [normalizeLiteral, whole, options.directed_of_staysItself stays]

/-! ## Properties that are not custom -/

theorem not_isCustom_directed
    {name : String}
    (plain : isCustom name = false)
    (values : List String) :
    ∀ shown ∈ (options.directed name values).properties, isCustom shown = false := by
  unfold directed
  split
  · rename_i logical found
    have turned : Property.logical? name = some logical := by
      unfold logical? at found
      split at found
      · exact found
      · cases found
    simpa [Declaration.properties, Declaration.mirrored?] using (not_isCustom_of_logical? turned).2
  · -- A property that takes keywords is its own mirror image.
    cases taken : lineEnds? name with
    | some sides =>
        have sameName : mirror name = name := mirror_of_lineEnds? taken
        intro shown member
        have equal : shown = name := by
          simp only [Declaration.properties, Declaration.mirrored?, sameName] at member
          split at member
          · simpa using member
          · simpa using member
        rw [equal]
        exact plain
    | none =>
        have wordless (value : String) : options.logicalKeyword? name value = none := by
          simp [logicalKeyword?, logicalKeyword?_of_no_lineEnds taken value]
        simpa [Declaration.properties, Declaration.mirrored?, wordless] using plain

/-- What is distributed goes to the longhands in order. -/
theorem map_fst_distribute
    {α : Type}
    {shorthand : Shorthand}
    {values : List α}
    {pairs : List (String × α)}
    (distributed : shorthand.distribute values = some pairs) :
    pairs.map Prod.fst = shorthand.longhands := by
  fun_cases Shorthand.distribute shorthand values
  all_goals simp only [Shorthand.distribute, reduceCtorEq, Option.some.injEq] at distributed
  all_goals
    rw [← distributed]
    rfl

private theorem not_isCustom_expand
    {name : String}
    (plain : isCustom name = false)
    (literal : Literal) :
    ∀ pair ∈ (options.expand name literal).1, isCustom pair.1 = false := by
  unfold expand
  split
  · simpa using plain
  · rename_i shorthand found
    have listed : Shorthand.ofName? name = some shorthand := by
      split at found
      · exact found
      · cases found
    have plainLonghands := (not_isCustom_of_ofName? listed).2
    cases literal with
    | number _ => simpa using plainLonghands
    | text written =>
        -- A text that cannot be distributed stays with the shorthand itself.
        unfold expandText
        simp only
        split
        · simpa using plain
        · split
          · rename_i distributed
            intro pair member
            obtain ⟨place, listedPlace, rfl⟩ := List.mem_map.mp member
            apply plainLonghands
            rw [← map_fst_distribute distributed]
            exact List.mem_map_of_mem listedPlace
          · simpa using plain

theorem not_isCustom_normalizeLiteral
    {name : String}
    (plain : isCustom name = false)
    (literal : Literal) :
    ∀ shown ∈ (options.normalizeLiteral name literal).declarations.flatMap Declaration.properties,
      isCustom shown = false := by
  intro shown member
  obtain ⟨declaration, declared, within⟩ := List.mem_flatMap.mp member
  obtain ⟨pair, expanded, rfl⟩ := List.mem_map.mp declared
  exact options.not_isCustom_directed (options.not_isCustom_expand plain literal pair expanded) _
    shown within

end Options

end AtomicCss
