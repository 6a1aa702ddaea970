import AtomicCss.Proofs.Declaration.Mirroring
import AtomicCss.Proofs.Declaration.Normalization
import AtomicCss.Proofs.Declaration.Sides
import AtomicCss.Proofs.Text.Apart

/-!
Contract: what mirroring does to declarations in normal form.

Owns:
- which declarations become directional in normal form, and where they get their direction from;
- mirroring such a declaration twice;
- the difference between the texts of such a declaration and its mirror image.

Does not own: names and values outside the normal form, on which mirroring twice can lead elsewhere.
-/

namespace AtomicCss

/-! ## The two ends of a line -/

namespace SidedProperty

private theorem lineEnds?_eq_none :
    ∀ sided ∈ sidedProperties, lineEnds? sided.start = none ∧ lineEnds? sided.finish = none := by
  decide +kernel

private theorem apart_start_finish
    {sided : SidedProperty}
    (member : sided ∈ sidedProperties) :
    Text.Apart sided.start sided.finish := by
  have table :
      ∀ sided ∈ sidedProperties,
        ¬ sided.start.toList <+: sided.finish.toList ∧
          ¬ sided.finish.toList <+: sided.start.toList := by
    decide +kernel
  exact Text.apart_of_not_isPrefix (table sided member).1 (table sided member).2

end SidedProperty

section LineEnds

variable {property start finish : String} (taken : lineEnds? property = some (start, finish))
include taken

private theorem apart_lineEnds : Text.Apart start finish := by
  unfold lineEnds? at taken
  split_ifs at taken
  · obtain ⟨rfl, rfl⟩ := Prod.mk.inj (Option.some.inj taken)
    exact Text.apart_of_not_isPrefix (by decide) (by decide)
  · obtain ⟨rfl, rfl⟩ := Prod.mk.inj (Option.some.inj taken)
    exact Text.apart_of_not_isPrefix (by decide) (by decide)

private theorem mirrorKeyword_of_ne
    {value : String}
    (notStart : value ≠ start)
    (notFinish : value ≠ finish) :
    Property.mirrorKeyword property value = value := by
  rw [mirrorKeyword_eq taken, if_neg notStart, if_neg notFinish]

private theorem mirrorKeyword_mirrorKeyword
    (value : String) :
    Property.mirrorKeyword property (Property.mirrorKeyword property value) = value := by
  by_cases atStart : value = start
  · rw [atStart, mirrorKeyword_start taken, mirrorKeyword_finish taken]
  · by_cases atFinish : value = finish
    · rw [atFinish, mirrorKeyword_finish taken, mirrorKeyword_start taken]
    · rw [mirrorKeyword_of_ne taken atStart atFinish, mirrorKeyword_of_ne taken atStart atFinish]

end LineEnds

/-! ## Sides of a page -/

/-- The property or one of the values names a side of the page, whatever the writing direction. -/
def NamesSide (property : String) (values : List String) : Prop :=
  (∃ sided ∈ sidedProperties, ∃ side, property = sided.onSide side) ∨
    ∃ value ∈ values, ∃ side, keywordPlace? property value = some (.fixed side)

theorem isSome_logical?_iff
    (name : String) :
    (Property.logical? name).isSome = true ↔
      ∃ sided ∈ sidedProperties, ∃ side, name = sided.onSide side := by
  constructor
  · intro mapped
    obtain ⟨logical, found⟩ := Option.isSome_iff_exists.mp mapped
    obtain ⟨sided, member, ⟨onLeft, -⟩ | ⟨onRight, -⟩⟩ := SidedProperty.exists_of_logical? found
    · exact ⟨sided, member, .left, onLeft⟩
    · exact ⟨sided, member, .right, onRight⟩
  · rintro ⟨sided, member, side, rfl⟩
    have table :
        ∀ sided ∈ sidedProperties,
          (Property.logical? sided.left).isSome = true ∧
            (Property.logical? sided.right).isSome = true := by
      decide +kernel
    cases side with
    | left => exact (table sided member).1
    | right => exact (table sided member).2

/-- Declarations become directional where logical properties are wanted and a side was named. -/
theorem Options.directional_directed_iff
    (options : Options)
    (property : String)
    (values : List String) :
    (options.directed property values).directional = true ↔
      options.logicalProperties = true ∧ NamesSide property values := by
  unfold directed logical? logicalKeyword? NamesSide
  cases wanted : options.logicalProperties with
  | false => simp
  | true =>
      simp only [if_true, true_and, ← isSome_logical?_iff,
        ← Authored.isSome_logicalKeyword?_iff]
      cases Property.logical? property with
      | some logical => simp
      | none => simp

namespace Declaration

/-! ## Normal form -/

/-- The declaration is one that the normal form has, with a value. -/
def IsNormal (options : Options) (declaration : Declaration) : Prop :=
  ∃ property values, values ≠ [] ∧ declaration = options.directed property values

/-- What makes a declaration directional: its property is at an end of the line, or one of its
values is a keyword for one. -/
inductive Turns (declaration : Declaration) : Prop
  | property (sided : SidedProperty) (member : sided ∈ sidedProperties)
      (atEnd : declaration.property = sided.start ∨ declaration.property = sided.finish)
  | keyword (start finish : String)
      (taken : lineEnds? declaration.property = some (start, finish))
      (shown : ∃ value ∈ declaration.values, value = start ∨ value = finish)

private theorem turns_of_logical?
    {options : Options}
    {property logical : String}
    (found : options.logical? property = some logical)
    (values : List String) :
    Turns ⟨logical, values, true⟩ := by
  unfold Options.logical? at found
  split at found
  · obtain ⟨sided, member, ⟨-, atStart⟩ | ⟨-, atFinish⟩⟩ := SidedProperty.exists_of_logical? found
    · exact .property sided member (.inl atStart)
    · exact .property sided member (.inr atFinish)
  · cases found

private theorem lineEnd_of_logicalKeyword?
    {options : Options}
    {property value : String}
    (mapped : (options.logicalKeyword? property value).isSome = true) :
    ∃ start finish, lineEnds? property = some (start, finish) ∧
      ((options.logicalKeyword? property value).getD value = start ∨
        (options.logicalKeyword? property value).getD value = finish) := by
  obtain ⟨keyword, found⟩ := Option.isSome_iff_exists.mp mapped
  rw [found, Option.getD_some]
  unfold Options.logicalKeyword? at found
  split at found
  · cases taken : lineEnds? property with
    | none =>
        rw [logicalKeyword?_of_no_lineEnds taken] at found
        cases found
    | some ends =>
        obtain ⟨start, finish⟩ := ends
        refine ⟨start, finish, rfl, ?_⟩
        rw [logicalKeyword?_eq taken] at found
        split_ifs at found
        · exact .inl (Option.some.inj found).symm
        · exact .inr (Option.some.inj found).symm
  · cases found

theorem IsNormal.turns
    {options : Options}
    {declaration : Declaration}
    (normal : declaration.IsNormal options)
    (directional : declaration.directional = true) :
    declaration.Turns := by
  obtain ⟨property, values, -, rfl⟩ := normal
  cases found : options.logical? property with
  | some logical =>
      simp only [Options.directed, found]
      exact turns_of_logical? found values
  | none =>
      simp only [Options.directed, found] at directional ⊢
      obtain ⟨value, member, mapped⟩ := List.any_eq_true.mp directional
      obtain ⟨start, finish, taken, atEnd⟩ := lineEnd_of_logicalKeyword? mapped
      exact .keyword start finish taken ⟨_, List.mem_map_of_mem member, atEnd⟩

theorem IsNormal.values_ne_nil
    {options : Options}
    {declaration : Declaration}
    (normal : declaration.IsNormal options) :
    declaration.values ≠ [] := by
  obtain ⟨property, values, nonempty, rfl⟩ := normal
  exact options.values_directed_ne_nil property nonempty

/-! ## Mirroring twice -/

/-- The name and the values as they are on pages of the opposite writing direction. -/
def reflected (declaration : Declaration) : Declaration :=
  ⟨Property.mirror declaration.property,
    declaration.values.map (Property.mirrorKeyword declaration.property), true⟩

theorem mirrored?_eq_some_reflected
    {declaration : Declaration}
    (directional : declaration.directional = true) :
    declaration.mirrored? = some declaration.reflected := by
  unfold mirrored?
  rw [if_pos directional]
  rfl

theorem toward_rtl_of_directional
    {declaration : Declaration}
    (directional : declaration.directional = true) :
    declaration.toward .rtl = declaration.reflected := by
  simp only [toward, mirrored?_eq_some_reflected directional, Option.getD_some]

theorem toward_rtl_of_not_directional
    {declaration : Declaration}
    (undirected : ¬ declaration.directional = true) :
    declaration.toward .rtl = declaration := by
  simp only [toward, mirrored?, if_neg undirected, Option.getD_none]

private theorem Turns.mirror_mirror
    {declaration : Declaration}
    (turns : declaration.Turns) :
    Property.mirror (Property.mirror declaration.property) = declaration.property := by
  cases turns with
  | property sided member atEnd =>
      obtain ⟨startTurned, finishTurned⟩ := sided.mirror_eq member
      rcases atEnd with atStart | atFinish
      · rw [atStart, startTurned, finishTurned]
      · rw [atFinish, finishTurned, startTurned]
  | keyword start finish taken shown =>
      rw [mirror_of_lineEnds? taken, mirror_of_lineEnds? taken]

private theorem Turns.mirrorKeyword_mirrorKeyword
    {declaration : Declaration}
    (turns : declaration.Turns)
    (value : String) :
    Property.mirrorKeyword (Property.mirror declaration.property)
      (Property.mirrorKeyword declaration.property value) = value := by
  cases turns with
  | property sided member atEnd =>
      obtain ⟨startTurned, finishTurned⟩ := sided.mirror_eq member
      obtain ⟨startPlain, finishPlain⟩ := sided.lineEnds?_eq_none member
      rcases atEnd with atStart | atFinish
      · rw [atStart, startTurned, mirrorKeyword_of_no_lineEnds finishPlain,
          mirrorKeyword_of_no_lineEnds startPlain]
      · rw [atFinish, finishTurned, mirrorKeyword_of_no_lineEnds startPlain,
          mirrorKeyword_of_no_lineEnds finishPlain]
  | keyword start finish taken shown =>
      rw [mirror_of_lineEnds? taken, AtomicCss.mirrorKeyword_mirrorKeyword taken]

/-- Mirroring a directional declaration twice leads back to it. -/
theorem Turns.reflected_reflected
    {declaration : Declaration}
    (turns : declaration.Turns)
    (directional : declaration.directional = true) :
    declaration.reflected.reflected = declaration := by
  have sameValues :
      (declaration.values.map (Property.mirrorKeyword declaration.property)).map
          (Property.mirrorKeyword (Property.mirror declaration.property)) =
        declaration.values := by
    rw [List.map_map]
    exact List.map_id'' turns.mirrorKeyword_mirrorKeyword declaration.values
  unfold reflected
  rw [sameValues, turns.mirror_mirror, ← directional]

/-! ## Texts -/

def line (property value : String) : String :=
  property ++ ":" ++ value ++ ";"

/-- With a semicolon at its end, the text of a declaration has a line for each value. -/
theorem css_append_semicolon
    {declaration : Declaration}
    (nonempty : declaration.values ≠ []) :
    declaration.css ++ ";" =
      Text.concat (declaration.values.map (line declaration.property)) := by
  obtain ⟨property, values, directional⟩ := declaration
  simp only [css]
  induction values with
  | nil => exact absurd rfl nonempty
  | cons value rest inductionHypothesis =>
      cases rest with
      | nil => simp [Text.join, line]
      | cons next others =>
          have restText := inductionHypothesis (List.cons_ne_nil next others)
          rw [List.map_cons (f := line property), Text.concat_cons, ← restText]
          simp only [List.map_cons, Text.join, line, String.append_assoc]

private theorem apart_line_mirror
    {property : String}
    {sided : SidedProperty}
    (member : sided ∈ sidedProperties)
    (atEnd : property = sided.start ∨ property = sided.finish)
    (value other : String) :
    Text.Apart (line property value) (line (Property.mirror property) other) := by
  obtain ⟨startTurned, finishTurned⟩ := sided.mirror_eq member
  have apartNames : Text.Apart property (Property.mirror property) := by
    rcases atEnd with atStart | atFinish
    · rw [atStart, startTurned]
      exact SidedProperty.apart_start_finish member
    · rw [atFinish, finishTurned]
      exact (SidedProperty.apart_start_finish member).symm
  exact ((apartNames.append _ _).append _ _).append _ _

private theorem apart_line_mirrorKeyword
    {property start finish value : String}
    (taken : lineEnds? property = some (start, finish))
    (atEnd : value = start ∨ value = finish) :
    Text.Apart (line property value) (line property (Property.mirrorKeyword property value)) := by
  have apartValues : Text.Apart value (Property.mirrorKeyword property value) := by
    rcases atEnd with rfl | rfl
    · rw [mirrorKeyword_start taken]
      exact apart_lineEnds taken
    · rw [mirrorKeyword_finish taken]
      exact (apart_lineEnds taken).symm
  exact (apartValues.after _).append _ _

/-- The mirror image of a directional declaration differs from it before the text of either ends. -/
theorem Turns.apart_css
    {declaration : Declaration}
    (turns : declaration.Turns)
    (nonempty : declaration.values ≠ []) :
    Text.Apart (declaration.css ++ ";") (declaration.reflected.css ++ ";") := by
  have reflectedNonempty : declaration.reflected.values ≠ [] := by
    simpa [reflected] using nonempty
  rw [css_append_semicolon nonempty, css_append_semicolon reflectedNonempty]
  have reflectedLines :
      declaration.reflected.values.map (line declaration.reflected.property) =
        declaration.values.map fun value =>
          line (Property.mirror declaration.property)
            (Property.mirrorKeyword declaration.property value) :=
    List.map_map
  rw [reflectedLines]
  cases turns with
  | property sided member atEnd =>
      obtain ⟨value, shown⟩ := List.exists_mem_of_ne_nil _ nonempty
      exact Text.apart_concat_map
        (fun _ _ alike => absurd trivial alike)
        (fun value _ _ => apart_line_mirror member atEnd value _)
        ⟨value, shown, trivial⟩
  | keyword start finish taken shown =>
      rw [mirror_of_lineEnds? taken]
      refine Text.apart_concat_map ?_ ?_ shown
      · intro value _ neither
        obtain ⟨notStart, notFinish⟩ := not_or.mp neither
        rw [mirrorKeyword_of_ne taken notStart notFinish]
      · intro value _ atEnd
        exact apart_line_mirrorKeyword taken atEnd

end Declaration

end AtomicCss
