import AtomicCss.Proofs.Keyed
import AtomicCss.Property.Direction
import AtomicCss.Property.Name
import AtomicCss.Sheet.Artifact
import Mathlib.Tactic.SplitIfs

/-!
Contract: the side of a page that a property or a keyword stands for.

Owns:
- the names of properties at the two sides of a page and at the two ends of a line;
- the physical reading of properties and keywords in a writing direction;
- the agreement of the tables of older names, logical counterparts and mirrored names with that
  reading.

Does not own: which declarations are mapped and mirrored.
-/

namespace AtomicCss

/-! ## Sides -/

inductive Side where
  | left
  | right
deriving DecidableEq, Repr

def Side.word : Side → String
  | .left => "left"
  | .right => "right"

/-- What a name points to: a side whatever the writing direction, or an end of the line. -/
inductive Place where
  | fixed (side : Side)
  | lineStart
  | lineEnd
deriving DecidableEq, Repr

def Place.side : Place → Direction → Side
  | .fixed side, _ => side
  | .lineStart, .ltr => .left
  | .lineStart, .rtl => .right
  | .lineEnd, .ltr => .right
  | .lineEnd, .rtl => .left

/-! ## Properties -/

structure SidedProperty where
  left : String
  right : String
  start : String
  finish : String
  /-- Names for the ends of the line from before there were standard ones. -/
  older : List (String × Place)
deriving DecidableEq, Repr

/-- The properties with two sides, in the order of the table of logical counterparts. -/
def sidedProperties : List SidedProperty :=
  [⟨"left", "right", "inset-inline-start", "inset-inline-end",
      [("start", .lineStart), ("end", .lineEnd)]⟩,
    ⟨"margin-left", "margin-right", "margin-inline-start", "margin-inline-end",
      [("margin-start", .lineStart), ("margin-end", .lineEnd)]⟩,
    ⟨"padding-left", "padding-right", "padding-inline-start", "padding-inline-end",
      [("padding-start", .lineStart), ("padding-end", .lineEnd)]⟩,
    ⟨"border-left", "border-right", "border-inline-start", "border-inline-end",
      [("border-start", .lineStart), ("border-end", .lineEnd)]⟩,
    ⟨"border-left-width", "border-right-width",
      "border-inline-start-width", "border-inline-end-width",
      [("border-start-width", .lineStart), ("border-end-width", .lineEnd)]⟩,
    ⟨"border-left-style", "border-right-style",
      "border-inline-start-style", "border-inline-end-style",
      [("border-start-style", .lineStart), ("border-end-style", .lineEnd)]⟩,
    ⟨"border-left-color", "border-right-color",
      "border-inline-start-color", "border-inline-end-color",
      [("border-start-color", .lineStart), ("border-end-color", .lineEnd)]⟩,
    ⟨"scroll-margin-left", "scroll-margin-right",
      "scroll-margin-inline-start", "scroll-margin-inline-end", []⟩,
    ⟨"scroll-padding-left", "scroll-padding-right",
      "scroll-padding-inline-start", "scroll-padding-inline-end", []⟩,
    ⟨"border-top-left-radius", "border-top-right-radius",
      "border-start-start-radius", "border-start-end-radius",
      [("border-top-start-radius", .lineStart), ("border-top-end-radius", .lineEnd)]⟩,
    ⟨"border-bottom-left-radius", "border-bottom-right-radius",
      "border-end-start-radius", "border-end-end-radius",
      [("border-bottom-start-radius", .lineStart), ("border-bottom-end-radius", .lineEnd)]⟩]

/-- Older names of properties along an axis, which do not depend on the writing direction. -/
def olderAxes : List (String × String) :=
  [("margin-horizontal", "margin-inline"), ("margin-vertical", "margin-block"),
    ("padding-horizontal", "padding-inline"), ("padding-vertical", "padding-block"),
    ("border-horizontal", "border-inline"), ("border-vertical", "border-block")]

/-- A name and the physical property that it stands for in each writing direction. -/
structure NamedReading where
  name : String
  physical : Direction → String

namespace SidedProperty

def onSide (sided : SidedProperty) : Side → String
  | .left => sided.left
  | .right => sided.right

def places (sided : SidedProperty) : List (String × Place) :=
  [(sided.left, .fixed .left), (sided.right, .fixed .right), (sided.start, .lineStart),
    (sided.finish, .lineEnd)] ++ sided.older

def reading (sided : SidedProperty) (named : String × Place) : NamedReading :=
  ⟨named.1, fun direction => sided.onSide (named.2.side direction)⟩

end SidedProperty

def readings : List NamedReading :=
  (sidedProperties.flatMap fun sided => sided.places.map sided.reading) ++
    olderAxes.flatMap fun pair => [⟨pair.1, fun _ => pair.2⟩, ⟨pair.2, fun _ => pair.2⟩]

def physicalName (direction : Direction) (name : String) : String :=
  match Keyed.lookup NamedReading.name readings name with
  | some reading => reading.physical direction
  | none => name

private theorem distinct_readings : Keyed.Distinct NamedReading.name readings := by
  unfold Keyed.Distinct
  decide +kernel

private theorem physicalName_of_mem
    {reading : NamedReading}
    (member : reading ∈ readings)
    (direction : Direction) :
    physicalName direction reading.name = reading.physical direction := by
  unfold physicalName
  rw [distinct_readings.lookup_eq_some_iff.mpr ⟨member, rfl⟩]

theorem SidedProperty.mem_readings_of_mem_places
    {sided : SidedProperty}
    (member : sided ∈ sidedProperties)
    {named : String × Place}
    (placed : named ∈ sided.places) :
    sided.reading named ∈ readings := by
  apply List.mem_append_left
  exact List.mem_flatMap.mpr ⟨sided, member, List.mem_map_of_mem placed⟩

/-! ## Keywords -/

/-- The keywords of a property for the start and the end of the line, if it takes such keywords. -/
def lineEnds? (property : String) : Option (String × String) :=
  if property = "text-align" then some ("start", "end")
  else if property = "float" ∨ property = "clear" then some ("inline-start", "inline-end")
  else none

def keywordPlace? (property value : String) : Option Place :=
  match lineEnds? property with
  | none => none
  | some (start, finish) =>
    if value = "left" then some (.fixed .left)
    else if value = "right" then some (.fixed .right)
    else if value = start then some .lineStart
    else if value = finish then some .lineEnd
    else none

/-- The physical keyword that a keyword stands for; any other value as it is. -/
def physicalKeyword (direction : Direction) (property value : String) : String :=
  match keywordPlace? property value with
  | some place => (place.side direction).word
  | none => value

/-- A property and a value as they are read on a page of a writing direction. -/
def physicalReading (direction : Direction) (property value : String) : String × String :=
  (physicalName direction property, physicalKeyword direction property value)

theorem physicalKeyword_of_place
    {property value : String}
    {place : Place}
    (found : keywordPlace? property value = some place)
    (direction : Direction) :
    physicalKeyword direction property value = (place.side direction).word := by
  simp only [physicalKeyword, found]

private theorem physicalKeyword_of_no_place
    {property value : String}
    (found : keywordPlace? property value = none)
    (direction : Direction) :
    physicalKeyword direction property value = value := by
  simp only [physicalKeyword, found]

theorem logicalKeyword?_of_no_lineEnds
    {property : String}
    (untaken : lineEnds? property = none)
    (value : String) :
    Property.logicalKeyword? property value = none := by
  unfold lineEnds? at untaken
  unfold Property.logicalKeyword? Property.isFloating
  split_ifs at untaken with aligned floating
  simp [aligned, floating]

theorem mirrorKeyword_of_no_lineEnds
    {property : String}
    (untaken : lineEnds? property = none)
    (value : String) :
    Property.mirrorKeyword property value = value := by
  unfold lineEnds? at untaken
  unfold Property.mirrorKeyword Property.isFloating
  split_ifs at untaken with aligned floating
  simp [aligned, floating]

section LineEnds

variable {property start finish : String} (taken : lineEnds? property = some (start, finish))
include taken

private theorem lineEnds_ne :
    start ≠ "left" ∧ start ≠ "right" ∧ finish ≠ "left" ∧ finish ≠ "right" ∧ finish ≠ start := by
  unfold lineEnds? at taken
  split_ifs at taken
  · obtain ⟨rfl, rfl⟩ := Prod.mk.inj (Option.some.inj taken)
    decide
  · obtain ⟨rfl, rfl⟩ := Prod.mk.inj (Option.some.inj taken)
    decide

theorem logicalKeyword?_eq
    (value : String) :
    Property.logicalKeyword? property value =
      if value = "left" then some start else if value = "right" then some finish else none := by
  unfold lineEnds? at taken
  unfold Property.logicalKeyword? Property.isFloating
  split_ifs at taken with aligned floating
  · obtain ⟨rfl, rfl⟩ := Prod.mk.inj (Option.some.inj taken)
    simp [aligned]
  · obtain ⟨rfl, rfl⟩ := Prod.mk.inj (Option.some.inj taken)
    simp [aligned, floating]

theorem mirrorKeyword_eq
    (value : String) :
    Property.mirrorKeyword property value =
      if value = start then finish else if value = finish then start else value := by
  unfold lineEnds? at taken
  unfold Property.mirrorKeyword Property.isFloating
  split_ifs at taken with aligned floating
  · obtain ⟨rfl, rfl⟩ := Prod.mk.inj (Option.some.inj taken)
    simp [aligned]
  · obtain ⟨rfl, rfl⟩ := Prod.mk.inj (Option.some.inj taken)
    simp [aligned, floating]

theorem mirror_of_lineEnds? : Property.mirror property = property := by
  unfold lineEnds? at taken
  split_ifs at taken with aligned floating
  · rw [aligned]
    decide
  · rcases floating with named | named
    · rw [named]
      decide
    · rw [named]
      decide

theorem keywordPlace?_start : keywordPlace? property start = some .lineStart := by
  obtain ⟨notLeft, notRight, -⟩ := lineEnds_ne taken
  simp only [keywordPlace?, taken, if_neg notLeft, if_neg notRight, if_true]

theorem keywordPlace?_finish : keywordPlace? property finish = some .lineEnd := by
  obtain ⟨-, -, notLeft, notRight, notStart⟩ := lineEnds_ne taken
  simp only [keywordPlace?, taken, if_neg notLeft, if_neg notRight, if_neg notStart, if_true]

/-- The five kinds of values, each with what it is mapped to and mirrored into. -/
theorem keyword_cases
    (value : String) :
    (keywordPlace? property value = some (.fixed .left) ∧
        Property.logicalKeyword? property value = some start) ∨
      (keywordPlace? property value = some (.fixed .right) ∧
        Property.logicalKeyword? property value = some finish) ∨
      (keywordPlace? property value = some .lineStart ∧ value = start ∧
        Property.logicalKeyword? property value = none) ∨
      (keywordPlace? property value = some .lineEnd ∧ value = finish ∧
        Property.logicalKeyword? property value = none) ∨
      (keywordPlace? property value = none ∧
        Property.logicalKeyword? property value = none ∧
        Property.mirrorKeyword property value = value) := by
  rw [logicalKeyword?_eq taken, mirrorKeyword_eq taken]
  simp only [keywordPlace?, taken]
  by_cases left : value = "left"
  · simp [left]
  · by_cases right : value = "right"
    · simp [right]
    · by_cases atStart : value = start
      · subst atStart
        simp [left, right]
      · by_cases atFinish : value = finish
        · subst atFinish
          simp [left, right, atStart]
        · simp [left, right, atStart, atFinish]

theorem mirrorKeyword_start : Property.mirrorKeyword property start = finish := by
  rw [mirrorKeyword_eq taken, if_pos rfl]

theorem mirrorKeyword_finish : Property.mirrorKeyword property finish = start := by
  obtain ⟨-, -, -, -, notStart⟩ := lineEnds_ne taken
  rw [mirrorKeyword_eq taken, if_neg notStart, if_pos rfl]

end LineEnds

def Place.followsLine : Place → Bool
  | .fixed _ => false
  | .lineStart => true
  | .lineEnd => true

/-- Mapping keywords to logical ones does not show on left-to-right pages. -/
theorem physicalKeyword_ltr_logicalKeyword?
    (property value : String) :
    physicalKeyword .ltr property ((Property.logicalKeyword? property value).getD value) =
      physicalKeyword .ltr property value := by
  cases taken : lineEnds? property with
  | none => rw [logicalKeyword?_of_no_lineEnds taken, Option.getD_none]
  | some ends =>
      obtain ⟨start, finish⟩ := ends
      rcases keyword_cases taken value with ⟨place, mapped⟩ | ⟨place, mapped⟩ | ⟨-, -, mapped⟩ |
        ⟨-, -, mapped⟩ | ⟨-, mapped, -⟩
      · rw [mapped, physicalKeyword_of_place place, Option.getD_some,
          physicalKeyword_of_place (keywordPlace?_start taken)]
        rfl
      · rw [mapped, physicalKeyword_of_place place, Option.getD_some,
          physicalKeyword_of_place (keywordPlace?_finish taken)]
        rfl
      · rw [mapped, Option.getD_none]
      · rw [mapped, Option.getD_none]
      · rw [mapped, Option.getD_none]

/-- A keyword that is mapped to a logical one and mirrored keeps a side on right-to-left pages. One
that was logical is read there as on left-to-right pages. -/
theorem physicalKeyword_rtl_mirrorKeyword
    (property value : String) :
    physicalKeyword .rtl property
        (Property.mirrorKeyword property
          ((Property.logicalKeyword? property value).getD value)) =
      physicalKeyword
        (if (keywordPlace? property value).any Place.followsLine then .ltr else .rtl)
        property value := by
  cases taken : lineEnds? property with
  | none =>
      have noPlace : keywordPlace? property value = none := by simp only [keywordPlace?, taken]
      rw [logicalKeyword?_of_no_lineEnds taken, Option.getD_none,
        mirrorKeyword_of_no_lineEnds taken, noPlace]
      rfl
  | some ends =>
      obtain ⟨start, finish⟩ := ends
      have atStart := physicalKeyword_of_place (keywordPlace?_start taken)
      have atFinish := physicalKeyword_of_place (keywordPlace?_finish taken)
      rcases keyword_cases taken value with ⟨place, mapped⟩ | ⟨place, mapped⟩ |
        ⟨place, same, mapped⟩ | ⟨place, same, mapped⟩ | ⟨place, mapped, kept⟩
      · rw [mapped, Option.getD_some, mirrorKeyword_start taken, atFinish,
          physicalKeyword_of_place place]
        rfl
      · rw [mapped, Option.getD_some, mirrorKeyword_finish taken, atStart,
          physicalKeyword_of_place place]
        rfl
      · rw [mapped, Option.getD_none, physicalKeyword_of_place place, place, same,
          mirrorKeyword_start taken, atFinish]
        rfl
      · rw [mapped, Option.getD_none, physicalKeyword_of_place place, place, same,
          mirrorKeyword_finish taken, atStart]
        rfl
      · rw [mapped, Option.getD_none, kept, physicalKeyword_of_no_place place,
          physicalKeyword_of_no_place place]

/-! ## Tables of properties -/

theorem mem_of_table_lookup
    {α : Type}
    {table : List (String × α)}
    {name : String}
    {counterpart : α}
    (found : table.lookup name = some counterpart) :
    (name, counterpart) ∈ table := by
  obtain ⟨before, after, split, -⟩ := List.lookup_eq_some_iff.mp found
  rw [split]
  exact List.mem_append_right before List.mem_cons_self

theorem lineEnds?_of_mem_readings :
    ∀ reading ∈ readings, lineEnds? reading.name = none := by
  decide

theorem physicalReading_of_mem
    {reading : NamedReading}
    (member : reading ∈ readings)
    (direction : Direction)
    (value : String) :
    physicalReading direction reading.name value = (reading.physical direction, value) := by
  have noPlace : keywordPlace? reading.name value = none := by
    simp only [keywordPlace?, lineEnds?_of_mem_readings reading member]
  rw [physicalReading, physicalName_of_mem member, physicalKeyword_of_no_place noPlace]

/-- The properties that take such keywords have no sides themselves. -/
theorem physicalName_of_lineEnds?
    {property : String}
    {ends : String × String}
    (taken : lineEnds? property = some ends)
    (direction : Direction) :
    physicalName direction property = property := by
  unfold physicalName
  cases found : Keyed.lookup NamedReading.name readings property with
  | none => rfl
  | some reading =>
      have untaken := lineEnds?_of_mem_readings reading (Keyed.mem_of_lookup found)
      rw [Keyed.key_of_lookup found, taken] at untaken
      cases untaken

private theorem logicalNames_eq :
    Property.logicalNames =
      sidedProperties.flatMap fun sided =>
        [(sided.left, sided.start), (sided.right, sided.finish)] :=
  rfl

theorem SidedProperty.mirror_eq :
    ∀ sided ∈ sidedProperties,
      Property.mirror sided.start = sided.finish ∧ Property.mirror sided.finish = sided.start := by
  decide +kernel

theorem SidedProperty.exists_of_logical?
    {name counterpart : String}
    (found : Property.logical? name = some counterpart) :
    ∃ sided ∈ sidedProperties,
      (name = sided.left ∧ counterpart = sided.start) ∨
        (name = sided.right ∧ counterpart = sided.finish) := by
  have listed := mem_of_table_lookup found
  rw [logicalNames_eq] at listed
  obtain ⟨sided, member, pair⟩ := List.mem_flatMap.mp listed
  simp only [List.mem_cons, List.not_mem_nil, or_false, Prod.mk.injEq] at pair
  exact ⟨sided, member, pair⟩

/-- The logical counterpart has the same reading on left-to-right pages, and its mirror image on
right-to-left pages. -/
theorem exists_readings_of_logical?
    {name counterpart : String}
    (found : Property.logical? name = some counterpart) :
    ∃ physical ∈ readings, ∃ logical ∈ readings, ∃ mirrored ∈ readings,
      physical.name = name ∧ logical.name = counterpart ∧
        mirrored.name = Property.mirror counterpart ∧
        logical.physical .ltr = physical.physical .ltr ∧
        mirrored.physical .rtl = physical.physical .rtl := by
  obtain ⟨sided, member, pair⟩ := SidedProperty.exists_of_logical? found
  obtain ⟨startTurned, finishTurned⟩ := SidedProperty.mirror_eq sided member
  have read (named : String × Place) (placed : named ∈ sided.places) :=
    SidedProperty.mem_readings_of_mem_places member placed
  have left := read (sided.left, .fixed .left) (by simp [SidedProperty.places])
  have right := read (sided.right, .fixed .right) (by simp [SidedProperty.places])
  have start := read (sided.start, .lineStart) (by simp [SidedProperty.places])
  have finish := read (sided.finish, .lineEnd) (by simp [SidedProperty.places])
  -- The start of the line is on the left; in the other direction the end, its mirror image, is.
  rcases pair with ⟨rfl, rfl⟩ | ⟨rfl, rfl⟩
  · exact ⟨_, left, _, start, _, finish, rfl, rfl, startTurned.symm, rfl, rfl⟩
  · exact ⟨_, right, _, finish, _, start, rfl, rfl, finishTurned.symm, rfl, rfl⟩

def SidedProperty.olderNames (sided : SidedProperty) : List (String × String) :=
  sided.older.map fun named =>
    (named.1, if named.2 = .lineStart then sided.start else sided.finish)

private theorem mem_older_of_alias? :
    ∀ pair ∈ Property.aliases,
      pair ∈ sidedProperties.flatMap SidedProperty.olderNames ++ olderAxes := by
  decide

private theorem SidedProperty.older_along_line :
    ∀ sided ∈ sidedProperties, ∀ named ∈ sided.older,
      named.2 = .lineStart ∨ named.2 = .lineEnd := by
  decide

/-- An older name has the reading of the present one. -/
theorem exists_readings_of_alias?
    {name counterpart : String}
    (found : Property.alias? name = some counterpart) :
    ∃ older ∈ readings, ∃ present ∈ readings,
      older.name = name ∧ present.name = counterpart ∧ older.physical = present.physical := by
  have listed := mem_of_table_lookup found
  rcases List.mem_append.mp (mem_older_of_alias? _ listed) with sidedName | axis
  · obtain ⟨sided, member, renamed⟩ := List.mem_flatMap.mp sidedName
    obtain ⟨⟨older, place⟩, inOlder, equal⟩ := List.mem_map.mp renamed
    obtain ⟨rfl, rfl⟩ := Prod.mk.inj equal
    have read (named : String × Place) (placed : named ∈ sided.places) :=
      SidedProperty.mem_readings_of_mem_places member placed
    have olderRead := read (older, place) (List.mem_append_right _ inOlder)
    rcases SidedProperty.older_along_line sided member _ inOlder with along | along
    · obtain rfl : place = .lineStart := along
      have start := read (sided.start, .lineStart) (by simp [SidedProperty.places])
      exact ⟨_, olderRead, _, start, rfl, rfl, rfl⟩
    · obtain rfl : place = .lineEnd := along
      have finish := read (sided.finish, .lineEnd) (by simp [SidedProperty.places])
      exact ⟨_, olderRead, _, finish, rfl, rfl, rfl⟩
  · have read (reading : NamedReading)
        (inAxis : reading ∈
          [(⟨name, fun _ => counterpart⟩ : NamedReading), ⟨counterpart, fun _ => counterpart⟩]) :
        reading ∈ readings :=
      List.mem_append_right _ (List.mem_flatMap.mpr ⟨(name, counterpart), axis, inAxis⟩)
    exact ⟨_, read _ List.mem_cons_self, _, read _ (List.mem_cons_of_mem _ List.mem_cons_self),
      rfl, rfl, rfl⟩

end AtomicCss
