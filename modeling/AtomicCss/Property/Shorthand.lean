/-!
Contract: shorthands that are split into longhands.

Owns:
- the shorthands with a fixed list of longhands;
- which value each longhand takes from one to four written ones.

Does not own: shorthands whose values need a grammar, which stay whole.
-/

namespace AtomicCss

/-- How a shorthand gives its values to longhands. -/
inductive Shorthand where
  /-- Four sides clockwise from the top, or four corners clockwise from the top left. -/
  | box (top right bottom left : String)
  /-- The start and the end of an axis, or a row and a column. -/
  | axis (first second : String)
deriving DecidableEq, Repr

namespace Shorthand

universe u

def longhands : Shorthand → List String
  | .box top right bottom left => [top, right, bottom, left]
  | .axis first second => [first, second]

def limit (shorthand : Shorthand) : Nat :=
  shorthand.longhands.length

/-- Each longhand with its value, if the number of values fits. A side without a value of its own
takes that of the opposite side, and failing that the first. -/
def distribute {α : Type u} : Shorthand → List α → Option (List (String × α))
  | .box top right bottom left, [all] =>
    some [(top, all), (right, all), (bottom, all), (left, all)]
  | .box top right bottom left, [vertical, horizontal] =>
    some [(top, vertical), (right, horizontal), (bottom, vertical), (left, horizontal)]
  | .box top right bottom left, [upper, horizontal, lower] =>
    some [(top, upper), (right, horizontal), (bottom, lower), (left, horizontal)]
  | .box top right bottom left, [first, second, third, fourth] =>
    some [(top, first), (right, second), (bottom, third), (left, fourth)]
  | .axis first second, [all] => some [(first, all), (second, all)]
  | .axis first second, [one, two] => some [(first, one), (second, two)]
  | _, _ => none

def table : List (String × Shorthand) :=
  [("margin", .box "margin-top" "margin-right" "margin-bottom" "margin-left"),
    ("padding", .box "padding-top" "padding-right" "padding-bottom" "padding-left"),
    ("inset", .box "top" "right" "bottom" "left"),
    ("border-width", .box "border-top-width" "border-right-width"
      "border-bottom-width" "border-left-width"),
    ("border-style", .box "border-top-style" "border-right-style"
      "border-bottom-style" "border-left-style"),
    ("border-color", .box "border-top-color" "border-right-color"
      "border-bottom-color" "border-left-color"),
    ("border-radius", .box "border-top-left-radius" "border-top-right-radius"
      "border-bottom-right-radius" "border-bottom-left-radius"),
    ("margin-inline", .axis "margin-inline-start" "margin-inline-end"),
    ("margin-block", .axis "margin-block-start" "margin-block-end"),
    ("padding-inline", .axis "padding-inline-start" "padding-inline-end"),
    ("padding-block", .axis "padding-block-start" "padding-block-end"),
    ("inset-inline", .axis "inset-inline-start" "inset-inline-end"),
    ("inset-block", .axis "inset-block-start" "inset-block-end"),
    ("gap", .axis "row-gap" "column-gap"),
    ("overflow", .axis "overflow-x" "overflow-y")]

def ofName? (name : String) : Option Shorthand :=
  table.lookup name

end Shorthand

end AtomicCss
