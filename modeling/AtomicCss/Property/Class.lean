import AtomicCss.Text.CodeRange

/-!
Contract: the cascade class of a CSS property.

Owns:
- which properties are shorthands of shorthands, shorthands of longhands, or longhands bound to a
  physical side or axis;
- the priority each class gives a rule.

Does not own: what a context adds to the priority.
-/

namespace AtomicCss

/-- The cascade class of a property. A longhand comes after the shorthands that set it, so that
the more specific declaration wins. -/
inductive PropertyClass where
  | custom
  | shorthandOfShorthands
  | shorthandOfLonghands
  | logicalLonghand
  | physicalLonghand
deriving DecidableEq, Repr

namespace PropertyClass

def shorthandsOfShorthands : List String :=
  ["all", "animation", "background", "border", "border-block", "border-inline", "font", "grid",
    "grid-template", "inset", "margin", "mask", "padding", "scroll-margin", "scroll-padding",
    "text-decoration", "text-emphasis"]

def shorthandsOfLonghands : List String :=
  ["border-color", "border-style", "border-width", "border-radius", "border-image",
    "border-top", "border-right", "border-bottom", "border-left", "border-block-start",
    "border-block-end", "border-inline-start", "border-inline-end", "border-block-color",
    "border-block-style", "border-block-width", "border-inline-color", "border-inline-style",
    "border-inline-width", "column-rule", "columns", "container", "contain-intrinsic-size",
    "flex", "flex-flow", "font-variant", "gap", "grid-area", "grid-column", "grid-row",
    "inset-block", "inset-inline", "list-style", "margin-block", "margin-inline", "offset",
    "outline", "overflow", "padding-block", "padding-inline", "place-content", "place-items",
    "place-self", "scroll-margin-block", "scroll-margin-inline", "scroll-padding-block",
    "scroll-padding-inline", "transition"]

def physicalLonghands : List String :=
  ["width", "height", "min-width", "min-height", "max-width", "max-height", "top", "right",
    "bottom", "left", "margin-top", "margin-right", "margin-bottom", "margin-left",
    "padding-top", "padding-right", "padding-bottom", "padding-left", "border-top-width",
    "border-right-width", "border-bottom-width", "border-left-width", "border-top-style",
    "border-right-style", "border-bottom-style", "border-left-style", "border-top-color",
    "border-right-color", "border-bottom-color", "border-left-color", "border-top-left-radius",
    "border-top-right-radius", "border-bottom-right-radius", "border-bottom-left-radius",
    "overflow-x", "overflow-y", "scroll-margin-top", "scroll-margin-right",
    "scroll-margin-bottom", "scroll-margin-left", "scroll-padding-top", "scroll-padding-right",
    "scroll-padding-bottom", "scroll-padding-left", "contain-intrinsic-width",
    "contain-intrinsic-height", "background-position-x", "background-position-y"]

/-- The class of a property. Custom properties start with two dashes; a property in none of the
tables counts as a logical longhand. -/
def ofName (name : String) : PropertyClass :=
  if Text.startsWith "--" name then .custom
  else if shorthandsOfShorthands.contains name then .shorthandOfShorthands
  else if shorthandsOfLonghands.contains name then .shorthandOfLonghands
  else if physicalLonghands.contains name then .physicalLonghand
  else .logicalLonghand

def priority : PropertyClass → Nat
  | .custom => 1
  | .shorthandOfShorthands => 1000
  | .shorthandOfLonghands => 2000
  | .logicalLonghand => 3000
  | .physicalLonghand => 4000

end PropertyClass

/-- The priority of a property outside every context. -/
def propertyPriority (name : String) : Nat :=
  (PropertyClass.ofName name).priority

end AtomicCss
