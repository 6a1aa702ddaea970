import AtomicCss.Number.Format
import AtomicCss.Text.CodeRange

/-!
Contract: units of numbers.

Owns:
- the unit that a bare number gets from its property;
- the units that are recognised in style text;
- numbers without the zero before their point.

Does not own: how style text is cut into numbers.
-/

namespace AtomicCss.Property

/-- Properties whose bare numbers stay without a unit. -/
def unitlessNames : List String :=
  ["animation-iteration-count", "aspect-ratio", "border-image-outset", "border-image-slice",
    "border-image-width", "box-flex", "box-flex-group", "box-ordinal-group", "column-count",
    "columns", "fill-opacity", "flex", "flex-grow", "flex-negative", "flex-order",
    "flex-positive", "flex-shrink", "flood-opacity", "font-size-adjust", "font-weight",
    "grid-area", "grid-column", "grid-column-end", "grid-column-start", "grid-row",
    "grid-row-end", "grid-row-start", "initial-letter", "line-clamp", "line-height",
    "math-depth", "opacity", "order", "orphans", "scale", "stop-opacity", "stroke-dasharray",
    "stroke-dashoffset", "stroke-miterlimit", "stroke-opacity", "stroke-width", "tab-size",
    "widows", "z-index", "zoom"]

/-- Properties whose bare numbers are milliseconds. -/
def timeNames : List String :=
  ["animation-delay", "animation-duration", "transition-delay", "transition-duration"]

def numberSuffix (name : String) : String :=
  if Text.startsWith "--" name || unitlessNames.contains name then ""
  else if timeNames.contains name then "ms"
  else "px"

/-- The units that are recognised, in lower case. -/
def knownUnits : List String :=
  ["%", "px", "em", "rem", "ex", "ch", "cap", "ic", "lh", "rlh", "vh", "vw", "vi", "vb",
    "vmin", "vmax", "dvh", "dvw", "dvi", "dvb", "dvmin", "dvmax", "svh", "svw", "svi", "svb",
    "svmin", "svmax", "lvh", "lvw", "lvi", "lvb", "lvmin", "lvmax", "cqw", "cqh", "cqi", "cqb",
    "cqmin", "cqmax", "cm", "mm", "q", "in", "pt", "pc", "fr", "deg", "grad", "rad", "turn",
    "s", "ms", "hz", "khz", "dpi", "dpcm", "dppx", "x"]

def angleUnits : List String :=
  ["deg", "grad", "rad", "turn"]

def timeUnits : List String :=
  ["s", "ms"]

def dropLeadingZero : List Char → List Char
  | '0' :: '.' :: rest => '.' :: rest
  | '-' :: '0' :: '.' :: rest => '-' :: '.' :: rest
  | other => other

/-- A number in a style, without the zero before its point. -/
def shortNumber (value : Binary64) : String :=
  String.ofList (dropLeadingZero value.styleText.toList)

def numberText (name : String) (value : Binary64) : String :=
  shortNumber value ++ numberSuffix name

end AtomicCss.Property
