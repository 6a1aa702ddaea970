import AtomicCss.Text.CodeRange

/-!
Contract: from the key an author writes to the name of a CSS property.

Owns:
- dashed spelling of camel-case keys and vendor keys;
- older names of properties that follow the writing direction;
- the properties that are known.

Does not own: physical properties and their logical counterparts.
-/

namespace AtomicCss.Property

/-- Whether a key starts with a vendor's name: a capital letter, or `ms` and a capital letter. -/
def isVendorKey : List Char → Bool
  | 'm' :: 's' :: third :: _ => third.isUpper
  | first :: _ => first.isUpper
  | [] => false

/-- A capital letter inside a key as a dash and the small letter; any other character as it is. -/
def dashChar (character : Char) : List Char :=
  if character.isUpper then ['-', character.toLower] else [character]

def dashChars (key : List Char) : List Char :=
  let start := if isVendorKey key then ['-'] else []
  match key with
  | [] => []
  | first :: rest => start ++ first.toLower :: rest.flatMap dashChar

/-- A key in dashed spelling: `marginLeft` as `margin-left`, `WebkitMask` as `-webkit-mask`,
`msFlex` as `-ms-flex`. Custom properties stay as they are. -/
def dashed (key : String) : String :=
  if Text.startsWith "--" key then key else String.ofList (dashChars key.toList)

/-- Older names of properties along the writing direction, with their present names. -/
def aliases : List (String × String) :=
  [("start", "inset-inline-start"),
    ("end", "inset-inline-end"),
    ("margin-start", "margin-inline-start"),
    ("margin-end", "margin-inline-end"),
    ("margin-horizontal", "margin-inline"),
    ("margin-vertical", "margin-block"),
    ("padding-start", "padding-inline-start"),
    ("padding-end", "padding-inline-end"),
    ("padding-horizontal", "padding-inline"),
    ("padding-vertical", "padding-block"),
    ("border-start", "border-inline-start"),
    ("border-end", "border-inline-end"),
    ("border-start-width", "border-inline-start-width"),
    ("border-end-width", "border-inline-end-width"),
    ("border-start-style", "border-inline-start-style"),
    ("border-end-style", "border-inline-end-style"),
    ("border-start-color", "border-inline-start-color"),
    ("border-end-color", "border-inline-end-color"),
    ("border-horizontal", "border-inline"),
    ("border-vertical", "border-block"),
    ("border-top-start-radius", "border-start-start-radius"),
    ("border-top-end-radius", "border-start-end-radius"),
    ("border-bottom-start-radius", "border-end-start-radius"),
    ("border-bottom-end-radius", "border-end-end-radius")]

def alias? (name : String) : Option String :=
  aliases.lookup name

def canonicalName (key : String) : String :=
  (alias? (dashed key)).getD (dashed key)

/-- The properties of CSS, in alphabetical order. -/
def knownNames : List String :=
  ["accent-color", "align-content", "align-items", "align-self", "all", "animation",
    "animation-composition", "animation-delay", "animation-direction", "animation-duration",
    "animation-fill-mode", "animation-iteration-count", "animation-name",
    "animation-play-state", "animation-timeline", "animation-timing-function", "appearance",
    "aspect-ratio", "backdrop-filter", "backface-visibility", "background",
    "background-attachment", "background-blend-mode", "background-clip", "background-color",
    "background-image", "background-origin", "background-position", "background-position-x",
    "background-position-y", "background-repeat", "background-size", "block-size", "border",
    "border-block", "border-block-color", "border-block-end", "border-block-end-color",
    "border-block-end-style", "border-block-end-width", "border-block-start",
    "border-block-start-color", "border-block-start-style", "border-block-start-width",
    "border-block-style", "border-block-width", "border-bottom", "border-bottom-color",
    "border-bottom-left-radius", "border-bottom-right-radius", "border-bottom-style",
    "border-bottom-width", "border-collapse", "border-color", "border-end-end-radius",
    "border-end-start-radius", "border-image", "border-image-outset", "border-image-repeat",
    "border-image-slice", "border-image-source", "border-image-width", "border-inline",
    "border-inline-color", "border-inline-end", "border-inline-end-color",
    "border-inline-end-style", "border-inline-end-width", "border-inline-start",
    "border-inline-start-color", "border-inline-start-style", "border-inline-start-width",
    "border-inline-style", "border-inline-width", "border-left", "border-left-color",
    "border-left-style", "border-left-width", "border-radius", "border-right",
    "border-right-color", "border-right-style", "border-right-width", "border-spacing",
    "border-start-end-radius", "border-start-start-radius", "border-style", "border-top",
    "border-top-color", "border-top-left-radius", "border-top-right-radius", "border-top-style",
    "border-top-width", "border-width", "bottom", "box-decoration-break", "box-shadow",
    "box-sizing", "break-after", "break-before", "break-inside", "caption-side", "caret-color",
    "clear", "clip", "clip-path", "color", "color-scheme", "column-count", "column-fill",
    "column-gap", "column-rule", "column-rule-color", "column-rule-style", "column-rule-width",
    "column-span", "column-width", "columns", "contain", "contain-intrinsic-block-size",
    "contain-intrinsic-height", "contain-intrinsic-inline-size", "contain-intrinsic-size",
    "contain-intrinsic-width", "container", "container-name", "container-type", "content",
    "content-visibility", "counter-increment", "counter-reset", "counter-set", "cursor",
    "direction", "display", "empty-cells", "field-sizing", "fill", "fill-opacity", "fill-rule",
    "filter", "flex", "flex-basis", "flex-direction", "flex-flow", "flex-grow", "flex-shrink",
    "flex-wrap", "float", "flood-color", "flood-opacity", "font", "font-family",
    "font-feature-settings", "font-kerning", "font-language-override", "font-optical-sizing",
    "font-palette", "font-size", "font-size-adjust", "font-stretch", "font-style",
    "font-synthesis", "font-variant", "font-variant-alternates", "font-variant-caps",
    "font-variant-east-asian", "font-variant-ligatures", "font-variant-numeric",
    "font-variant-position", "font-variation-settings", "font-weight", "forced-color-adjust",
    "gap", "grid", "grid-area", "grid-auto-columns", "grid-auto-flow", "grid-auto-rows",
    "grid-column", "grid-column-end", "grid-column-start", "grid-row", "grid-row-end",
    "grid-row-start", "grid-template", "grid-template-areas", "grid-template-columns",
    "grid-template-rows", "hanging-punctuation", "height", "hyphenate-character", "hyphens",
    "image-orientation", "image-rendering", "initial-letter", "inline-size", "inset",
    "inset-block", "inset-block-end", "inset-block-start", "inset-inline", "inset-inline-end",
    "inset-inline-start", "isolation", "justify-content", "justify-items", "justify-self",
    "left", "letter-spacing", "line-break", "line-clamp", "line-height", "list-style",
    "list-style-image", "list-style-position", "list-style-type", "margin", "margin-block",
    "margin-block-end", "margin-block-start", "margin-bottom", "margin-inline",
    "margin-inline-end", "margin-inline-start", "margin-left", "margin-right", "margin-top",
    "mask", "mask-border", "mask-clip", "mask-composite", "mask-image", "mask-mode",
    "mask-origin", "mask-position", "mask-repeat", "mask-size", "mask-type", "math-depth",
    "math-style", "max-block-size", "max-height", "max-inline-size", "max-width",
    "min-block-size", "min-height", "min-inline-size", "min-width", "mix-blend-mode",
    "object-fit", "object-position", "offset", "offset-anchor", "offset-distance",
    "offset-path", "offset-position", "offset-rotate", "opacity", "order", "orphans", "outline",
    "outline-color", "outline-offset", "outline-style", "outline-width", "overflow",
    "overflow-anchor", "overflow-block", "overflow-clip-margin", "overflow-inline",
    "overflow-wrap", "overflow-x", "overflow-y", "overscroll-behavior",
    "overscroll-behavior-block", "overscroll-behavior-inline", "overscroll-behavior-x",
    "overscroll-behavior-y", "padding", "padding-block", "padding-block-end",
    "padding-block-start", "padding-bottom", "padding-inline", "padding-inline-end",
    "padding-inline-start", "padding-left", "padding-right", "padding-top", "page",
    "page-break-after", "page-break-before", "page-break-inside", "paint-order", "perspective",
    "perspective-origin", "place-content", "place-items", "place-self", "pointer-events",
    "position", "print-color-adjust", "quotes", "resize", "right", "rotate", "row-gap",
    "ruby-align", "ruby-position", "scale", "scroll-behavior", "scroll-margin",
    "scroll-margin-block", "scroll-margin-block-end", "scroll-margin-block-start",
    "scroll-margin-bottom", "scroll-margin-inline", "scroll-margin-inline-end",
    "scroll-margin-inline-start", "scroll-margin-left", "scroll-margin-right",
    "scroll-margin-top", "scroll-padding", "scroll-padding-block", "scroll-padding-block-end",
    "scroll-padding-block-start", "scroll-padding-bottom", "scroll-padding-inline",
    "scroll-padding-inline-end", "scroll-padding-inline-start", "scroll-padding-left",
    "scroll-padding-right", "scroll-padding-top", "scroll-snap-align", "scroll-snap-stop",
    "scroll-snap-type", "scrollbar-color", "scrollbar-gutter", "scrollbar-width",
    "shape-image-threshold", "shape-margin", "shape-outside", "speak", "stop-color",
    "stop-opacity", "stroke", "stroke-dasharray", "stroke-dashoffset", "stroke-linecap",
    "stroke-linejoin", "stroke-miterlimit", "stroke-opacity", "stroke-width", "tab-size",
    "table-layout", "text-align", "text-align-last", "text-combine-upright", "text-decoration",
    "text-decoration-color", "text-decoration-line", "text-decoration-skip-ink",
    "text-decoration-style", "text-decoration-thickness", "text-emphasis",
    "text-emphasis-color", "text-emphasis-position", "text-emphasis-style", "text-indent",
    "text-justify", "text-orientation", "text-overflow", "text-rendering", "text-shadow",
    "text-size-adjust", "text-transform", "text-underline-offset", "text-underline-position",
    "text-wrap", "top", "touch-action", "transform", "transform-box", "transform-origin",
    "transform-style", "transition", "transition-behavior", "transition-delay",
    "transition-duration", "transition-property", "transition-timing-function", "translate",
    "unicode-bidi", "user-select", "vertical-align", "view-transition-name", "visibility",
    "white-space", "white-space-collapse", "widows", "width", "will-change", "word-break",
    "word-spacing", "word-wrap", "writing-mode", "z-index", "zoom"]

/-- Whether a property is known. Custom properties and those of vendors start with a dash and
always are. -/
def isKnown (name : String) : Bool :=
  Text.startsWith "-" name || knownNames.contains name

end AtomicCss.Property
