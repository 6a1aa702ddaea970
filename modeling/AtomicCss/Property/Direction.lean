import AtomicCss.Text.CodeRange

/-!
Contract: properties and keywords that depend on the writing direction.

Owns:
- the logical counterparts of physical sides, corners and keywords;
- the counterpart of a logical side in the opposite writing direction.

Does not own: the choice whether a declaration is mapped.
-/

namespace AtomicCss.Property

/-- Physical properties with the logical property that left-to-right text maps them to. -/
def logicalNames : List (String × String) :=
  [("left", "inset-inline-start"),
    ("right", "inset-inline-end"),
    ("margin-left", "margin-inline-start"),
    ("margin-right", "margin-inline-end"),
    ("padding-left", "padding-inline-start"),
    ("padding-right", "padding-inline-end"),
    ("border-left", "border-inline-start"),
    ("border-right", "border-inline-end"),
    ("border-left-width", "border-inline-start-width"),
    ("border-right-width", "border-inline-end-width"),
    ("border-left-style", "border-inline-start-style"),
    ("border-right-style", "border-inline-end-style"),
    ("border-left-color", "border-inline-start-color"),
    ("border-right-color", "border-inline-end-color"),
    ("scroll-margin-left", "scroll-margin-inline-start"),
    ("scroll-margin-right", "scroll-margin-inline-end"),
    ("scroll-padding-left", "scroll-padding-inline-start"),
    ("scroll-padding-right", "scroll-padding-inline-end"),
    ("border-top-left-radius", "border-start-start-radius"),
    ("border-top-right-radius", "border-start-end-radius"),
    ("border-bottom-left-radius", "border-end-start-radius"),
    ("border-bottom-right-radius", "border-end-end-radius")]

def logical? (name : String) : Option String :=
  logicalNames.lookup name

/-- Whether a property takes the keywords of a float. -/
def isFloating (name : String) : Bool :=
  name = "float" || name = "clear"

def logicalKeyword? (name value : String) : Option String :=
  if name = "text-align" then
    if value = "left" then some "start"
    else if value = "right" then some "end"
    else none
  else if isFloating name then
    if value = "left" then some "inline-start"
    else if value = "right" then some "inline-end"
    else none
  else none

def oppositeEnd? (side : String) : Option String :=
  if side = "start" then some "end"
  else if side = "end" then some "start"
  else none

/-- What is left of a text between `start` and `finish`, which do not overlap. -/
def between? (start finish text : List Char) : Option (List Char) :=
  if start.isPrefixOf text then
    let rest := text.drop start.length
    if finish.isSuffixOf rest then some (rest.take (rest.length - finish.length)) else none
  else none

def splitAtDash? (text : List Char) : Option (List Char × List Char) :=
  match text.dropWhile (· != '-') with
  | [] => none
  | _ :: after => some (text.takeWhile (· != '-'), after)

/-- The block side and the inline side of a corner radius, as `border-start-end-radius` names
them. -/
def cornerSides? (name : String) : Option (List Char × List Char) :=
  (between? "border-".toList "-radius".toList name.toList).bind splitAtDash?

def replaceFirst? (target replacement : List Char) : List Char → Option (List Char)
  | [] => if target.isEmpty then some replacement else none
  | character :: rest =>
    if target.isPrefixOf (character :: rest) then
      some (replacement ++ (character :: rest).drop target.length)
    else (replaceFirst? target replacement rest).map (character :: ·)

/-- The name with its first `inline-start` turned into `inline-end`, or else the other way
round. -/
def mirrorInline (name : String) : String :=
  let start := "inline-start".toList
  let finish := "inline-end".toList
  match replaceFirst? start finish name.toList with
  | some mirrored => String.ofList mirrored
  | none => String.ofList ((replaceFirst? finish start name.toList).getD name.toList)

/-- The property in the opposite writing direction. A corner radius turns its inline side. -/
def mirror (name : String) : String :=
  match cornerSides? name with
  | some (block, side) =>
    match oppositeEnd? (String.ofList side) with
    | some opposite => "border-" ++ String.ofList block ++ "-" ++ opposite ++ "-radius"
    | none => name
  | none => mirrorInline name

def mirrorKeyword (name value : String) : String :=
  if name = "text-align" then
    if value = "start" then "end" else if value = "end" then "start" else value
  else if isFloating name then
    if value = "inline-start" then "inline-end"
    else if value = "inline-end" then "inline-start"
    else value
  else value

end AtomicCss.Property
