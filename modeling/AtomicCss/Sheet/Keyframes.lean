import AtomicCss.Declaration.Normal
import AtomicCss.Sheet.Rule

/-!
Contract: animations from their frames.

Owns:
- labels of frames and their one spelling;
- the declarations of a frame;
- the animation of a block of frames in both writing directions.

Does not own: where a block of frames was written.
-/

namespace AtomicCss

def splitAtCommas : List Char → List (List Char)
  | [] => [[]]
  | character :: rest =>
    if character = ',' then [] :: splitAtCommas rest
    else match splitAtCommas rest with
      | [] => [[character]]
      | first :: others => (character :: first) :: others

/-- Whether a text is the place of a frame: `from`, `to`, or a percentage from zero to a hundred. -/
def isFrameOffset (part : List Char) : Bool :=
  if part = "from".toList || part = "to".toList then true
  else if part.getLast? = some '%' then
    match Binary64.read? part.dropLast with
    | some value => value.isBetweenZeroAnd 100
    | none => false
  else false

/-- The label of a frame, a list of places, without white space around its commas. -/
def frameLabel (label : String) : Except Error String :=
  let parts := (splitAtCommas label.toList).map Text.trimChars
  if parts.all isFrameOffset then .ok (Text.join "," (parts.map String.ofList))
  else .error (.invalidKeyframes (.badLabel label))

/-- The declarations of one key of a frame. Frames take plain values only, and none for a key that
is null. -/
def frameEntry (options : Options) (key : String) (value : Value) : Except Error Normalized :=
  match KeyKind.ofKey key with
  | .pseudo => .error (.selectorInKeyframes key)
  | .atRule => .error (.selectorInKeyframes key)
  | .property | .default =>
    match value with
    | .null => .ok ⟨[], []⟩
    | .object _ => .error (.invalidKeyframes (.notPlain key .object))
    | .dynamic _ => .error (.invalidKeyframes (.notPlain key .dynamic))
    | .keyframes _ => .error (.invalidKeyframes (.notPlain key .keyframes))
    | plain => options.normalize key plain

def frameDeclarations (options : Options) : StyleMap → Except Error Normalized
  | [] => .ok ⟨[], []⟩
  | (key, value) :: rest => do
    let here ← frameEntry options key value
    let others ← frameDeclarations options rest
    .ok ⟨here.declarations ++ others.declarations, here.warnings ++ others.warnings⟩

def frameText (label : String) (declarations : List Declaration) : String :=
  let body := declarations.flatMap fun declaration =>
    declaration.values.map fun value => declaration.property ++ ":" ++ value ++ ";"
  label ++ "\x7b" ++ Text.concat body ++ "\x7d"

structure NormalFrame where
  label : String
  declarations : List Declaration
deriving DecidableEq, Repr

def normalFrames (options : Options) :
    Keyframes → Except Error (List NormalFrame × List Warning)
  | [] => .ok ([], [])
  | (label, styles) :: rest => do
    let written ← frameLabel label
    let normalized ← frameDeclarations options styles
    let (frames, warnings) ← normalFrames options rest
    .ok (⟨written, normalized.declarations⟩ :: frames, normalized.warnings ++ warnings)

namespace NormalFrame

def text (frame : NormalFrame) : Direction → String
  | .ltr => frameText frame.label frame.declarations
  | .rtl => frameText frame.label
      (frame.declarations.map fun declaration => declaration.mirrored?.getD declaration)

end NormalFrame

structure CompiledKeyframes where
  block : KeyframesRule
  warnings : List Warning
deriving DecidableEq, Repr

/-- The animation of frames in normal form. It has a text of its own for right-to-left pages only
where that differs. -/
def keyframesRule (start : String) (frames : List NormalFrame) : KeyframesRule :=
  let ltrBody := Text.concat (frames.map (·.text .ltr))
  let rtlBody := Text.concat (frames.map (·.text .rtl))
  let name := keyframesName start ltrBody
  let rule (body : String) := "@keyframes " ++ name ++ "\x7b" ++ body ++ "\x7d"
  ⟨name, ltrBody, ⟨rule ltrBody, if rtlBody = ltrBody then none else some (rule rtlBody)⟩, 1⟩

/-- The animation of a block of frames, of which there must be one. -/
def compileKeyframes (options : Options) (frames : Keyframes) :
    Except Error CompiledKeyframes := do
  if frames.isEmpty then .error (.invalidKeyframes .noFrames)
  let (normal, warnings) ← normalFrames options frames
  .ok ⟨keyframesRule options.classPrefix normal, warnings⟩

end AtomicCss
