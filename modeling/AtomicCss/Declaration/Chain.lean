import AtomicCss.Error

/-!
Contract: fallback chains with references to custom properties.

Owns:
- which entries of a chain are references;
- folding the references of a chain, together with the entries before them, into nested ones.

Does not own: the spelling of the entries.
-/

namespace AtomicCss.Chain

def isVariable (entry : String) : Bool :=
  "var(".toList.isPrefixOf entry.toList && entry.toList.getLast? = some ')'

/-- What stands between the parentheses of a reference. -/
def variableBody (entry : String) : String :=
  String.ofList (entry.toList.drop 4).dropLast

def withFallback (body fallback : String) : String :=
  "var(" ++ body ++ "," ++ fallback ++ ")"

/-- References, the outermost first, nested as each other's fallbacks around the last one's. -/
def nest (bodies : List String) (fallback : Option String) : String :=
  match bodies, fallback with
  | [], some value => value
  | [], none => ""
  | [last], none => if Text.startsWith "--" last then "var(" ++ last ++ ")" else last
  | body :: rest, fallback => withFallback body (nest rest fallback)

/-- The parts of a chain: the entries before its references, the bodies of the references, and
the entries after them. The references must stand next to each other. -/
structure Parts where
  before : List String
  bodies : List String
  after : List String
deriving DecidableEq, Repr

def split? (entries : List String) : Option Parts :=
  let before := entries.takeWhile fun entry => !isVariable entry
  let fromFirst := entries.dropWhile fun entry => !isVariable entry
  let references := fromFirst.takeWhile isVariable
  let after := fromFirst.dropWhile isVariable
  if after.any isVariable then none else some ⟨before, references.map variableBody, after⟩

/-- The chain with its references folded: `500px, var(--x), var(--y), 100dvh` as
`var(--y,var(--x,500px)), 100dvh`. The earliest reference is the innermost. -/
def compose (property : String) (entries : List String) : Except Error (List String) :=
  match split? entries with
  | none => .error (.scatteredVariables property)
  | some parts =>
    if parts.bodies.isEmpty then .ok entries
    else
      let bodies := parts.bodies.reverse
      let folded :=
        if parts.before.isEmpty then [nest bodies none]
        else parts.before.map fun value => nest bodies (some value)
      .ok (folded ++ parts.after)

end AtomicCss.Chain
