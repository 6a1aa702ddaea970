import AtomicCss.Property.Direction

/-!
Contract: declarations, each a property with the values it falls back through.

Owns:
- the type of declarations and their text;
- the declaration for the opposite writing direction.

Does not own: how a declaration comes of what an author wrote.
-/

namespace AtomicCss

/-- A property and its values, of which the last one understood wins. A directional declaration
differs between the writing directions. -/
structure Declaration where
  property : String
  values : List String
  directional : Bool
deriving DecidableEq, Repr

namespace Declaration

/-- The values as one text, as they are hashed. -/
def valueText (declaration : Declaration) : String :=
  Text.join ", " declaration.values

/-- The declaration as style text, once for each value. -/
def css (declaration : Declaration) : String :=
  Text.join ";" (declaration.values.map fun value => declaration.property ++ ":" ++ value)

def mirrored? (declaration : Declaration) : Option Declaration :=
  if declaration.directional then
    some ⟨Property.mirror declaration.property,
      declaration.values.map (Property.mirrorKeyword declaration.property), true⟩
  else none

end Declaration

end AtomicCss
