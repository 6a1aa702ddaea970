/-!
Contract: what the compiler remarks on without stopping.

Owns: the causes of warnings and their wording.

Does not own: errors. What a warning is about is compiled as it was written.
-/

namespace AtomicCss

inductive WarningKind where
  | unknownProperty
  | unparsableUnit
  | malformedShorthand
deriving DecidableEq, Repr

def WarningKind.name : WarningKind → String
  | .unknownProperty => "unknown_property"
  | .unparsableUnit => "unparsable_unit"
  | .malformedShorthand => "malformed_shorthand"

/-- A remark on the value of a property. -/
inductive Warning where
  | unknownProperty (property value : String)
  | unparsableUnit (property value token : String)
  | malformedShorthand (property value : String) (limit : Nat)
deriving DecidableEq, Repr

namespace Warning

def kind : Warning → WarningKind
  | .unknownProperty _ _ => .unknownProperty
  | .unparsableUnit _ _ _ => .unparsableUnit
  | .malformedShorthand _ _ _ => .malformedShorthand

def property : Warning → String
  | .unknownProperty property _ => property
  | .unparsableUnit property _ _ => property
  | .malformedShorthand property _ _ => property

def value : Warning → String
  | .unknownProperty _ value => value
  | .unparsableUnit _ value _ => value
  | .malformedShorthand _ value _ => value

def message : Warning → String
  | .unknownProperty property _ =>
    "Unknown CSS property '" ++ property ++ "', passed through as-is"
  | .unparsableUnit _ _ token => "Unrecognized unit in '" ++ token ++ "', passed through as-is"
  | .malformedShorthand property _ limit =>
    "Shorthand '" ++ property ++ "' takes at most " ++ Nat.repr limit ++
      " values, left unexpanded"

def display (warning : Warning) : String :=
  warning.message ++ " (" ++ warning.property ++ ": " ++ warning.value ++ ")"

end Warning

end AtomicCss
