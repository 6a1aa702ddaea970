import AtomicCss.Number.Format

/-!
Contract: style values as authors write them.

Owns:
- the kinds of values a style map may hold and their names in messages;
- references to the parameters of a dynamic namespace;
- literals, the values that stand for a piece of style text.

Does not own: the data format authors write in, nor what values compile to.
-/

namespace AtomicCss

inductive ValueKind where
  | null
  | number
  | text
  | chain
  | dynamic
  | keyframes
  | object
deriving DecidableEq, Repr

/-- What a message calls a kind of value. -/
def ValueKind.name : ValueKind → String
  | .null => "null"
  | .number => "number"
  | .text => "string"
  | .chain => "fallback chain"
  | .dynamic => "dynamic value"
  | .keyframes => "keyframes"
  | .object => "object"

/-- A value that a parameter supplies when the page runs. The fallback stands in for a missing
argument; without one, the compiler's setting does. -/
structure DynamicReference where
  parameter : String
  fallback : Option String
deriving DecidableEq, Repr

inductive Value where
  /-- Unsets a property; no rule comes of it. -/
  | null
  | number (value : Binary64)
  | text (written : String)
  /-- A fallback chain, in which later entries win. -/
  | chain (items : List Value)
  | dynamic (reference : DynamicReference)
  /-- A block of keyframes in place, which stands for the name it gets. -/
  | keyframes (frames : List (String × List (String × Value)))
  /-- A style map under a context, or the conditions of a property. -/
  | object (entries : List (String × Value))
deriving Repr, Inhabited

abbrev StyleMap := List (String × Value)

/-- The frames of an animation in order, by label. -/
abbrev Keyframes := List (String × StyleMap)

def Value.kind : Value → ValueKind
  | .null => .null
  | .number _ => .number
  | .text _ => .text
  | .chain _ => .chain
  | .dynamic _ => .dynamic
  | .keyframes _ => .keyframes
  | .object _ => .object

/-- A value that stands for a piece of style text. -/
inductive Literal where
  | number (value : Binary64)
  | text (written : String)
deriving DecidableEq, Repr

def Value.literal? : Value → Option Literal
  | .number magnitude => some (.number magnitude)
  | .text written => some (.text written)
  | _ => none

end AtomicCss
