import AtomicCss.Style.Value

/-!
Contract: definitions of styles.

Owns:
- namespaces with their parameters and styles;
- definitions of several namespaces, and sources that also define animations.

Does not own: the data format of sources.
-/

namespace AtomicCss

/-- A style map under a name. Its dynamic values refer to the parameters. -/
structure Namespace where
  parameters : List String
  styles : StyleMap
deriving Repr

def Namespace.isDynamic (styles : Namespace) : Bool :=
  !styles.parameters.isEmpty

abbrev Definition := List (String × Namespace)

structure Source where
  definition : Definition
  keyframes : List (String × Keyframes)
deriving Repr

def Source.isEmpty (source : Source) : Bool :=
  source.definition.isEmpty && source.keyframes.isEmpty

end AtomicCss
