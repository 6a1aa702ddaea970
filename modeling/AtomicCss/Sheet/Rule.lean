import AtomicCss.Context.Path
import AtomicCss.Declaration.Basic
import AtomicCss.Hash.Murmur
import AtomicCss.Sheet.Artifact

/-!
Contract: names made of content, and the rules that bear them.

Owns:
- class names, names of animations and names of dynamic variables;
- the rule of a declaration in a context.

Does not own: the normal form of declarations.
-/

namespace AtomicCss

def classHashInput (property valueText : String) (context : Context) (directional : Bool) :
    String :=
  "<>" ++ property ++ valueText ++ context.modifiers ++ if directional then "~mirror" else ""

def className (start property valueText : String) (context : Context) (directional : Bool) :
    String :=
  start ++ Hash.text36 (classHashInput property valueText context directional)

/-- The name of an animation, by its frames for left-to-right pages. -/
def keyframesName (start body : String) : String :=
  start ++ Hash.text36 ("<>" ++ body) ++ "-B"

/-- The custom property that carries a dynamic value. Each context has one of its own, so that two
values of one property do not get in each other's way. -/
def dynamicVariable (property : String) (context : Context) : String :=
  let base := "--" ++ String.ofList (property.toList.dropWhile (· = '-'))
  if context.segments.isEmpty then base
  else base ++ "-" ++ Hash.text36 context.modifiers

namespace Declaration

def ruleText (declaration : Declaration) (className : String) (context : Context) : String :=
  context.wrap (context.selector className ++ "\x7b" ++ declaration.css ++ "\x7d")

def ruleCss (declaration : Declaration) (className : String) (context : Context) : CssPair :=
  ⟨declaration.ruleText className context,
    declaration.mirrored?.map fun mirrored => mirrored.ruleText className context⟩

def rule (declaration : Declaration) (start : String) (context : Context) : AtomicRule :=
  let name :=
    className start declaration.property declaration.valueText context declaration.directional
  ⟨name, declaration.ruleCss name context, rulePriority declaration.property context⟩

end Declaration

end AtomicCss
