/-!
Contract: what a compilation puts into style sheets.

Owns:
- rule texts for both writing directions;
- atomic rules and keyframes, under the names that pages refer to.

Does not own: how names and texts come about.
-/

namespace AtomicCss

inductive Direction where
  | ltr
  | rtl
deriving DecidableEq, Repr

/-- The text of a rule for left-to-right pages, and for right-to-left ones where it differs. -/
structure CssPair where
  ltr : String
  rtl : Option String
deriving DecidableEq, Repr

def CssPair.text (pair : CssPair) : Direction → String
  | .ltr => pair.ltr
  | .rtl => pair.rtl.getD pair.ltr

/-- A rule of one declaration under a class of its own. -/
structure AtomicRule where
  className : String
  css : CssPair
  priority : Nat
deriving DecidableEq, Repr

structure KeyframesRule where
  name : String
  /-- The frames for left-to-right pages, one after the other. -/
  body : String
  css : CssPair
  priority : Nat
deriving DecidableEq, Repr

/-- Anything a compilation puts into a style sheet. -/
inductive Artifact where
  | rule (rule : AtomicRule)
  | keyframes (block : KeyframesRule)
deriving DecidableEq, Repr

namespace Artifact

/-- The name that pages refer to. -/
def id : Artifact → String
  | .rule atomic => atomic.className
  | .keyframes block => block.name

def css : Artifact → CssPair
  | .rule atomic => atomic.css
  | .keyframes block => block.css

/-- The place of an artifact in the cascade; later ones win. -/
def priority : Artifact → Nat
  | .rule atomic => atomic.priority
  | .keyframes block => block.priority

def isKeyframes : Artifact → Bool
  | .rule _ => false
  | .keyframes _ => true

end Artifact

end AtomicCss
