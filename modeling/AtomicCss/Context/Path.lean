import AtomicCss.Context.Segment
import AtomicCss.Property.Class

/-!
Contract: contexts, from the outermost level to the innermost.

Owns:
- paths of segments and the checks on entering one more;
- the texts made of a path: for messages, for keys of compiled namespaces, for hashing and for
  selectors;
- the priority of a declaration in a context.

Does not own: the style maps that are walked.
-/

namespace AtomicCss

/-- The segments around a declaration, the outermost first. -/
structure Context where
  segments : List Segment
deriving DecidableEq, Repr

namespace Context

def empty : Context :=
  ⟨[]⟩

def push (context : Context) (segment : Segment) : Context :=
  ⟨context.segments ++ [segment]⟩

/-- The innermost level, if there is any, and the context without it. -/
def pop (context : Context) : Option Segment × Context :=
  (context.segments.getLast?, ⟨context.segments.dropLast⟩)

def depth (context : Context) : Nat :=
  context.segments.length

def contains (context : Context) (segment : Segment) : Bool :=
  context.segments.contains segment

def hasElement (context : Context) : Bool :=
  context.segments.any Segment.isElement

/-- The pseudo selectors in the order of the path. -/
def pseudos (context : Context) : List String :=
  context.segments.filterMap fun segment =>
    match segment with
    | .pseudo written => some written
    | .atRule _ => none

/-- The at-rules in the order of the path. -/
def atRules (context : Context) : List String :=
  context.segments.filterMap fun segment =>
    match segment with
    | .atRule written => some written
    | .pseudo _ => none

def display (context : Context) : String :=
  Text.join " > " (context.segments.map Segment.text)

/-- What the keys of a nested style map start with in a compiled namespace. -/
def keyStart (context : Context) : String :=
  Text.concat (context.segments.map fun segment => segment.text ++ "_")

def depthLimit : Nat := 8

/-- The context with the segment of a key inside. A segment may not repeat, pseudo-elements do not
nest, and the depth is bounded. -/
def enter (context : Context) (key : String) : Except Error Context := do
  let segment ← Segment.read key
  let extended := context.display ++ " > " ++ segment.text
  if context.contains segment then
    .error (.invalidNesting extended (.repeated segment.text))
  else if segment.isElement && context.hasElement then
    .error (.invalidNesting extended .nestedElement)
  else if depthLimit ≤ context.depth then
    .error (.invalidNesting context.display (.tooDeep depthLimit))
  else .ok (context.push segment)

/-- What a context contributes to the hash of a rule. Sorting makes it independent of the order of
nesting. -/
def modifiers (context : Context) : String :=
  if context.segments.isEmpty then "null"
  else Text.concat (Text.sortStrings context.pseudos) ++
    Text.concat (Text.sortStrings context.atRules)

/-- The pseudo selectors in the order of a selector: classes first, then elements, each sorted. -/
def selectorPseudos (context : Context) : List String :=
  Text.sortStrings (context.pseudos.filter fun written => !Segment.isElementText written) ++
    Text.sortStrings (context.pseudos.filter Segment.isElementText)

/-- The selector of a class in a context. The class is repeated once for each at-rule, so that a
scoped rule outweighs a bare one. -/
def selector (context : Context) (className : String) : String :=
  Text.concat (List.replicate (1 + context.atRules.length) ("." ++ className)) ++
    Text.concat context.selectorPseudos

/-- A rule inside the at-rules of a context, sorted, with the first outermost. -/
def wrap (context : Context) (rule : String) : String :=
  (Text.sortStrings context.atRules).foldr (fun atRule inner => atRule ++ "\x7b" ++ inner ++ "\x7d")
    rule

/-- What a context adds to the priority of a rule. -/
def priority (context : Context) : Nat :=
  context.segments.foldr (fun segment rest => segment.priority + rest) 0

end Context

def rulePriority (property : String) (context : Context) : Nat :=
  propertyPriority property + context.priority

end AtomicCss
