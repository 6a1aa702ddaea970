import AtomicCss.Context.Path

/-!
Contract: style maps without their nesting.

Owns:
- leaves, each a value with its property and the context around it;
- the walk through nested style maps and conditions, which checks every key and keeps a stack of the
  contexts that are open.

Does not own: what the value of a leaf compiles to.
-/

namespace AtomicCss

/-- A value with its property and context, and the key of the compiled namespace that its classes
are listed under. -/
structure Leaf where
  key : String
  property : String
  context : Context
  value : Value
deriving Repr

/-- How far a walk has come: the context it is in, and the leaves it has found. -/
structure Walk where
  context : Context
  leaves : List Leaf

/-- A walk in steps. A failure ends it with all contexts open that it has entered. -/
abbrev Walker := EStateM Error Walk

namespace Walker

def enter (key : String) : Walker Unit := do
  let walk ← get
  match walk.context.enter key with
  | .ok inner => set (⟨inner, walk.leaves⟩ : Walk)
  | .error error => throw error

/-- Leaves the innermost context, whichever it is. -/
def leave : Walker Unit := do
  let walk ← get
  set (⟨walk.context.pop.2, walk.leaves⟩ : Walk)

def within (key : String) (part : Walker Unit) : Walker Unit := do
  enter key
  part
  leave

def underCondition (scope property key : String) (part : Walker Unit) : Walker Unit :=
  match KeyKind.ofKey key with
  | .default => part
  | .pseudo | .atRule => within key part
  | .property => throw (.invalidKey scope (property ++ "." ++ key) .notCondition)

def find (outputKey property : String) (value : Value) : Walker Unit := do
  let walk ← get
  set (⟨walk.context, walk.leaves ++ [⟨outputKey, property, walk.context, value⟩]⟩ : Walk)

mutual

def walkStyles (scope : String) : StyleMap → Walker Unit
  | [] => return ()
  | (key, value) :: rest => do
    walkEntry scope key value
    walkStyles scope rest

/-- One key of a style map. A pseudo selector or at-rule opens a context for a nested style map; any
other key is a property, whose object holds conditions. -/
def walkEntry (scope key : String) : Value → Walker Unit
  | .object entries =>
    match KeyKind.ofKey key with
    | .pseudo | .atRule => within key (walkStyles scope entries)
    | .property | .default =>
      if Text.trim key = "" then throw (.invalidKey scope key .blank)
      else if entries.isEmpty then throw (.invalidKey scope key .noConditions)
      else do
        let walk ← get
        walkConditions scope (walk.context.keyStart ++ key) key entries
  | value =>
    match KeyKind.ofKey key with
    | .pseudo | .atRule => throw (.invalidKey scope key (.notStyles value.kind))
    | .property | .default =>
      if Text.trim key = "" then throw (.invalidKey scope key .blank)
      else do
        let walk ← get
        find (walk.context.keyStart ++ key) key value

def walkConditions (scope outputKey property : String) : StyleMap → Walker Unit
  | [] => return ()
  | (key, value) :: rest => do
    underCondition scope property key (walkBranch scope outputKey property value)
    walkConditions scope outputKey property rest

/-- The value of a condition, which may have conditions of its own. -/
def walkBranch (scope outputKey property : String) : Value → Walker Unit
  | .object entries =>
    if entries.isEmpty then throw (.invalidKey scope property .noConditions)
    else walkConditions scope outputKey property entries
  | value => find outputKey property value

end

end Walker

/-- The leaves of the style map of a namespace, in order. -/
def flatten (scope : String) (styles : StyleMap) : Except Error (List Leaf) :=
  match (Walker.walkStyles scope styles).run ⟨Context.empty, []⟩ with
  | .ok _ walk => .ok walk.leaves
  | .error error _ => .error error

end AtomicCss
