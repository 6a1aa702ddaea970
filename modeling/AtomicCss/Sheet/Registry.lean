import AtomicCss.Error
import AtomicCss.Hash.Digest
import AtomicCss.Sheet.Artifact

/-!
Contract: artifacts gathered under their names, and the style sheets made of them.

Owns:
- insertion of single artifacts and of batches, which refuses two bodies under one name;
- the order of the cascade;
- style sheets and their fingerprint.

Does not own: where artifacts come from.
-/

namespace AtomicCss

/-- Artifacts in the order of their first insertion. -/
structure Registry where
  artifacts : List Artifact
deriving DecidableEq, Repr

namespace Registry

def empty : Registry :=
  ⟨[]⟩

def get? (registry : Registry) (id : String) : Option Artifact :=
  registry.artifacts.find? fun artifact => artifact.id = id

def contains (registry : Registry) (id : String) : Bool :=
  (registry.get? id).isSome

def ruleCount (registry : Registry) : Nat :=
  registry.artifacts.countP fun artifact => !artifact.isKeyframes

def keyframesCount (registry : Registry) : Nat :=
  registry.artifacts.countP Artifact.isKeyframes

/-- Refuses an artifact whose name stands for another one. -/
def check (registry : Registry) (artifact : Artifact) : Except Error Unit :=
  match registry.get? artifact.id with
  | none => .ok ()
  | some existing =>
    if existing = artifact then .ok ()
    else .error (.nameCollision artifact.id existing.css.ltr artifact.css.ltr)

/-- The registry with an artifact at its end, if the name is not taken. -/
def add (registry : Registry) (artifact : Artifact) : Registry :=
  if registry.contains artifact.id then registry else ⟨registry.artifacts ++ [artifact]⟩

/-- Inserts an artifact, and tells whether it is new. -/
def insert (registry : Registry) (artifact : Artifact) : Except Error (Registry × Bool) := do
  registry.check artifact
  .ok (registry.add artifact, !registry.contains artifact.id)

def insertAll (registry : Registry) : List Artifact → Except Error Registry
  | [] => .ok registry
  | artifact :: rest => do
    let (extended, _) ← registry.insert artifact
    extended.insertAll rest

def checkAll (registry : Registry) : List Artifact → Except Error Unit
  | [] => .ok ()
  | artifact :: rest => do
    registry.check artifact
    registry.checkAll rest

/-- Inserts a batch, all of it or nothing, and counts the new artifacts. The batch is checked
against the registry as it was; of two artifacts of one name in the batch the first is kept. -/
def merge (registry : Registry) (batch : List Artifact) : Except Error (Registry × Nat) := do
  registry.checkAll batch
  let merged := batch.foldl add registry
  .ok (merged, merged.artifacts.length - registry.artifacts.length)

/-- The artifacts by ascending priority, in order of insertion where it is equal. -/
def sorted (registry : Registry) : List Artifact :=
  registry.artifacts.mergeSort fun left right => Nat.ble left.priority right.priority

/-- The style sheet for a writing direction, a line for each artifact. -/
def sheet (registry : Registry) (direction : Direction) : String :=
  registry.sorted.foldr (fun artifact rest => artifact.css.text direction ++ "\n" ++ rest) ""

def fingerprint (registry : Registry) : String :=
  Hash.digestText (registry.sheet .ltr ++ registry.sheet .rtl)

end Registry

end AtomicCss
