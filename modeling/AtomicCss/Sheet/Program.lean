import AtomicCss.Sheet.Registry

/-!
Contract: programs that change a registry in place.

Owns:
- programs, whose changes stay when they fail halfway;
- insertion of single artifacts and of batches, one step after the other.

Does not own: where artifacts come from.
-/

namespace AtomicCss

/-- A program on a registry that changes in place. A failure ends the program and undoes nothing. -/
abbrev Program := EStateM Error Registry

namespace Program

def lift {α : Type} : Except Error α → Program α
  | .ok value => pure value
  | .error error => throw error

/-- Runs a program for its result, whatever it is; what a failed program changed stays changed. -/
def attempt {α : Type} (program : Program α) : Program (Except Error α) := fun registry =>
  match program registry with
  | .ok value changed => .ok (.ok value) changed
  | .error error changed => .ok (.error error) changed

def check (artifact : Artifact) : Program Unit := do
  let registry ← get
  lift (registry.check artifact)

/-- Puts an artifact at the end of the registry if its name is not taken, and tells whether it
was new. -/
def store (artifact : Artifact) : Program Bool := do
  let registry ← get
  if registry.contains artifact.id then return false
  set (⟨registry.artifacts ++ [artifact]⟩ : Registry)
  return true

def insert (artifact : Artifact) : Program Bool := do
  check artifact
  store artifact

def checkEach : List Artifact → Program Unit
  | [] => return ()
  | artifact :: rest => do
    check artifact
    checkEach rest

def storeEach : List Artifact → Program Nat
  | [] => return 0
  | artifact :: rest => do
    let new ← store artifact
    let others ← storeEach rest
    return (if new then 1 else 0) + others

/-- Inserts a batch: all of it is checked before any of it is stored. -/
def merge (batch : List Artifact) : Program Nat := do
  checkEach batch
  storeEach batch

end Program

end AtomicCss
