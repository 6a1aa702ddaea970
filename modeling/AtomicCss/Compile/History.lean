import AtomicCss.Compile.Compiler
import AtomicCss.Sheet.Program

/-!
Contract: what may happen to a registry over time.

Owns:
- the operations that extend a registry, each with the compiler it uses;
- the program that an operation runs on the registry;
- the effect and the outcome of one operation, and of several in turn.

Does not own: clearing a registry, after which nothing of its past is left.
-/

namespace AtomicCss

inductive Operation where
  | insert (artifact : Artifact)
  | merge (batch : List Artifact)
  | compile (compiler : Compiler) (definition : Definition)
  /-- Compiles into a registry that others use too; it is theirs again after the merge. -/
  | compileShared (compiler : Compiler) (definition : Definition)
  | compileSource (compiler : Compiler) (source : Source)
  | compileAnimation (compiler : Compiler) (frames : Keyframes)
  | compileParallel (compiler : Compiler) (definitions : List Definition)

inductive Outcome where
  | inserted (new : Bool)
  | merged (count : Nat)
  | compiled (output : Output)
  | animated (compiled : CompiledKeyframes)
  | parallel (results : List (Except Error Output))

namespace Program

/-- Merges the artifacts of a compilation that has come to its end. -/
def mergeFinished (finished : Except Error Output) : Program Output := do
  let output ← lift finished
  let _ ← merge output.artifacts
  return output

/-- Merges the artifacts of compilations in order, each for a result of its own. -/
def mergeEach : List (Except Error Output) → Program (List (Except Error Output))
  | [] => return []
  | finished :: rest => do
    let result ← attempt (mergeFinished finished)
    let results ← mergeEach rest
    return result :: results

def insertFinished (finished : Except Error CompiledKeyframes) : Program CompiledKeyframes := do
  let compiled ← lift finished
  let _ ← insert (.keyframes compiled.block)
  return compiled

end Program

namespace Operation

/-- What an operation does to the registry, step by step. Compilation itself touches no registry
and comes first. -/
def program : Operation → Program Outcome
  | .insert artifact => return .inserted (← Program.insert artifact)
  | .merge batch => return .merged (← Program.merge batch)
  | .compile compiler definition =>
    return .compiled (← Program.mergeFinished (compileDefinition compiler.options definition))
  | .compileShared compiler definition =>
    return .compiled (← Program.mergeFinished (compileDefinition compiler.options definition))
  | .compileSource compiler source =>
    return .compiled (← Program.mergeFinished (AtomicCss.compileSource compiler.options source))
  | .compileAnimation compiler frames =>
    return .animated (← Program.insertFinished (compileKeyframes compiler.options frames))
  | .compileParallel compiler definitions =>
    return .parallel
      (← Program.mergeEach (definitions.map (compileDefinition compiler.options)))

/-- The outcome of an operation or its error, with the registry that it leaves. -/
def perform (operation : Operation) (registry : Registry) :
    EStateM.Result Error Registry Outcome :=
  operation.program.run registry

/-- The registry after an operation together with its outcome, or the error of an operation that
failed as a whole. -/
def run (operation : Operation) (registry : Registry) : Except Error (Registry × Outcome) :=
  match operation.perform registry with
  | .ok outcome changed => .ok (changed, outcome)
  | .error error _ => .error error

/-- The registry that an operation leaves, whether or not it failed. -/
def after (registry : Registry) (operation : Operation) : Registry :=
  match operation.perform registry with
  | .ok _ changed => changed
  | .error _ changed => changed

def afterAll (registry : Registry) (operations : List Operation) : Registry :=
  operations.foldl after registry

end Operation

end AtomicCss
