import AtomicCss.Compile.Output

/-!
Contract: figures on a compilation.

Owns: sizes and counts over several sources.

Does not own: time, which is no matter of what is compiled.
-/

namespace AtomicCss

/-- Sizes in bytes, and counts. -/
structure Stats where
  sourceSize : Nat
  outputSize : Nat
  fileCount : Nat
  namespaceCount : Nat
  ruleCount : Nat
  keyframesCount : Nat
  warningCount : Nat
deriving DecidableEq, Repr

namespace Stats

def zero : Stats :=
  ⟨0, 0, 0, 0, 0, 0, 0⟩

def addSource (stats : Stats) (size : Nat) : Stats :=
  { stats with sourceSize := stats.sourceSize + size }

/-- The figures with the output of one more source, which spells out as many animations. -/
def record (stats : Stats) (output : Output) (animations : Nat) : Stats :=
  { stats with
    fileCount := stats.fileCount + 1
    namespaceCount := stats.namespaceCount + output.styles.length
    keyframesCount := stats.keyframesCount + animations
    warningCount := stats.warningCount + output.warnings.length }

/-- The figures with the counts of distinct artifacts and the size of the style sheet. -/
def finish (stats : Stats) (registry : Registry) (outputSize : Nat) : Stats :=
  { stats with
    ruleCount := registry.ruleCount
    keyframesCount := registry.keyframesCount
    outputSize := outputSize }

end Stats

end AtomicCss
