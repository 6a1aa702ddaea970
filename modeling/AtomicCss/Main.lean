import AtomicCss.CommandLine.Run

/-!
Contract: the command on a disk and a terminal.

Owns: copying what a call may look at from the disk into a tree of files, and its report to the
terminal and the disk.

Does not own: what the command does with the tree.
-/

namespace AtomicCss.Main

def loadNode (tree : FileTree) (path : String) : IO FileTree := do
  let onDisk := (← IO.currentDir) / path
  if ← onDisk.isDir then return tree.place path .directory
  else if ← onDisk.pathExists then
    return tree.place path (.file (← IO.FS.readBinFile onDisk))
  else return tree

/-- The tree with what stands on disk at a path and on the way to it. -/
def loadPath (tree : FileTree) (path : String) : IO FileTree := do
  let parts := FileTree.splitPath path
  let ways := (List.range parts.length).map fun count => Text.join "/" (parts.take (count + 1))
  (ways.filter (· != "")).foldlM loadNode tree

/-- The tree with the directories and style sources on disk below a directory. -/
partial def loadSourcesBelow (tree : FileTree) (path : String) : IO FileTree := do
  let entries ← ((← IO.currentDir) / path).readDir
  entries.foldlM (fun sofar entry => do
    let inner := FileTree.child path entry.fileName
    if ← entry.path.isDir then loadSourcesBelow (sofar.place inner .directory) inner
    else if FileTree.isSourceName entry.fileName then loadNode sofar inner
    else return sofar) tree

def loadInput (tree : FileTree) (path : String) : IO FileTree := do
  let loaded ← loadPath tree path
  if loaded.isDirectory path then loadSourcesBelow loaded path else return loaded

def inputPaths (invocation : Invocation) : List String :=
  match invocation.command with
  | some (.compile inputs _ _ _ _) => inputs
  | some (.check input _ _) => [input]
  | _ => []

def outputPaths (invocation : Invocation) (tree : FileTree) : List String :=
  let configured := match invocation.config.map (loadSettings tree) with
    | some (.ok settings) => settings.outputFile.toList
    | _ => []
  match invocation.command with
  | some (.compile _ output _ _ _) => output.toList ++ configured
  | _ => []

def loadTree (arguments : List String) : IO FileTree := do
  let directory := (← IO.currentDir).components.filter (· != "")
  let start := FileTree.emptyAt directory
  match Invocation.read arguments with
  | .error _ => return start
  | .ok invocation =>
    let configured ← invocation.config.toList.foldlM loadPath start
    let loaded ← (inputPaths invocation).foldlM loadInput configured
    (outputPaths invocation configured).foldlM loadPath loaded

/-- Runs the command. The time it reports is that of gathering the files. -/
def run (arguments : List String) : IO UInt32 := do
  let started ← IO.monoMsNow
  let files ← loadTree arguments
  let elapsed := (← IO.monoMsNow) - started
  let report := runCommand elapsed files arguments
  for (path, text) in FileTree.changes files report.files do
    IO.FS.writeFile ((← IO.currentDir) / path) text
  IO.print report.out
  IO.eprint report.err
  return UInt32.ofNat report.exit

end AtomicCss.Main

def main (arguments : List String) : IO UInt32 :=
  AtomicCss.Main.run arguments
