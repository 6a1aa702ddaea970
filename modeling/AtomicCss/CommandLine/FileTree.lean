import AtomicCss.Error

/-!
Contract: the files that a command sees.

Owns:
- a tree of files and directories with a working directory, as data;
- paths and the faults in following them;
- reading, writing and listing, and what changed between two trees.

Does not own: the disk, which the outer layer copies from and to.
-/

namespace AtomicCss

inductive FileNode where
  | directory
  | file (content : ByteArray)

namespace FileNode

def isDirectory : FileNode → Bool
  | .directory => true
  | .file _ => false

def holds (content : ByteArray) : FileNode → Bool
  | .directory => false
  | .file present => present.data = content.data

end FileNode

/-- Files and directories by their place, the names from the root on. The root itself is not
listed. -/
structure FileTree where
  workingDirectory : List String
  nodes : List (List String × FileNode)

namespace FileTree

def node? (tree : FileTree) (place : List String) : Option FileNode :=
  if place.isEmpty then some .directory else tree.nodes.lookup place

def hasDirectory (tree : FileTree) (place : List String) : Bool :=
  (tree.node? place).any FileNode.isDirectory

def setNode (tree : FileTree) (place : List String) (node : FileNode) : FileTree :=
  if place.isEmpty then tree
  else if (tree.node? place).isSome then
    { tree with
      nodes := tree.nodes.map fun entry => if entry.1 = place then (place, node) else entry }
  else { tree with nodes := tree.nodes ++ [(place, node)] }

/-- The tree with the directories that lead to a place. -/
def withParents (tree : FileTree) (place : List String) : FileTree :=
  (List.range place.length).foldl (fun sofar count =>
    if (sofar.node? (place.take count)).isSome then sofar
    else sofar.setNode (place.take count) .directory) tree

/-- The tree of an empty working directory. -/
def emptyAt (directory : List String) : FileTree :=
  (withParents ⟨directory, []⟩ directory).setNode directory .directory

def splitPath (text : String) : List String :=
  let rec split : List Char → List (List Char)
    | [] => [[]]
    | '/' :: rest => [] :: split rest
    | character :: rest =>
      match split rest with
      | [] => [[character]]
      | first :: others => (character :: first) :: others
  (split text.toList).map String.ofList

def staysPut (part : String) : Bool :=
  part = "" || part = "."

/-- The place where a path starts: the root, if a slash is in front, or the working directory. -/
def origin (tree : FileTree) (text : String) : List String :=
  if Text.startsWith "/" text then [] else tree.workingDirectory

/-- The place that a path names, if every part but its last is a directory. -/
def locate (tree : FileTree) (text : String) : List String :=
  (splitPath text).foldl (fun place part =>
    if staysPut part then place
    else if part = ".." then place.dropLast
    else place ++ [part]) (tree.origin text)

/-- The tree with a node where a path says, and the directories that lead to it. -/
def place (tree : FileTree) (text : String) (node : FileNode) : FileTree :=
  (tree.withParents (tree.locate text)).setNode (tree.locate text) node

/-- Why a text is no path, whatever the files. -/
def pathFault? (text : String) : Option FileFault :=
  if text.toList.contains (Char.ofNat 0) then some .nulInName
  else if text = "" then some .missing
  else if 4096 ≤ text.utf8ByteSize then some .nameTooLong
  else none

def follow (tree : FileTree) (place : List String) (part : String) :
    Except FileFault (List String) :=
  if tree.hasDirectory place then
    if staysPut part then .ok place
    else if part = ".." then .ok place.dropLast
    else if 255 < part.utf8ByteSize then .error .nameTooLong
    else if (tree.node? (place ++ [part])).isSome then .ok (place ++ [part])
    else .error .missing
  else .error .notDirectory

def resolve (tree : FileTree) (text : String) : Except FileFault (List String) :=
  match pathFault? text with
  | some fault => .error fault
  | none => (splitPath text).foldlM tree.follow (tree.origin text)

def isDirectory (tree : FileTree) (text : String) : Bool :=
  match tree.resolve text with
  | .ok place => tree.hasDirectory place
  | .error _ => false

def size (tree : FileTree) (text : String) : Except FileFault Nat := do
  let place ← tree.resolve text
  match tree.node? place with
  | some (.file content) => .ok content.size
  | _ => .ok 0

def read (tree : FileTree) (text : String) : Except FileFault String := do
  let place ← tree.resolve text
  match tree.node? place with
  | some (.file content) =>
    match String.fromUTF8? content with
    | some characters => .ok characters
    | none => .error .notText
  | _ => .error .isDirectory

/-- The tree with a file of a name written in a directory. A name that ends in a slash, or that
leads elsewhere, is a directory's. -/
def writeIn (tree : FileTree) (directory : List String) (name content : String)
    (slashed : Bool) : Except FileFault FileTree :=
  if tree.hasDirectory directory then
    if slashed || staysPut name || name = ".." then .error .isDirectory
    else if 255 < name.utf8ByteSize then .error .nameTooLong
    else if tree.hasDirectory (directory ++ [name]) then .error .isDirectory
    else .ok (tree.setNode (directory ++ [name]) (.file content.toUTF8))
  else .error .notDirectory

/-- The tree with a file written. The directory it goes to must exist. -/
def write (tree : FileTree) (text content : String) : Except FileFault FileTree :=
  match pathFault? text with
  | some fault => .error fault
  | none => do
    let parts := splitPath text
    let named := (parts.reverse.dropWhile (· = "")).reverse
    let directory ← named.dropLast.foldlM tree.follow (tree.origin text)
    tree.writeIn directory (named.getLast?.getD "") content (parts.getLast? = some "")

def names (tree : FileTree) (place : List String) : List String :=
  Text.sortStrings (tree.nodes.filterMap fun entry =>
    if entry.1.dropLast = place then entry.1.getLast? else none)

def child (directory name : String) : String :=
  if directory.toList.getLast? = some '/' then directory ++ name else directory ++ "/" ++ name

/-- Whether a file name has the extension of style sources: its last point is not its first
character and `json` follows it. -/
def isSourceName (name : String) : Bool :=
  let reversed := name.toList.reverse
  "nosj.".toList.isPrefixOf reversed && 5 < reversed.length

/-- The style sources in a directory, as paths from it, depth first. The fuel bounds the depth. -/
def sources (tree : FileTree) (recursive : Bool) (fuel : Nat) (place : List String)
    (text : String) : List String :=
  match fuel with
  | 0 => []
  | smaller + 1 => (tree.names place).flatMap fun name =>
    match tree.node? (place ++ [name]) with
    | some (.file _) => if isSourceName name then [child text name] else []
    | some .directory =>
      if recursive then tree.sources recursive smaller (place ++ [name]) (child text name) else []
    | none => []

/-- The style sources that a path stands for: those in a directory, or the path itself. -/
def expand (tree : FileTree) (recursive : Bool) (text : String) : List String :=
  match tree.resolve text with
  | .error _ => [text]
  | .ok place =>
    if tree.hasDirectory place then
      tree.sources recursive (tree.nodes.length + 1) place text
    else [text]

/-- The path of a place: from the working directory, if it lies below that, or from the root. -/
def pathOf (tree : FileTree) (place : List String) : String :=
  if tree.workingDirectory.isPrefixOf place then
    Text.join "/" (place.drop tree.workingDirectory.length)
  else "/" ++ Text.join "/" place

/-- The files of a tree that another one does not hold with the same content, with their text. -/
def changes (before after : FileTree) : List (String × String) :=
  after.nodes.filterMap fun entry =>
    match entry.2 with
    | .directory => none
    | .file content =>
      if (before.node? entry.1).any (FileNode.holds content) then none
      else (String.fromUTF8? content).map fun text => (after.pathOf entry.1, text)

end FileTree

end AtomicCss
