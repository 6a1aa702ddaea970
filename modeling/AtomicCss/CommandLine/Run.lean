import AtomicCss.About
import AtomicCss.CommandLine.Arguments
import AtomicCss.CommandLine.Describe
import AtomicCss.CommandLine.FileTree
import AtomicCss.Compile.Compiler
import AtomicCss.Compile.Settings
import AtomicCss.Compile.Stats
import AtomicCss.Style.Source

/-!
Contract: what the commands do.

Owns:
- loading sources and settings from files;
- the commands `compile`, `check` and `hash`, as functions of the files they see;
- the report of a call: its output, its exit code and the files after it.

Does not own: the disk and the terminal.
-/

namespace AtomicCss

def loadSource (files : FileTree) (path : String) : Except Error Source :=
  match files.read path with
  | .error fault => .error (.notFound (.source path fault))
  | .ok text =>
    match Source.read text with
    | .error (.invalidFormat _ fault) => .error (.invalidFormat (some path) fault)
    | result => result

def loadSettings (files : FileTree) (path : String) : Except Error Settings :=
  match files.read path with
  | .error fault => .error (.notFound (.settings path fault))
  | .ok text => Settings.read path text

def writeFile (files : FileTree) (path content : String) : Except Error FileTree :=
  match files.write path content with
  | .error fault => .error (.io fault)
  | .ok written => .ok written

/-- Compiles the source in one file to a style sheet in another. -/
def compileFile (options : Options) (files : FileTree) (input output : String) :
    Except Error (Stats × FileTree) := do
  let sourceSize ← match files.size input with
    | .error fault => .error (.notFound (.source input fault))
    | .ok size => .ok size
  let source ← loadSource files input
  let compiler ← Compiler.ofOptions options
  let (registry, compiled) ← compiler.compileInto source Registry.empty
  let css := registry.sheet .ltr
  let written ← writeFile files output css
  let stats := (Stats.zero.addSource sourceSize).record compiled source.keyframes.length
  .ok (stats.finish registry css.utf8ByteSize, written)

/-- What a command has said and left on disk so far. -/
structure Console where
  out : String
  err : String
  files : FileTree

/-- A command in progress, which may fail. -/
abbrev Action (α : Type) : Type :=
  ExceptT Error (StateM Console) α

namespace Action

def say (line : String) : Action Unit :=
  modify fun console => { console with out := console.out ++ line ++ "\n" }

/-- Says a line on the standard error. -/
def remark (line : String) : Action Unit :=
  modify fun console => { console with err := console.err ++ line ++ "\n" }

def put (text : String) : Action Unit :=
  modify fun console => { console with out := console.out ++ text }

def files : Action FileTree :=
  return (← get).files

/-- The value of a step that says nothing. -/
def ofExcept {α : Type} (result : Except Error α) : Action α :=
  match result with
  | .ok value => pure value
  | .error error => throw error

def write (path content : String) : Action Unit := do
  let written ← ofExcept (writeFile (← files) path content)
  modify fun console => { console with files := written }

end Action

/-- The options of a command: defaults, then the settings file, then flags. -/
def commandOptions (settings : Settings) (flags : SettingFlags) : Options :=
  let options := settings.apply Options.default
  ⟨flags.classPrefix.getD options.classPrefix, options.expandShorthands && !flags.noExpand,
    options.logicalProperties && !flags.noLogical, options.warnUnknown, options.nullFallback,
    flags.debug || options.debugMode⟩

def commandCompiler (settings : Settings) (flags : SettingFlags) : Except Error Compiler :=
  Compiler.ofOptions (commandOptions settings flags)

/-- The style sources that inputs stand for, of which there must be one. -/
def collectInputs (files : FileTree) (recursive : Bool) (inputs : List String) :
    Except Error (List String) :=
  let paths := inputs.flatMap (files.expand recursive)
  if paths.isEmpty then .error (.notFound (.noSources inputs)) else .ok paths

structure Compilation where
  registry : Registry
  outputs : List (String × Output)
  stats : Stats

/-- Loads sources, adding up their sizes. -/
def loadSources (files : FileTree) :
    List String → Except Error (List (String × Source) × Nat)
  | [] => .ok ([], 0)
  | path :: rest => do
    let size := match files.size path with
      | .ok bytes => bytes
      | .error _ => 0
    let source ← loadSource files path
    let (sources, total) ← loadSources files rest
    .ok ((path, source) :: sources, size + total)

/-- Compiles sources and merges them in order. Each failure is remarked on, and the first is the
failure of the whole. -/
def compileInputs (compiler : Compiler) (paths : List String) : Action Compilation := do
  let (sources, size) ← Action.ofExcept (loadSources (← Action.files) paths)
  let mut compilation : Compilation := ⟨Registry.empty, [], Stats.zero.addSource size⟩
  let mut failure : Option Error := none
  for (path, source) in sources do
    match compiler.compileInto source compilation.registry with
    | .ok (registry, output) =>
      compilation := ⟨registry, compilation.outputs ++ [(path, output)],
        compilation.stats.record output source.keyframes.length⟩
    | .error error =>
      Action.remark ("❌ " ++ path ++ ": " ++ error.message)
      failure := some (failure.getD error)
  match failure with
  | some error => throw error
  | none =>
    return { compilation with stats := compilation.stats.finish compilation.registry 0 }

def Compilation.json (compilation : Compilation) : Json :=
  let styles := compilation.outputs.map fun entry => (entry.1, stylesJson entry.2.styles)
  let warnings := compilation.outputs.flatMap fun entry => entry.2.warnings
  .object [("styles", .object (OrderedMap.ofEntries styles)),
    ("artifacts", .array (compilation.registry.sorted.map Artifact.json)),
    ("warnings", .array (warnings.map Warning.json)),
    ("fingerprint", .string compilation.registry.fingerprint)]

def Compilation.render (compilation : Compilation) : OutputFormat → String
  | .css => compilation.registry.sheet .ltr
  | .rtl => compilation.registry.sheet .rtl
  | .json => compilation.json.indented ++ "\n"

def Stats.describe (stats : Stats) (elapsed : Nat) : String :=
  "\n📊 Detailed Compilation Statistics:\n   Source size: " ++ Nat.repr stats.sourceSize ++
    " bytes\n   Output size: " ++ Nat.repr stats.outputSize ++
    " bytes\n   Compile time: " ++ Nat.repr elapsed ++
    "ms\n\n   Breakdown:\n     Files: " ++ Nat.repr stats.fileCount ++
    "\n     Namespaces: " ++ Nat.repr stats.namespaceCount ++
    "\n     Rules: " ++ Nat.repr stats.ruleCount ++
    "\n     Keyframes: " ++ Nat.repr stats.keyframesCount ++
    "\n     Warnings: " ++ Nat.repr stats.warningCount

/-- The `compile` command. A style sheet on the standard output keeps other lines off it. -/
def runCompile (elapsed : Nat) (settings : Settings) (inputs : List String)
    (output : Option String) (format : OutputFormat) (showStats : Bool) (flags : SettingFlags) :
    Action Unit := do
  let target := match output with
    | some path => some path
    | none => settings.outputFile
  let status (line : String) : Action Unit :=
    if target.isSome then Action.say line else Action.remark line
  let compiler ← Action.ofExcept (commandCompiler settings flags)
  let paths ← Action.ofExcept (collectInputs (← Action.files) true inputs)
  status ("🔨 Compiling " ++ Nat.repr paths.length ++ " file(s) -> " ++ target.getD "stdout")
  let compilation ← compileInputs compiler paths
  let text := compilation.render format
  let stats := { compilation.stats with outputSize := text.utf8ByteSize }
  match target with
  | some path => Action.write path text
  | none => Action.put text
  for (path, result) in compilation.outputs do
    for warning in result.warnings do
      status ("⚠️  " ++ path ++ ": " ++ warning.display)
  status "✅ Compilation successful!"
  status ("   Rules: " ++ Nat.repr stats.ruleCount ++ ", keyframes: " ++
    Nat.repr stats.keyframesCount)
  status ("   Output: " ++ Nat.repr stats.outputSize ++ " bytes")
  status ("   Time: " ++ Nat.repr elapsed ++ "ms")
  if showStats then status (stats.describe elapsed)

/-- The warnings on one source, compiled on its own. -/
def checkSource (compiler : Compiler) (files : FileTree) (path : String) :
    Except Error (List Warning) := do
  let source ← loadSource files path
  let (_, output) ← compiler.compileInto source Registry.empty
  .ok output.warnings

def checkFile (compiler : Compiler) (path : String) : Action (Except Error (List Warning)) := do
  Action.say ("🔍 Checking " ++ path)
  let result := checkSource compiler (← Action.files) path
  match result with
  | .ok [] => Action.say ("✅ " ++ path ++ " - No issues found")
  | .ok warnings =>
    for warning in warnings do
      Action.say ("⚠️  " ++ path ++ " - " ++ warning.display)
  | .error error => Action.say ("❌ " ++ path ++ " - " ++ error.message)
  return result

def checkDirectory (compiler : Compiler) (recursive : Bool) (input : String) : Action Unit := do
  let paths ← Action.ofExcept (collectInputs (← Action.files) recursive [input])
  let mut failed := 0
  let mut warned := 0
  for path in paths do
    match ← checkFile compiler path with
    | .ok warnings => warned := warned + warnings.length
    | .error _ => failed := failed + 1
  Action.say "\n📊 Check Summary:"
  Action.say ("   Total files: " ++ Nat.repr paths.length)
  Action.say ("   Files with errors: " ++ Nat.repr failed)
  Action.say ("   Warnings: " ++ Nat.repr warned)
  if 0 < failed then throw (.invalidFormat none (.failedFiles failed))

def runCheck (settings : Settings) (input : String) (recursive : Bool) (flags : SettingFlags) :
    Action Unit := do
  let compiler ← Action.ofExcept (commandCompiler settings flags)
  if (← Action.files).isDirectory input then checkDirectory compiler recursive input
  else
    let result ← checkFile compiler input
    let _ ← Action.ofExcept result

def runHash (settings : Settings) (property value : String) (contexts : List String)
    (flags : SettingFlags) : Action Unit := do
  let compiler ← Action.ofExcept (commandCompiler settings flags)
  let lines ← Action.ofExcept
    (describeDeclaration compiler.options property (argumentValue value) contexts)
  for line in lines do
    Action.say line

/-- A call of the command. The settings file is read first, whatever the command. -/
def runInvocation (elapsed : Nat) (invocation : Invocation) : Action Unit := do
  let settings ← match invocation.config with
    | some path => Action.ofExcept (loadSettings (← Action.files) path)
    | none => pure Settings.empty
  match invocation.command with
  | some (.compile inputs output format stats flags) =>
    runCompile elapsed settings inputs output format stats flags
  | some (.check input recursive flags) => runCheck settings input recursive flags
  | some (.hash property value contexts flags) => runHash settings property value contexts flags
  | none => Action.say "No subcommand specified. Use --help for usage information."

structure Report where
  exit : Nat
  out : String
  err : String
  files : FileTree

def failureLine : Error → String
  | .io fault => "IO Error: " ++ fault.message
  | error => "Compilation failed: " ++ error.message

def usage : String :=
  "Usage: " ++ About.name ++
    " [-c FILE] [-v] <compile INPUTS.. | check INPUT | hash PROPERTY VALUE>"

/-- Runs the command on arguments and files. The time it took, in milliseconds, is told to it. -/
def runCommand (elapsed : Nat) (files : FileTree) (arguments : List String) : Report :=
  match Invocation.read arguments with
  | .error .usage => ⟨2, "", usage ++ "\n", files⟩
  | .error .help => ⟨0, About.description ++ "\n\n" ++ usage ++ "\n", "", files⟩
  | .error .version => ⟨0, About.name ++ " " ++ About.version ++ "\n", "", files⟩
  | .ok invocation =>
    match (runInvocation elapsed invocation).run.run ⟨"", "", files⟩ with
    | (.ok _, console) => ⟨0, console.out, console.err, console.files⟩
    | (.error error, console) =>
      ⟨1, console.out, console.err ++ failureLine error ++ "\n", console.files⟩

end AtomicCss
