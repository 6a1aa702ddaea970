import AtomicCss.Number.Decimal
import AtomicCss.Text.CodeRange

/-!
Contract: the arguments of the command.

Owns:
- flags with long and short names, clusters of short flags, values after a blank or an equals
  sign, and operands;
- the commands and the flags of each.

Does not own: what the commands do.
-/

namespace AtomicCss

/-- What a flag takes and does. -/
inductive FlagKind where
  /-- Takes nothing and is given once. -/
  | switch
  /-- Takes nothing and may be given again. -/
  | counter
  /-- Takes a value and is given once. -/
  | value
  /-- Takes a value and may be given again. -/
  | values
  /-- Asks for help and ends the reading. -/
  | help
  /-- Asks for the version and ends the reading. -/
  | version
deriving DecidableEq, Repr

structure Flag where
  name : String
  short : Option Char
  kind : FlagKind
  /-- Which values the flag takes. -/
  accepts : String → Bool

def Flag.takesValue (flag : Flag) : Bool :=
  flag.kind = .value || flag.kind = .values

/-- The form of a command line: flags, and operands, each of which may start with a dash or not. -/
structure CommandForm where
  flags : List Flag
  operands : List Bool
  /-- Whether the last operand may be given again. -/
  repeats : Bool

/-- Why reading the arguments ended. -/
inductive Stop where
  | usage
  | help
  | version
deriving DecidableEq, Repr

/-- What has been read of the arguments. -/
structure Arguments where
  switches : List String
  values : List (String × String)
  operands : List String
  /-- The flag whose value comes next. -/
  expecting : Option Flag
  /-- Whether everything that follows is an operand. -/
  operandsOnly : Bool

namespace Arguments

def start : Arguments :=
  ⟨[], [], [], none, false⟩

def has (arguments : Arguments) (name : String) : Bool :=
  arguments.switches.contains name

def value? (arguments : Arguments) (name : String) : Option String :=
  arguments.values.lookup name

def valuesOf (arguments : Arguments) (name : String) : List String :=
  arguments.values.filterMap fun entry => if entry.1 = name then some entry.2 else none

def addSwitch (arguments : Arguments) (flag : Flag) : Except Stop Arguments :=
  match flag.kind with
  | .help => .error .help
  | .version => .error .version
  | kind =>
    if kind != .counter && arguments.has flag.name then .error .usage
    else .ok { arguments with switches := arguments.switches ++ [flag.name] }

def addValue (arguments : Arguments) (flag : Flag) (value : String) : Except Stop Arguments :=
  if flag.kind != .values && (arguments.value? flag.name).isSome then .error .usage
  else if flag.accepts value then
    .ok { arguments with
      values := arguments.values ++ [(flag.name, value)]
      expecting := none }
  else .error .usage

def addOperand (form : CommandForm) (arguments : Arguments) (operand : String) :
    Except Stop Arguments :=
  if arguments.operands.length < form.operands.length || form.repeats then
    .ok { arguments with operands := arguments.operands ++ [operand] }
  else .error .usage

def allowsDash (form : CommandForm) (arguments : Arguments) : Bool :=
  form.operands.getD arguments.operands.length false

def longFlag? (form : CommandForm) (name : String) : Option Flag :=
  form.flags.find? fun flag => flag.name = name

def shortFlag? (form : CommandForm) (letter : Char) : Option Flag :=
  form.flags.find? fun flag => flag.short = some letter

/-- A long name, and the value that an equals sign attaches to it, if any. -/
def splitLong (body : List Char) : String × Option String :=
  let attached := match body.dropWhile (· != '=') with
    | [] => none
    | _ :: value => some (String.ofList value)
  (String.ofList (body.takeWhile (· != '=')), attached)

/-- The arguments with a flag given by its long name, and the value attached to it, if any. -/
def addLong (form : CommandForm) (arguments : Arguments) (name : String)
    (attached : Option String) : Except Stop Arguments :=
  match longFlag? form name with
  | none => .error .usage
  | some flag =>
    if flag.takesValue then
      match attached with
      | some value => arguments.addValue flag value
      | none => .ok { arguments with expecting := some flag }
    else if attached.isSome then .error .usage
    else arguments.addSwitch flag

/-- The arguments with a cluster of short flags, the last of which may have its value attached. -/
def addCluster (form : CommandForm) (arguments : Arguments) : List Char → Except Stop Arguments
  | [] => .ok arguments
  | letter :: rest =>
    match shortFlag? form letter with
    | none => .error .usage
    | some flag =>
      if flag.takesValue then
        match rest with
        | [] => .ok { arguments with expecting := some flag }
        | '=' :: value => arguments.addValue flag (String.ofList value)
        | value => arguments.addValue flag (String.ofList value)
      else do
        let extended ← arguments.addSwitch flag
        extended.addCluster form rest

/-- Whether a text starts with a dash and is more than that. -/
def looksLikeFlag (text : String) : Bool :=
  Text.startsWith "-" text && text != "-"

/-- Whether a text that looks like a flag names none of the command: its long name is unknown, or
some letter of its cluster is. Two dashes alone end the flags and are no name. -/
def namesNoFlag (form : CommandForm) (argument : String) : Bool :=
  match argument.toList with
  | ['-', '-'] => false
  | '-' :: '-' :: body => (longFlag? form (splitLong body).1).isNone
  | '-' :: letters => letters.any fun letter => (shortFlag? form letter).isNone
  | _ => false

/-- Whether an argument is text, which is a value or an operand. One that looks like a flag is text
after the end of the flags, and where the next operand may start with a dash, if it names no
flag. -/
def isText (form : CommandForm) (arguments : Arguments) (argument : String) : Bool :=
  arguments.operandsOnly || !looksLikeFlag argument ||
    (allowsDash form arguments && namesNoFlag form argument)

/-- The arguments with one more text: the value of the flag that awaits one, or else an operand. -/
def addText (form : CommandForm) (arguments : Arguments) (text : String) :
    Except Stop Arguments :=
  match arguments.expecting with
  | some flag => arguments.addValue flag text
  | none => addOperand form arguments text

/-- The arguments with one more flag, cluster of flags or end of the flags, none of which may stand
where a value has to come. -/
def addFlag (form : CommandForm) (arguments : Arguments) (argument : String) :
    Except Stop Arguments :=
  if arguments.expecting.isSome then .error .usage
  else match argument.toList with
    | ['-', '-'] => .ok { arguments with operandsOnly := true }
    | '-' :: '-' :: body => addLong form arguments (splitLong body).1 (splitLong body).2
    | '-' :: letters => arguments.addCluster form letters
    | _ => .error .usage

def add (form : CommandForm) (arguments : Arguments) (argument : String) :
    Except Stop Arguments :=
  if isText form arguments argument then addText form arguments argument
  else addFlag form arguments argument

/-- Refuses arguments that end before a value or lack operands. -/
def finish (form : CommandForm) (arguments : Arguments) : Except Stop Arguments :=
  if arguments.expecting.isSome || arguments.operands.length < form.operands.length then
    .error .usage
  else .ok arguments

def read (form : CommandForm) (arguments : List String) : Except Stop Arguments := do
  let all ← arguments.foldlM (add form) start
  all.finish form

/-- Reads arguments up to the first operand, which names a command, and gives that and what
follows it. -/
def readGlobal (form : CommandForm) (arguments : Arguments) :
    List String → Except Stop (Arguments × Option (String × List String))
  | [] => do
    let all ← arguments.finish form
    .ok (all, none)
  | argument :: rest =>
    if arguments.expecting.isNone && !arguments.operandsOnly && !looksLikeFlag argument then
      .ok (arguments, some (argument, rest))
    else do
      let extended ← arguments.add form argument
      readGlobal form extended rest

end Arguments

inductive OutputFormat where
  | css
  | rtl
  | json
deriving DecidableEq, Repr

def OutputFormat.ofName? (name : String) : Option OutputFormat :=
  if name = "css" then some .css
  else if name = "rtl" then some .rtl
  else if name = "json" then some .json
  else none

/-- Whether a text is a count: a plus sign or none, digits, and a value of at most 64 bits. -/
def isCount (text : String) : Bool :=
  let digits := match text.toList with
    | '+' :: rest => rest
    | all => all
  !digits.isEmpty && digits.all Char.isDigit && Nat.blt (Decimal.digitsValue digits) (Nat.pow 2 64)

/-- The settings that every command takes as flags. -/
structure SettingFlags where
  classPrefix : Option String
  noExpand : Bool
  noLogical : Bool
  debug : Bool
deriving DecidableEq, Repr

inductive Command where
  | compile (inputs : List String) (output : Option String) (format : OutputFormat)
      (stats : Bool) (settings : SettingFlags)
  | check (input : String) (recursive : Bool) (settings : SettingFlags)
  | hash (property value : String) (contexts : List String) (settings : SettingFlags)
deriving DecidableEq, Repr

/-- A call of the command: the settings file, if one is named, and the command, if there is one. -/
structure Invocation where
  config : Option String
  command : Option Command
deriving DecidableEq, Repr

namespace Invocation

def anyText (_ : String) : Bool :=
  true

def helpFlag : Flag :=
  ⟨"help", some 'h', .help, anyText⟩

/-- The form of what stands before the command. -/
def globalForm : CommandForm :=
  ⟨[⟨"config", some 'c', .value, anyText⟩, ⟨"verbose", some 'v', .counter, anyText⟩,
    ⟨"version", some 'V', .version, anyText⟩, helpFlag], [], false⟩

def settingFlags : List Flag :=
  [⟨"prefix", none, .value, anyText⟩, ⟨"no-expand", none, .switch, anyText⟩,
    ⟨"no-logical", none, .switch, anyText⟩, ⟨"debug", some 'd', .switch, anyText⟩, helpFlag]

def compileForm : CommandForm :=
  ⟨[⟨"output", some 'o', .value, anyText⟩,
    ⟨"format", some 'f', .value, fun name => (OutputFormat.ofName? name).isSome⟩,
    ⟨"jobs", some 'j', .value, isCount⟩, ⟨"stats", none, .switch, anyText⟩] ++ settingFlags,
    [false], true⟩

def checkForm : CommandForm :=
  ⟨⟨"recursive", some 'r', .switch, anyText⟩ :: settingFlags, [false], false⟩

/-- The form of `hash`, whose second operand may start with a dash. -/
def hashForm : CommandForm :=
  ⟨⟨"context", none, .values, anyText⟩ :: settingFlags, [false, true], false⟩

def settingsOf (arguments : Arguments) : SettingFlags :=
  ⟨arguments.value? "prefix", arguments.has "no-expand", arguments.has "no-logical",
    arguments.has "debug"⟩

def commandNames : List String :=
  ["compile", "check", "hash", "help"]

/-- Why the reading ends at the command that asks for help, which takes the name of one command at
most and no flags. -/
def helpStop : List String → Stop
  | [] => .help
  | [name] => if commandNames.contains name then .help else .usage
  | _ => .usage

def readCommand (name : String) (rest : List String) : Except Stop Command :=
  if name = "compile" then do
    let arguments ← Arguments.read compileForm rest
    let format := ((arguments.value? "format").bind OutputFormat.ofName?).getD .css
    .ok (.compile arguments.operands (arguments.value? "output") format (arguments.has "stats")
      (settingsOf arguments))
  else if name = "check" then do
    let arguments ← Arguments.read checkForm rest
    .ok (.check (arguments.operands.getD 0 "") (arguments.has "recursive") (settingsOf arguments))
  else if name = "hash" then do
    let arguments ← Arguments.read hashForm rest
    .ok (.hash (arguments.operands.getD 0 "") (arguments.operands.getD 1 "")
      (arguments.valuesOf "context") (settingsOf arguments))
  else if name = "help" then .error (helpStop rest)
  else .error .usage

def read (arguments : List String) : Except Stop Invocation := do
  let (global, command) ← Arguments.readGlobal globalForm Arguments.start arguments
  let config := global.value? "config"
  match command with
  | none => .ok ⟨config, none⟩
  | some (name, rest) => do
    let read ← readCommand name rest
    .ok ⟨config, some read⟩

end Invocation

end AtomicCss
