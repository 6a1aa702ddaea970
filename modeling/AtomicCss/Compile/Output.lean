import AtomicCss.Json.Writer
import AtomicCss.Sheet.Registry
import AtomicCss.Warning

/-!
Contract: what a definition compiles to.

Owns:
- the classes of a namespace by key, and its bindings of parameters to custom properties;
- how an argument becomes the value of a custom property;
- the output of a compilation, and its form in JSON.

Does not own: how the output comes about.
-/

namespace AtomicCss

/-- The list with `name` at its end, if it is not in it. -/
def addName (names : List String) (name : String) : List String :=
  if names.contains name then names else names ++ [name]

inductive Argument where
  | number (value : Binary64)
  | text (written : String)
  | null
deriving DecidableEq, Repr

/-- How an argument becomes the value of a custom property. -/
structure ValueTransform where
  /-- What follows a number. -/
  suffix : String
  /-- What stands in for a missing argument. -/
  nullFallback : String
deriving DecidableEq, Repr

namespace ValueTransform

def apply (transform : ValueTransform) : Argument → String
  | .number value => value.styleText ++ transform.suffix
  | .text written => written
  | .null => transform.nullFallback

/-- The transform as a JavaScript function, for pages that call it. -/
def describe (transform : ValueTransform) : String :=
  let number := if transform.suffix = "" then "val" else "val + \"" ++ transform.suffix ++ "\""
  "val => typeof val === \"number\" ? " ++ number ++ " : val != null ? val : \"" ++
    transform.nullFallback ++ "\""

end ValueTransform

/-- A custom property that carries the value of a parameter. -/
structure Binding where
  cssVariable : String
  parameter : String
  transform : ValueTransform
deriving DecidableEq, Repr

/-- A namespace after compilation: class names by key, none of them for a key that is null. -/
structure CompiledNamespace where
  classes : List (String × List String)
  parameters : List String
  bindings : List Binding
deriving DecidableEq, Repr

namespace CompiledNamespace

def isDynamic (compiled : CompiledNamespace) : Bool :=
  !compiled.parameters.isEmpty

def addClasses (key : String) (names : List String) :
    List (String × List String) → List (String × List String)
  | [] => [(key, names.foldl addName [])]
  | entry :: rest =>
    if entry.1 = key then (key, names.foldl addName entry.2) :: rest
    else entry :: addClasses key names rest

/-- The class names of all keys in order, each once. -/
def classList (compiled : CompiledNamespace) : List String :=
  (compiled.classes.flatMap (·.2)).foldl addName []

/-- The custom properties to set for arguments, as a map in order; a missing argument counts as
null. -/
def inlineStyles (compiled : CompiledNamespace) (arguments : List (String × Argument)) :
    List (String × String) :=
  OrderedMap.ofEntries <| compiled.bindings.map fun binding =>
    (binding.cssVariable,
      binding.transform.apply ((OrderedMap.get? binding.parameter arguments).getD .null))

end CompiledNamespace

/-- The output of a compilation. Each artifact is listed once, where it first came up. -/
structure Output where
  styles : List (String × CompiledNamespace)
  artifacts : List Artifact
  warnings : List Warning
deriving DecidableEq, Repr

namespace Output

def ruleCount (output : Output) : Nat :=
  output.artifacts.countP fun artifact => !artifact.isKeyframes

def keyframesCount (output : Output) : Nat :=
  output.artifacts.countP Artifact.isKeyframes

end Output

def optionalTextJson : Option String → Json
  | some text => .string text
  | none => .null

/-- Class names: null for none, a string for one, a list for more. -/
def classNamesJson : List String → Json
  | [] => .null
  | [name] => .string name
  | names => .array (names.map .string)

def ValueTransform.json (transform : ValueTransform) : Json :=
  .object [("suffix", .string transform.suffix), ("null_fallback", .string transform.nullFallback)]

def Binding.json (binding : Binding) : Json :=
  .object [("variable", .string binding.cssVariable), ("param", .string binding.parameter),
    ("transform", binding.transform.json)]

/-- A namespace in JSON: its keys, a mark that it is compiled, and parameters if it has some. -/
def CompiledNamespace.json (compiled : CompiledNamespace) : Json :=
  let keys := compiled.classes.map fun entry => (entry.1, classNamesJson entry.2)
  let parameters := if compiled.isDynamic then
      [("$params", Json.array (compiled.parameters.map .string)),
        ("$bindings", .array (compiled.bindings.map Binding.json))]
    else []
  .object (keys ++ ("$$css", .bool true) :: parameters)

def stylesJson (styles : List (String × CompiledNamespace)) : Json :=
  .object (styles.map fun entry => (entry.1, entry.2.json))

def Artifact.json (artifact : Artifact) : Json :=
  .array [.string artifact.id,
    .object [("ltr", .string artifact.css.ltr), ("rtl", optionalTextJson artifact.css.rtl)],
    .number (.integer artifact.priority)]

def Warning.json (warning : Warning) : Json :=
  .object [("kind", .string warning.kind.name), ("property", .string warning.property),
    ("value", .string warning.value), ("message", .string warning.message)]

end AtomicCss
